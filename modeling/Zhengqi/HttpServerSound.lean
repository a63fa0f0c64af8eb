import Zhengqi.HttpContextSound
import Zhengqi.HttpServer

/-!
# Messages of an HTTP connection

What one `onMessage` does to a connection, by what the parser makes of the bytes
(`Handles`). The buffers never fail as long as the bytes delivered fit into memory.
-/

namespace Zhengqi

open Run

namespace HttpResponse

theorem appendPieces_ok {ps : List Bytes} {b : Buffer} {n : Nat} (hps : ∀ p ∈ ps, p.length < 2 ^ 31) (hb : b.Within n)
    (h : Buffer.kCheapPrepend + n + ps.flatten.length ≤ Buffer.maxSize) :
    ∃ c, ps.foldlM Buffer.appendPiece b = .ok c := by
  rw [foldlM_eq_run]
  rw [← List.flatMap_id] at h
  exact hb.run_appends (fun p hp _ => Buffer.appendPiece_eq (hps p hp)) h

theorem Fits.appendToBuffer_ok {r : HttpResponse} (hr : r.Fits) {b : Buffer} (hb : b.Within 0) :
    ∃ c, r.appendToBuffer b = .ok c := by
  have hall := hr.2
  refine appendPieces_ok hr.1 hb ?_
  unfold Buffer.kCheapPrepend Buffer.maxSize
  omega

end HttpResponse

namespace HttpConnection

variable {c : HttpConnection} {n : Nat}

theorem ctor_within : ∃ b, Buffer.ctor Buffer.kInitialSize = .ok b ∧ b.Within 0 ∧ b.readable = [] :=
  ⟨_, Buffer.ctor_spec (by decide), Buffer.fresh_within _ (by decide), Buffer.fresh_readable _⟩

theorem onRequest_spec (c : HttpConnection) (httpCallback : HttpCallback) (req : HttpRequest) :
    ∃ c' rs, c.onRequest httpCallback req = .ok c' ∧ c'.context = c.context ∧ c'.inputBuffer = c.inputBuffer ∧
      c'.requests = c.requests ++ [req] ∧ c'.replies = c.replies ++ rs ∧ ∀ m, .sendPiece m ∉ rs := by
  obtain ⟨b, hb, hw, -⟩ := ctor_within
  unfold onRequest
  rw [hb, ok_bind]
  dsimp only
  generalize hresp : httpCallback.respond req _ = response
  have hfits : response.Fits := hresp ▸ httpCallback.fits req _
  obtain ⟨buf, hbuf⟩ := hfits.appendToBuffer_ok hw
  rw [hbuf, ok_bind]
  by_cases hclose : response.closeConnection = true
  · refine ⟨_, [.sendBuffer buf.readable, .shutdown], if_pos hclose, rfl, rfl, rfl, ?_, by simp⟩
    simp [reply]
  · exact ⟨_, [.sendBuffer buf.readable], if_neg hclose, rfl, rfl, rfl, rfl, by simp⟩

/-- What a message does, by what the parser makes of the bytes. -/
inductive Handles (c : HttpConnection) (t : Timestamp) (bs : Bytes) : Except Fault HttpConnection → Prop
  | stop {f : Fault} (h : Parses t c.context bs (.error f)) : Handles c t bs (.error f)
  | wait {c' : HttpConnection} (h : Parses t c.context bs (.ok (c'.context, c'.inputBuffer.readable, true)))
      (hs : c'.context.state ≠ .kGotAll) (hq : c'.requests = c.requests) (hr : c'.replies = c.replies) :
      Handles c t bs (.ok c')
  | reject {c' : HttpConnection} (h : Parses t c.context bs (.ok (c'.context, c'.inputBuffer.readable, false)))
      (hq : c'.requests = c.requests) (hr : c'.replies = c.replies ++ [.sendPiece badRequest, .shutdown]) :
      Handles c t bs (.ok c')
  | request {x : HttpContext} {c' : HttpConnection} {rs : List Reply}
      (h : Parses t c.context bs (.ok (x, c'.inputBuffer.readable, true))) (hs : x.state = .kGotAll)
      (hx : c'.context = {}) (hq : c'.requests = c.requests ++ [x.request]) (hr : c'.replies = c.replies ++ rs)
      (hn : ∀ m, .sendPiece m ∉ rs) : Handles c t bs (.ok c')

/-- A connection to which at most `n` bytes were ever delivered. -/
structure Ready (c : HttpConnection) (n : Nat) : Prop where
  expects : c.context.expects = true
  within : c.inputBuffer.Within n

theorem Ready.onMessage (h : c.Ready n) (httpCallback : HttpCallback) (t : Timestamp) :
    c.Handles t c.inputBuffer.readable (c.onMessage httpCallback t) ∧
      ∀ c', c.onMessage httpCallback t = .ok c' → c'.Ready n := by
  unfold HttpConnection.onMessage
  rcases HttpContext.parseRequest_parses h.expects h.within t with ⟨f, hp, hf⟩ | ⟨l, hp, hl, hw, hx⟩
  · rw [hf, error_bind]
    exact ⟨.stop hp, by simp⟩
  · rw [hl, ok_bind]
    rcases hx with he | ⟨hg, hok⟩
    · have hs : l.context.state ≠ .kGotAll := by
        intro hg
        simp [HttpContext.expects, hg] at he
      cases hok : l.ok with
      | true =>
        rw [hok] at hp
        simp only [if_true, HttpContext.gotAll, hs, decide_false, Bool.false_eq_true, if_false, pure_eq_ok]
        refine ⟨.wait hp hs rfl rfl, ?_⟩
        rintro c' ⟨⟩
        exact ⟨he, hw⟩
      | false =>
        rw [hok] at hp
        simp only [Bool.false_eq_true, if_false, HttpContext.gotAll, reply, hs, decide_false, pure_eq_ok]
        refine ⟨.reject hp rfl (by simp), ?_⟩
        rintro c' ⟨⟩
        exact ⟨he, hw⟩
    · rw [hok] at hp
      simp only [hok, if_true, HttpContext.gotAll, hg, decide_true]
      obtain ⟨c', rs, hc', hctx, hbuf, hq, hr, hn⟩ := onRequest_spec
        { c with context := l.context, inputBuffer := l.buf } httpCallback l.context.request
      rw [hc', ok_bind, pure_eq_ok]
      refine ⟨?_, ?_⟩
      · have hb : c'.inputBuffer.readable = l.buf.readable := by rw [hbuf]
        exact .request (by rw [hb]; exact hp) hg rfl hq hr hn
      · rintro c'' ⟨⟩
        exact ⟨rfl, by simp only [hbuf]; exact hw⟩

theorem Ready.step (h : c.Ready n) (httpCallback : HttpCallback) {chunk : Chunk}
    (hn : Buffer.kCheapPrepend + n + chunk.data.length ≤ Buffer.maxSize) :
    c.Handles chunk.receiveTime (c.inputBuffer.readable ++ chunk.data) (step httpCallback c chunk) ∧
      ∀ c', step httpCallback c chunk = .ok c' → c'.Ready (n + chunk.data.length) := by
  obtain ⟨b, hb, hw, hr⟩ := h.within.append chunk.data hn
  unfold HttpConnection.step
  rw [hb, ok_bind]
  have hc : Ready { c with inputBuffer := b } (n + chunk.data.length) := ⟨h.expects, hw⟩
  obtain ⟨h₁, h₂⟩ := hc.onMessage httpCallback chunk.receiveTime
  refine ⟨?_, h₂⟩
  rw [← hr]
  generalize HttpConnection.onMessage { c with inputBuffer := b } httpCallback chunk.receiveTime = r at h₁
  cases h₁ with
  | stop hp => exact .stop hp
  | wait hp hs hq hr => exact .wait hp hs hq hr
  | reject hp hq hr => exact .reject hp hq hr
  | request hp hs hx hq hr hn => exact .request hp hs hx hq hr hn

theorem onConnection_ready : ∃ c, onConnection = .ok c ∧ c.Ready 0 ∧ c.context = {} ∧ c.inputBuffer.readable = [] ∧
    c.requests = [] ∧ c.replies = [] := by
  obtain ⟨b, hb, hw, hr⟩ := ctor_within
  refine ⟨{ inputBuffer := b }, ?_, ⟨rfl, hw⟩, rfl, hr, rfl, rfl⟩
  unfold onConnection
  rw [hb]
  rfl

end HttpConnection

end Zhengqi
