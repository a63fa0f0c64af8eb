import Zhengqi.HttpServerSound

/-!
# Malformed requests

A rejected request line stays in the buffer, and the method that was read from it
stays in the request. The next bytes make the parser read the same line again, and
`setMethod` asserts that no method has been set: `malformed_input_asserts_only_after_method`
says that this is the only way to its assertion.
-/

namespace Zhengqi

open Run

/-! ## The request line -/

def requestMethod (line : Bytes) : Method :=
  if line.idxOf (chr ' ') = line.length then .kInvalid else .ofWord (line.take (line.idxOf (chr ' ')))

namespace HttpContext

variable {r : HttpRequest} {l : Bytes}

theorem setTarget_method (r : HttpRequest) (target : Bytes) : (setTarget r target).method = r.method := by
  unfold setTarget; dsimp only; split <;> rfl

theorem processRequestLine_method (hr : r.method = .kInvalid) :
    ∃ r' ok, processRequestLine r l = .ok (r', ok) ∧ r'.method = requestMethod l ∧
      (requestMethod l = .kInvalid → ok = false) := by
  unfold processRequestLine HttpRequest.setMethod requestMethod
  by_cases hs : l.idxOf (chr ' ') = l.length
  · exact ⟨r, false, by simp [hs], by simp [hs, hr], fun _ => rfl⟩
  · simp only [hs, ne_eq, not_false_eq_true, if_true, check_of hr, ok_bind, pure_eq_ok, decide_eq_true_eq, if_false]
    by_cases hm : Method.ofWord (l.take (l.idxOf (chr ' '))) = .kInvalid
    · exact ⟨_, false, if_neg (not_not.mpr hm), rfl, fun _ => rfl⟩
    · rw [if_pos hm]
      split
      · split
        · split
          · exact ⟨_, true, rfl, setTarget_method .., fun h => absurd h hm⟩
          · split
            · exact ⟨_, true, rfl, setTarget_method .., fun h => absurd h hm⟩
            · exact ⟨_, false, rfl, setTarget_method .., fun _ => rfl⟩
        · exact ⟨_, false, rfl, setTarget_method .., fun _ => rfl⟩
      · exact ⟨_, false, rfl, rfl, fun _ => rfl⟩

theorem processRequestLine_asserts (hr : r.method ≠ .kInvalid) (hl : requestMethod l ≠ .kInvalid) :
    processRequestLine r l = .error .setMethod := by
  have hs : ¬ l.idxOf (chr ' ') = l.length := by
    intro hs
    exact hl (if_pos hs)
  simp [processRequestLine, HttpRequest.setMethod, hs, hr]

end HttpContext

/-! ## Where the parser stands -/

/-- No method is set while a request line is expected. -/
def HttpContext.Clean (c : HttpContext) : Prop := c.state = .kExpectRequestLine → c.request.method = .kInvalid

/-- The first line of `bs` was rejected. -/
def HttpContext.Refused (c : HttpContext) (bs : Bytes) : Prop :=
  c.state = .kExpectRequestLine ∧ ∃ n, Buffer.searchCRLF bs = some n ∧ c.request.method = requestMethod (bs.take n)

theorem HttpContext.line_clean {c : HttpContext} (hc : c.Clean) (t : Timestamp) (l : Bytes) :
    ∃ c' ok, c.line t l = .ok (c', ok) ∧ (ok = true → c'.Clean) ∧
      (ok = false → c'.state = .kExpectRequestLine ∧ c'.request.method = requestMethod l) := by
  unfold line
  cases hs : c.state with
  | kExpectRequestLine =>
    obtain ⟨r, ok, hp, hm, -⟩ := processRequestLine_method (l := l) (hc hs)
    simp only [hp, ok_bind, pure_eq_ok]
    refine ⟨_, ok, rfl, ?_, ?_⟩
    · -- after an accepted line a header is expected
      rintro rfl he
      cases he
    · rintro rfl
      exact ⟨rfl, hm⟩
  | kExpectHeaders =>
    refine ⟨_, true, rfl, fun _ he => ?_, by simp⟩
    split at he
    · cases he
    · cases he
  | kExpectBody => exact ⟨c, true, rfl, fun _ => hc, by simp⟩
  | kGotAll => exact ⟨c, true, rfl, fun _ => hc, by simp⟩

theorem Parses.clean {t : Timestamp} {c : HttpContext} {bs : Bytes} {r : Except Fault (HttpContext × Bytes × Bool)}
    (h : Parses t c bs r) (hc : c.Clean) :
    ∃ c' bs' ok, r = .ok (c', bs', ok) ∧ (ok = true → c'.Clean) ∧ (ok = false → c'.Refused bs') := by
  induction h with
  | wait h => exact ⟨_, _, true, rfl, fun _ => hc, by simp⟩
  | @stop c bs n f h hl =>
    obtain ⟨c', ok, hl', -⟩ := HttpContext.line_clean hc t (bs.take n)
    rw [hl'] at hl; cases hl
  | @reject c c' bs n h hl =>
    obtain ⟨x, ok, hl', -, hx⟩ := HttpContext.line_clean hc t (bs.take n)
    rw [hl'] at hl; cases hl
    obtain ⟨hs, hm⟩ := hx rfl
    exact ⟨c', bs, false, rfl, by simp, fun _ => ⟨hs, n, h, hm⟩⟩
  | got h hl hg =>
    refine ⟨_, _, true, rfl, fun _ hs => ?_, by simp⟩
    rw [hg] at hs; cases hs
  | @more c c' bs n r h hl hg hp ih =>
    obtain ⟨x, ok, hl', hx, -⟩ := HttpContext.line_clean hc t (bs.take n)
    rw [hl'] at hl; cases hl
    exact ih (hx rfl)

/-- A refused line is read again: it is refused again, or it had set the method. -/
theorem HttpContext.Refused.parses {c : HttpContext} {bs : Bytes} (h : c.Refused bs) (xs : Bytes) (t : Timestamp) :
    (c.request.method = .kInvalid ∧ ∃ c', Parses t c (bs ++ xs) (.ok (c', bs ++ xs, false)) ∧ c'.Refused (bs ++ xs)) ∨
      (c.request.method ≠ .kInvalid ∧ Parses t c (bs ++ xs) (.error .setMethod)) := by
  obtain ⟨hs, n, hn, hm⟩ := h
  have hn' := Buffer.searchCRLF_append xs hn
  have hle := Buffer.searchCRLF_length hn
  have htake : (bs ++ xs).take n = bs.take n := List.take_append_of_le_length (by omega)
  by_cases hi : c.request.method = .kInvalid
  · left
    refine ⟨hi, ?_⟩
    obtain ⟨r, ok, hp, hr, hf⟩ := processRequestLine_method (l := bs.take n) hi
    obtain rfl := hf (hm.symm.trans hi)
    have hl : c.line t ((bs ++ xs).take n) = .ok (⟨.kExpectRequestLine, r⟩, false) := by
      rw [htake]
      simp only [line, hs, hp, ok_bind]
      rfl
    exact ⟨_, .reject hn' hl, rfl, n, hn', by rw [htake]; exact hr⟩
  · right
    refine ⟨hi, .stop hn' ?_⟩
    have hp := processRequestLine_asserts hi (hm ▸ hi)
    rw [htake]
    simp only [line, hs, hp, error_bind]

namespace HttpConnection

/-- A bad request was answered, and its line starts with a known method. -/
def refusedMethod (c : HttpConnection) : Bool :=
  .sendPiece badRequest ∈ c.replies &&
    requestMethod (c.inputBuffer.readable.take (c.inputBuffer.findCRLF.getD 0)) ≠ .kInvalid

structure Guarded (c : HttpConnection) (chunks : List Chunk) : Prop where
  ready : ∃ n, c.Ready n ∧ Buffer.kCheapPrepend + n + (chunks.flatMap (·.data)).length ≤ Buffer.maxSize
  clean : .sendPiece badRequest ∉ c.replies → c.context.Clean
  refused : .sendPiece badRequest ∈ c.replies → c.context.Refused c.inputBuffer.readable

variable {c : HttpConnection} {httpCallback : HttpCallback} {chunk : Chunk} {chunks : List Chunk}

theorem Guarded.refusedMethod_iff (h : c.Guarded chunks) :
    c.refusedMethod = true ↔ .sendPiece badRequest ∈ c.replies ∧ c.context.request.method ≠ .kInvalid := by
  unfold refusedMethod
  rw [Bool.and_eq_true, decide_eq_true_eq, decide_eq_true_eq]
  refine and_congr_right fun hb => ?_
  obtain ⟨-, n, hn, hm⟩ := h.refused hb
  rw [show c.inputBuffer.findCRLF = some n from hn, Option.getD_some, hm]

theorem Guarded.handles (h : c.Guarded (chunk :: chunks)) (httpCallback : HttpCallback) :
    c.Handles chunk.receiveTime (c.inputBuffer.readable ++ chunk.data) (step httpCallback c chunk) ∧
      ∀ c', HttpConnection.step httpCallback c chunk = .ok c' →
        ∃ m, c'.Ready m ∧ Buffer.kCheapPrepend + m + (chunks.flatMap (·.data)).length ≤ Buffer.maxSize := by
  obtain ⟨n, hn, hsize⟩ := h.ready
  rw [List.flatMap_cons, List.length_append] at hsize
  have hfit : Buffer.kCheapPrepend + n + chunk.data.length ≤ Buffer.maxSize := by omega
  obtain ⟨hh, hready⟩ := hn.step httpCallback hfit
  exact ⟨hh, fun c' hs => ⟨_, hready c' hs, by omega⟩⟩

theorem Guarded.of_reject {c' : HttpConnection}
    (hn : ∃ n, c'.Ready n ∧ Buffer.kCheapPrepend + n + (chunks.flatMap (·.data)).length ≤ Buffer.maxSize)
    (hr : c'.replies = c.replies ++ [.sendPiece badRequest, .shutdown])
    (hx : c'.context.Refused c'.inputBuffer.readable) : c'.Guarded chunks := by
  refine ⟨hn, fun hnot => ?_, fun _ => hx⟩
  rw [hr] at hnot
  simp at hnot

-- the parser meets the refused line again
theorem Guarded.step_refused (h : c.Guarded (chunk :: chunks)) (hb : .sendPiece badRequest ∈ c.replies)
    (hi : c.context.request.method = .kInvalid) :
    ∃ c', step httpCallback c chunk = .ok c' ∧ c'.Guarded chunks := by
  obtain ⟨hh, hnext⟩ := h.handles httpCallback
  rcases (h.refused hb).parses chunk.data chunk.receiveTime with ⟨-, x, hp, hx⟩ | ⟨hne, -⟩
  · generalize HttpConnection.step httpCallback c chunk = r at hh hnext
    cases hh with
    | stop hp' => exact absurd (hp.unique hp') (by simp)
    | wait hp' hs hq hr => exact absurd (hp.unique hp') (by simp)
    | request hp' hs hx' hq hr hn => exact absurd (hp.unique hp') (by simp)
    | @reject c' hp' hq hr =>
      have he := hp.unique hp'
      simp only [Except.ok.injEq, Prod.mk.injEq, and_true] at he
      refine ⟨c', rfl, .of_reject (hnext c' rfl) hr ?_⟩
      rw [← he.1, ← he.2]; exact hx
  · exact absurd hi hne

theorem Guarded.step_clean (h : c.Guarded (chunk :: chunks)) (hb : .sendPiece badRequest ∉ c.replies) :
    ∃ c', step httpCallback c chunk = .ok c' ∧ c'.Guarded chunks := by
  obtain ⟨hh, hnext⟩ := h.handles httpCallback
  generalize HttpConnection.step httpCallback c chunk = r at hh hnext
  cases hh with
  | stop hp =>
    obtain ⟨c', bs', ok, he, -⟩ := hp.clean (h.clean hb)
    cases he
  | @wait c' hp hs hq hr =>
    obtain ⟨x, bs', ok, he, hclean, -⟩ := hp.clean (h.clean hb)
    cases he
    rw [← hr] at hb
    exact ⟨c', rfl, hnext c' rfl, fun _ => hclean rfl, fun hb' => absurd hb' hb⟩
  | @reject c' hp hq hr =>
    obtain ⟨x, bs', ok, he, -, href⟩ := hp.clean (h.clean hb)
    cases he
    exact ⟨c', rfl, .of_reject (hnext c' rfl) hr (href rfl)⟩
  | @request x c' rs hp hs hx hq hr hn =>
    have hb' : .sendPiece badRequest ∉ c'.replies := by
      rw [hr, List.mem_append, not_or]
      exact ⟨hb, hn _⟩
    exact ⟨c', rfl, hnext c' rfl, fun _ _ => by rw [hx], fun h => absurd h hb'⟩

theorem Guarded.step (h : c.Guarded (chunk :: chunks)) (hc : c.refusedMethod = false) :
    ∃ c', step httpCallback c chunk = .ok c' ∧ c'.Guarded chunks := by
  by_cases hb : .sendPiece badRequest ∈ c.replies
  · refine h.step_refused hb ?_
    by_contra hi
    rw [h.refusedMethod_iff.mpr ⟨hb, hi⟩] at hc
    cases hc
  · exact h.step_clean hb

theorem Guarded.asserts (h : c.Guarded (chunk :: chunks)) (hc : c.refusedMethod ≠ false) :
    HttpConnection.step httpCallback c chunk = .error .setMethod := by
  rw [ne_eq, Bool.not_eq_false, h.refusedMethod_iff] at hc
  have hh := (h.handles httpCallback).1
  rcases (h.refused hc.1).parses chunk.data chunk.receiveTime with ⟨hi, -⟩ | ⟨-, hp⟩
  · exact absurd hi hc.2
  · generalize HttpConnection.step httpCallback c chunk = r at hh
    cases hh with
    | stop hp' => cases hp.unique hp'; rfl
    | wait hp' hs hq hr => cases hp.unique hp'
    | reject hp' hq hr => cases hp.unique hp'
    | request hp' hs hx hq hr hn => cases hp.unique hp'

end HttpConnection

open HttpConnection

/-- For every sequence of chunks that fits into memory, the assertion of `setMethod` is the only
thing that can stop the server, and it fails exactly when bytes arrive after the server has
answered 400 to a request line that starts with a known method and a space. -/
theorem malformed_input_asserts_only_after_method (httpCallback : HttpCallback) (chunks : List Chunk)
    (hsize : (chunks.flatMap (·.data)).length < 2 ^ 62) :
    ∃ c₀, onConnection = .ok c₀ ∧
      (run (step httpCallback) c₀ chunks ≠ .error .setMethod ↔
        Meets (step httpCallback) (fun c _ => c.refusedMethod = false) c₀ chunks) ∧
      ∀ f, run (step httpCallback) c₀ chunks = .error f → f = .setMethod := by
  obtain ⟨c₀, hc₀, hready, hx, hbuf, hq, hr⟩ := onConnection_ready
  have hg : c₀.Guarded chunks := by
    refine ⟨⟨0, hready, ?_⟩, fun _ _ => by rw [hx], fun hb => ?_⟩
    · unfold Buffer.kCheapPrepend Buffer.maxSize
      omega
    · rw [hr] at hb; cases hb
  refine ⟨c₀, hc₀, ?_⟩
  rcases run_iff_meets (C := fun c _ => c.refusedMethod = false) (fun _ _ _ h hc => h.step hc)
    (fun _ _ _ h hc => h.asserts hc) hg with ⟨hm, c, hok, -⟩ | ⟨hm, herr⟩
  · rw [hok]
    exact ⟨⟨fun _ => hm, by simp⟩, by simp⟩
  · rw [herr]
    exact ⟨⟨fun h => absurd rfl h, fun h => absurd h hm⟩, fun f hf => by cases hf; rfl⟩

theorem malformed_input_asserts_only_after_method_unknown :
    ∃ c₀, onConnection = .ok c₀ ∧
      run (step defaultHttpCallback) c₀ [⟨ascii "PATCH / HTTP/1.1\r\n", 0⟩, ⟨ascii "Host: a\r\n", 1⟩] ≠
        .error .setMethod := by
  obtain ⟨c₀, hc₀, hiff, -⟩ := malformed_input_asserts_only_after_method defaultHttpCallback
    [⟨ascii "PATCH / HTTP/1.1\r\n", 0⟩, ⟨ascii "Host: a\r\n", 1⟩] (by decide +kernel)
  refine ⟨c₀, hc₀, hiff.mpr ?_⟩
  obtain ⟨c, hc, hm⟩ := ok_of_map (show onConnection.map (fun c => decide (Meets (step defaultHttpCallback)
    (fun c _ => c.refusedMethod = false) c [⟨ascii "PATCH / HTTP/1.1\r\n", 0⟩, ⟨ascii "Host: a\r\n", 1⟩])) = .ok true
      by decide +kernel)
  rw [hc₀] at hc; cases hc
  exact of_decide_eq_true hm

/-- A request line with an unknown version, and one more chunk. -/
theorem rejected_line_asserts_on_next_chunk :
    ∃ c₀, onConnection = .ok c₀ ∧
      run (step defaultHttpCallback) c₀ [⟨ascii "GET / HTTP/1.2\r\n", 0⟩, ⟨ascii "Host: a\r\n", 1⟩] =
        .error .setMethod := by
  obtain ⟨c, hc, he⟩ := ok_of_map (show onConnection.map (fun c => (run (step defaultHttpCallback) c
    [⟨ascii "GET / HTTP/1.2\r\n", 0⟩, ⟨ascii "Host: a\r\n", 1⟩]).map (·.requests)) = .ok (.error .setMethod)
      by decide +kernel)
  exact ⟨c, hc, error_of_map he⟩

end Zhengqi
