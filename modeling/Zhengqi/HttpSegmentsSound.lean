import Zhengqi.HttpRejectSound
import Zhengqi.HttpText

/-!
# Requests in pieces

The parser can be stopped and taken up again: what it makes of the bytes does not depend on
the chunks they come in. A settled answer is not changed by more bytes (`Parses.extend`), an
open one is taken up where it was left (`Parses.resume`), and the times of the chunks are
seen in `receiveTime_` only (`Parses.untimed`).
-/

namespace Zhengqi

open Run HttpConnection

/-- The chunks are appended one by one, with a call of the parser after each, until the bytes
are rejected or a request is complete. The chunks that are left are not fed. -/
def HttpContext.feed : HttpContext → Buffer → List Chunk → Except Fault (ParseLoop × List Chunk)
  | c, buf, [] => pure ({ context := c, buf }, [])
  | c, buf, chunk :: chunks => do
    let buf ← buf.append chunk.data
    let l ← c.parseRequest buf chunk.receiveTime
    if l.ok = true ∧ l.context.gotAll = false then feed l.context l.buf chunks else pure (l, chunks)

/-! ## Times -/

def HttpContext.untimed (c : HttpContext) : HttpContext := { c with request := c.request.untimed }

theorem HttpContext.processRequestLine_untimed (r : HttpRequest) (l : Bytes) :
    processRequestLine r.untimed l = (processRequestLine r l).map fun x => (x.1.untimed, x.2) := by
  have ht : ∀ r target, setTarget (HttpRequest.untimed r) target = (setTarget r target).untimed := by
    intro r target
    unfold setTarget
    dsimp only
    split <;> rfl
  have hm : ∀ m, { HttpRequest.untimed r with method := m } = HttpRequest.untimed { r with method := m } := fun _ => rfl
  unfold processRequestLine HttpRequest.setMethod
  by_cases hr : r.method = .kInvalid
  · simp only [show r.untimed.method = .kInvalid from hr, hr, check_of, ok_bind, pure_eq_ok, hm, ht]
    split
    · split
      · split
        · split
          · split
            · rfl
            · split <;> rfl
          · rfl
        · rfl
      · rfl
    · rfl
  · have hf : ∀ {α} (f : Unit → Except Fault α), (check (r.untimed.method = .kInvalid) .setMethod >>= f) =
        .error .setMethod := by
      intro α f
      simp [show r.untimed.method ≠ .kInvalid from hr]
    simp only [hf, hr, error_bind]
    split <;> rfl

theorem HttpContext.line_untimed (c : HttpContext) (t : Timestamp) (l : Bytes) :
    c.untimed.line 0 l = (c.line t l).map fun x => (x.1.untimed, x.2) := by
  unfold line
  rw [show c.untimed.state = c.state from rfl]
  cases c.state with
  | kExpectRequestLine =>
    dsimp only
    rw [show c.untimed.request = c.request.untimed from rfl, processRequestLine_untimed]
    cases processRequestLine c.request l with
    | error f => rfl
    | ok x =>
      obtain ⟨r, ok⟩ := x
      cases ok <;> rfl
  | kExpectHeaders =>
    dsimp only
    by_cases hl : l.idxOf (chr ':') = l.length
    · rw [if_neg (not_not.mpr hl), if_neg (not_not.mpr hl)]
      rfl
    · rw [if_pos hl, if_pos hl]
      rfl
  | kExpectBody => rfl
  | kGotAll => rfl

theorem Parses.untimed {t : Timestamp} {c : HttpContext} {bs : Bytes} {r : Except Fault (HttpContext × Bytes × Bool)}
    (h : Parses t c bs r) : Parses 0 c.untimed bs (r.map fun x => (x.1.untimed, x.2)) := by
  have hline : ∀ {c l x}, HttpContext.line c t l = x → c.untimed.line 0 l = x.map fun x => (x.1.untimed, x.2) := by
    rintro c l x rfl
    exact c.line_untimed t l
  induction h with
  | wait h => exact .wait h
  | stop h hl => exact .stop h (hline hl)
  | reject h hl => exact .reject h (hline hl)
  | got h hl hg => exact .got h (hline hl) hg
  | more h hl hg hp ih => exact .more h (hline hl) hg ih

/-! ## More bytes -/

section
variable {t : Timestamp} {c c' : HttpContext} {bs rest : Bytes} {r : Except Fault (HttpContext × Bytes × Bool)}

/-- A line that has come whole is the same line when more bytes come. -/
theorem searchCRLF_more {n : Nat} (h : Buffer.searchCRLF bs = some n) (xs : Bytes) :
    Buffer.searchCRLF (bs ++ xs) = some n ∧ (bs ++ xs).take n = bs.take n ∧
      (bs ++ xs).drop (n + 2) = bs.drop (n + 2) ++ xs := by
  have hle := Buffer.searchCRLF_length h
  exact ⟨Buffer.searchCRLF_append xs h, List.take_append_of_le_length (by omega), List.drop_append_of_le_length hle⟩

/-- A rejection and a complete request stay what they are. -/
theorem Parses.extend {ok : Bool} (h : Parses t c bs r) (hc : c.state ≠ .kGotAll) (hr : r = .ok (c', rest, ok))
    (hd : ok = false ∨ c'.state = .kGotAll) (xs : Bytes) : Parses t c (bs ++ xs) (.ok (c', rest ++ xs, ok)) := by
  induction h with
  | wait h =>
    cases hr
    exact absurd (hd.resolve_left (by simp)) hc
  | stop h hl => cases hr
  | reject h hl =>
    cases hr
    obtain ⟨h', ht, -⟩ := searchCRLF_more h xs
    exact .reject h' (ht ▸ hl)
  | got h hl hg =>
    cases hr
    obtain ⟨h', ht, hdrop⟩ := searchCRLF_more h xs
    rw [← hdrop]
    exact .got h' (ht ▸ hl) hg
  | more h hl hg hp ih =>
    obtain ⟨h', ht, hdrop⟩ := searchCRLF_more h xs
    refine .more h' (ht ▸ hl) hg ?_
    rw [hdrop]
    exact ih hg hr

/-- A parser that waits goes on where it was left. -/
theorem Parses.resume {r' : Except Fault (HttpContext × Bytes × Bool)} {xs : Bytes} (h : Parses t c bs r)
    (hr : r = .ok (c', rest, true)) (hs : c'.state ≠ .kGotAll) (h' : Parses t c' (rest ++ xs) r') :
    Parses t c (bs ++ xs) r' := by
  induction h with
  | wait h =>
    cases hr
    exact h'
  | stop h hl => cases hr
  | reject h hl => cases hr
  | got h hl hg =>
    cases hr
    exact absurd hg hs
  | more h hl hg hp ih =>
    obtain ⟨h₁, ht, hdrop⟩ := searchCRLF_more h xs
    refine .more h₁ (ht ▸ hl) hg ?_
    rw [hdrop]
    exact ih hr

theorem Parses.no_line (h : Parses t c bs r) (hr : r = .ok (c', rest, true)) (hs : c'.state ≠ .kGotAll) :
    Buffer.searchCRLF rest = none := by
  induction h with
  | wait h =>
    cases hr
    exact h
  | stop h hl => cases hr
  | reject h hl => cases hr
  | got h hl hg =>
    cases hr
    exact absurd hg hs
  | more h hl hg hp ih => exact ih hr

end

/-! ## Chunks -/

theorem HttpContext.expects_ne {c : HttpContext} (hc : c.expects = true) : c.state ≠ .kGotAll := by
  intro hg
  simp [expects, hg] at hc

/-- One call of the parser, from a context in which no method is set before its line. -/
theorem HttpContext.Clean.parseRequest {c : HttpContext} {buf : Buffer} {n : Nat} (hc : c.Clean) (he : c.expects = true)
    (hb : buf.Within n) (t : Timestamp) :
    ∃ l, c.parseRequest buf t = .ok l ∧
      Parses 0 c.untimed buf.readable (.ok (l.context.untimed, l.buf.readable, l.ok)) ∧ l.buf.Within n ∧
      (l.ok = true → l.context.Clean) ∧ (l.context.expects = true ∨ l.context.state = .kGotAll ∧ l.ok = true) := by
  rcases parseRequest_parses he hb t with ⟨f, hp, -⟩ | ⟨l, hp, hl, hw, hx⟩
  · obtain ⟨_, _, _, hr, -⟩ := hp.clean hc
    cases hr
  · obtain ⟨_, _, _, hr, hclean, -⟩ := hp.clean hc
    cases hr
    exact ⟨l, hl, hp.untimed, hw, hclean, hx⟩

theorem HttpContext.feed_parses : ∀ (chunks : List Chunk) {c : HttpContext} {buf : Buffer} {n : Nat}, c.Clean →
    c.expects = true → buf.Within n → Buffer.searchCRLF buf.readable = none →
    Buffer.kCheapPrepend + n + (chunks.flatMap (·.data)).length ≤ Buffer.maxSize →
    ∃ l left, c.feed buf chunks = .ok (l, left) ∧ Parses 0 c.untimed (buf.readable ++ chunks.flatMap (·.data))
      (.ok (l.context.untimed, l.buf.readable ++ left.flatMap (·.data), l.ok))
  | [], c, buf, n, _, _, _, hnone, _ => by
    refine ⟨{ context := c, buf }, [], rfl, ?_⟩
    simp only [List.flatMap_nil, List.append_nil]
    exact .wait hnone
  | chunk :: chunks, c, buf, n, hc, he, hb, _, hn => by
    rw [List.flatMap_cons, List.length_append] at hn
    obtain ⟨buf', hbuf', hw, hr⟩ := hb.append chunk.data (by omega)
    obtain ⟨l, hl, hp, hw', hclean, hx⟩ := hc.parseRequest he hw chunk.receiveTime
    rw [feed, hbuf', ok_bind, hl, ok_bind, List.flatMap_cons, ← List.append_assoc, ← hr]
    by_cases hgo : l.ok = true ∧ l.context.gotAll = false
    · -- the next chunk is appended to what the parser has left
      have hs : l.context.state ≠ .kGotAll := by simpa [gotAll] using hgo.2
      have he' : l.context.expects = true := hx.resolve_right fun hg => hs hg.1
      rw [hgo.1] at hp
      obtain ⟨l', left, hfeed, hp'⟩ := feed_parses chunks (hclean hgo.1) he' hw' (hp.no_line rfl hs) (by omega)
      rw [if_pos hgo]
      exact ⟨l', left, hfeed, hp.resume rfl hs hp'⟩
    · rw [if_neg hgo]
      refine ⟨l, chunks, rfl, hp.extend (expects_ne he) rfl ?_ _⟩
      by_cases hok : l.ok = false
      · exact .inl hok
      · right
        simpa [hok, gotAll, untimed] using hgo

/-- However a byte string is cut into chunks, the parser comes to the same outcome, state,
request and unread bytes as with all of it at once. -/
theorem parse_independent_of_chunks (s : Bytes) (chunks : List Chunk) (hcut : chunks.flatMap (·.data) = s)
    (hfits : Buffer.kCheapPrepend + s.length ≤ Buffer.maxSize) (t : Timestamp) :
    ∃ buf whole l left l', Buffer.ctor Buffer.kInitialSize = .ok buf ∧
      HttpContext.feed {} buf chunks = .ok (l, left) ∧
      buf.append s = .ok whole ∧ HttpContext.parseRequest {} whole t = .ok l' ∧
      l.ok = l'.ok ∧ l.context.state = l'.context.state ∧ l.context.request.untimed = l'.context.request.untimed ∧
      l.buf.readable ++ left.flatMap (·.data) = l'.buf.readable := by
  obtain ⟨buf, hbuf, hw, hr⟩ := ctor_within
  have hclean : HttpContext.Clean {} := fun _ => rfl
  obtain ⟨whole, hwhole, hww, hwr⟩ := hw.append s (by omega)
  obtain ⟨l, left, hfeed, hp⟩ := HttpContext.feed_parses chunks hclean rfl hw (by rw [hr]; rfl)
    (by rw [hcut]; omega)
  obtain ⟨l', hl', hp', -⟩ := hclean.parseRequest rfl hww t
  rw [hcut, ← hwr] at hp
  have heq := Except.ok.inj (hp.unique hp')
  simp only [Prod.mk.injEq, HttpContext.untimed, HttpContext.mk.injEq] at heq
  obtain ⟨⟨hstate, hreq⟩, hrest, hok⟩ := heq
  exact ⟨buf, whole, l, left, l', hbuf, hfeed, hwhole, hl', hok, hstate, hreq, hrest⟩

/-- A request cut within a CR LF, with a byte that comes after it. -/
theorem parse_independent_of_chunks_three :
    ∃ buf whole l left l', Buffer.ctor Buffer.kInitialSize = .ok buf ∧
      HttpContext.feed {} buf [⟨ascii "GET /a HTTP/1.1\r", 1⟩, ⟨ascii "\nHost: b\r\n\r\n", 2⟩, ⟨ascii "x", 3⟩] =
        .ok (l, left) ∧
      buf.append (ascii "GET /a HTTP/1.1\r\nHost: b\r\n\r\nx") = .ok whole ∧
      HttpContext.parseRequest {} whole 4 = .ok l' ∧ l.ok = l'.ok ∧ l.context.state = l'.context.state ∧
      l.context.request.untimed = l'.context.request.untimed ∧ l.buf.readable ++ left.flatMap (·.data) =
        l'.buf.readable :=
  parse_independent_of_chunks _ _ (by decide +kernel) (by decide +kernel) _

end Zhengqi
