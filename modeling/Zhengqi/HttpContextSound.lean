import Zhengqi.BufferSound
import Zhengqi.HttpContext

/-!
# What the parser does to the bytes

`parseRequest` takes lines off the front of the buffer, one `HttpContext.line` after
the other, until no CR LF is left, a request line is rejected, or the header section
has ended. `Parses` is that account over byte strings, and `parseRequest_parses` says
that the loop over the buffer follows it and ends.
-/

namespace Zhengqi

open Run

/-! ## Lines -/

namespace Buffer

theorem searchCRLF_length : ∀ {bs : Bytes} {n : Nat}, searchCRLF bs = some n → n + 2 ≤ bs.length
  | [], n, h => by cases h
  | c :: bs, n, h => by
    unfold searchCRLF at h
    split at h
    · rename_i hp
      cases h
      have := (List.isPrefixOf_iff_prefix.mp hp).length_le
      simpa [kCRLF] using this
    · obtain ⟨m, hm, rfl⟩ := Option.map_eq_some_iff.mp h
      have := searchCRLF_length hm
      simp only [List.length_cons]
      omega

theorem searchCRLF_append (xs : Bytes) :
    ∀ {bs : Bytes} {n : Nat}, searchCRLF bs = some n → searchCRLF (bs ++ xs) = some n
  | [], n, h => by cases h
  | c :: bs, n, h => by
    unfold searchCRLF at h
    rw [List.cons_append]
    unfold searchCRLF
    split at h
    · rename_i hp
      cases h
      have hp' : kCRLF.isPrefixOf (c :: (bs ++ xs)) = true := by
        rw [List.isPrefixOf_iff_prefix] at hp ⊢
        exact hp.trans ⟨xs, rfl⟩
      rw [if_pos hp']
    · rename_i hp
      obtain ⟨m, hm, rfl⟩ := Option.map_eq_some_iff.mp h
      -- a CR LF that starts here would start in the part that is known
      have hp' : ¬ kCRLF.isPrefixOf (c :: (bs ++ xs)) = true := by
        intro hc
        have := searchCRLF_length hm
        rw [List.isPrefixOf_iff_prefix] at hc hp
        refine hp (List.prefix_of_prefix_length_le hc ⟨xs, rfl⟩ ?_)
        simp only [kCRLF, List.length_cons, List.length_nil]
        omega
      rw [if_neg hp', searchCRLF_append xs hm]
      rfl

theorem searchCRLF_line {rest : Bytes} :
    ∀ {line : Bytes}, 13 ∉ line → searchCRLF (line ++ kCRLF ++ rest) = some line.length
  | [], _ => by simp [searchCRLF, kCRLF]
  | c :: line, h => by
    rw [List.mem_cons, not_or] at h
    have hc : ¬ kCRLF.isPrefixOf (c :: (line ++ kCRLF ++ rest)) = true := by
      simp [kCRLF, List.isPrefixOf, h.1]
    rw [List.cons_append, List.cons_append, searchCRLF, if_neg hc, searchCRLF_line h.2]
    rfl

theorem searchCRLF_part : ∀ {line : Bytes}, 13 ∉ line → searchCRLF line = none ∧ searchCRLF (line ++ [13]) = none
  | [], _ => by simp [searchCRLF, kCRLF, List.isPrefixOf]
  | c :: line, h => by
    rw [List.mem_cons, not_or] at h
    have hc : ∀ xs, ¬ kCRLF.isPrefixOf (c :: xs) = true := by
      intro xs
      simp [kCRLF, List.isPrefixOf, h.1]
    obtain ⟨h₁, h₂⟩ := searchCRLF_part h.2
    rw [List.cons_append, searchCRLF, searchCRLF, if_neg (hc _), if_neg (hc _), h₁, h₂]
    exact ⟨rfl, rfl⟩

theorem searchCRLF_of_prefix {line bs rest : Bytes} (h : 13 ∉ line) (hp : bs ++ rest = line ++ kCRLF)
    (hr : rest ≠ []) : searchCRLF bs = none := by
  obtain ⟨h₁, h₂⟩ := searchCRLF_part h
  have hl : bs.length ≤ line.length + 1 := by
    have := congrArg List.length hp
    have := List.length_pos_iff.mpr hr
    simp only [List.length_append, kCRLF, List.length_cons, List.length_nil] at *
    omega
  have hbs : bs = (line ++ [13]).take bs.length := by
    have : bs = (line ++ kCRLF).take bs.length := by rw [← hp, List.take_left]
    rw [this, show line ++ kCRLF = line ++ [13] ++ [10] by simp [kCRLF],
      List.take_append_of_le_length (by simpa using hl)]
    simp
  by_cases hle : bs.length ≤ line.length
  · rw [List.take_append_of_le_length hle] at hbs
    rw [hbs]
    exact (searchCRLF_part fun hm => h (List.mem_of_mem_take hm)).1
  · have : bs.length = (line ++ [13]).length := by simp; omega
    rw [hbs, this, List.take_length]
    exact h₂

end Buffer

/-! ## One line -/

namespace HttpContext

def expects (c : HttpContext) : Bool := c.state = .kExpectRequestLine || c.state = .kExpectHeaders

/-- What a whole line does to the context, and whether it is accepted. -/
def line (c : HttpContext) (receiveTime : Timestamp) (line : Bytes) : Except Fault (HttpContext × Bool) :=
  match c.state with
  | .kExpectRequestLine => do
    let (r, ok) ← processRequestLine c.request line
    pure (if ok then ⟨.kExpectHeaders, { r with receiveTime }⟩ else { c with request := r }, ok)
  | .kExpectHeaders =>
    let colon := line.idxOf (chr ':')
    pure (if colon ≠ line.length then { c with request := c.request.addHeader line colon }
      else { c with state := .kGotAll }, true)
  | .kExpectBody | .kGotAll => pure (c, true)

theorem line_expects {c c' : HttpContext} {t : Timestamp} {l : Bytes} {ok : Bool} (hc : c.expects = true)
    (h : c.line t l = .ok (c', ok)) : c'.expects = true ∨ c'.state = .kGotAll ∧ ok = true := by
  unfold line at h
  cases hs : c.state with
  | kExpectRequestLine =>
    rw [hs] at h
    obtain ⟨⟨r, b⟩, -, h⟩ := bind_ok.mp h
    cases h
    left
    cases ok <;> simp [expects]
  | kExpectHeaders =>
    rw [hs] at h
    cases h
    by_cases hl : l.idxOf (chr ':') = l.length
    · simp [hl]
    · simp [hl, expects]
  | kExpectBody => simp [expects, hs] at hc
  | kGotAll => simp [expects, hs] at hc

end HttpContext

/-! ## The loop -/

/-- What the parser makes of the unread bytes: the context, the bytes it leaves and whether
they are acceptable, or the assertion that fails. -/
inductive Parses (t : Timestamp) : HttpContext → Bytes → Except Fault (HttpContext × Bytes × Bool) → Prop
  | wait {c : HttpContext} {bs : Bytes} (h : Buffer.searchCRLF bs = none) : Parses t c bs (.ok (c, bs, true))
  | stop {c : HttpContext} {bs : Bytes} {n : Nat} {f : Fault} (h : Buffer.searchCRLF bs = some n)
      (hl : c.line t (bs.take n) = .error f) : Parses t c bs (.error f)
  | reject {c c' : HttpContext} {bs : Bytes} {n : Nat} (h : Buffer.searchCRLF bs = some n)
      (hl : c.line t (bs.take n) = .ok (c', false)) : Parses t c bs (.ok (c', bs, false))
  | got {c c' : HttpContext} {bs : Bytes} {n : Nat} (h : Buffer.searchCRLF bs = some n)
      (hl : c.line t (bs.take n) = .ok (c', true)) (hg : c'.state = .kGotAll) :
      Parses t c bs (.ok (c', bs.drop (n + 2), true))
  | more {c c' : HttpContext} {bs : Bytes} {n : Nat} {r : Except Fault (HttpContext × Bytes × Bool)}
      (h : Buffer.searchCRLF bs = some n) (hl : c.line t (bs.take n) = .ok (c', true))
      (hg : c'.state ≠ .kGotAll) (hp : Parses t c' (bs.drop (n + 2)) r) : Parses t c bs r

theorem Parses.unique {t : Timestamp} {c : HttpContext} {bs : Bytes} {r r' : Except Fault (HttpContext × Bytes × Bool)}
    (h : Parses t c bs r) (h' : Parses t c bs r') : r = r' := by
  induction h generalizing r' with
  | wait h => cases h' <;> simp_all
  | stop h hl => cases h' <;> simp_all
  | reject h hl => cases h' <;> simp_all
  | got h hl hg => cases h' <;> simp_all
  | more h hl hg hp ih =>
    cases h' with
    | more h₂ hl₂ hg₂ hp₂ =>
      rw [h] at h₂; cases h₂
      rw [hl] at hl₂; cases hl₂
      exact ih hp₂
    | _ => simp_all

namespace ParseLoop

def next (c : HttpContext) (buf : Buffer) (ok : Bool) : ParseLoop :=
  { context := c, buf, ok, hasMore := ok && c.state ≠ .kGotAll }

variable {l : ParseLoop} {t : Timestamp}

theorem step_wait (hc : l.context.expects = true) (h : l.buf.findCRLF = none) :
    l.step t = .ok { l with hasMore := false } := by
  unfold step
  cases hs : l.context.state with
  | kExpectRequestLine => simp [h]
  | kExpectHeaders => simp [h]
  | kExpectBody => simp [HttpContext.expects, hs] at hc
  | kGotAll => simp [HttpContext.expects, hs] at hc

theorem step_stop {n : Nat} {f : Fault} (h : l.buf.findCRLF = some n)
    (hl : l.context.line t (l.buf.readable.take n) = .error f) : l.step t = .error f := by
  unfold step
  unfold HttpContext.line at hl
  cases hs : l.context.state with
  | kExpectRequestLine =>
    rw [hs] at hl
    rcases bind_error.mp hl with hl | ⟨⟨r, ok⟩, -, hl⟩
    · simp only [h, hl, error_bind]
    · cases hl
  | kExpectHeaders => rw [hs] at hl; cases hl
  | kExpectBody => rw [hs] at hl; cases hl
  | kGotAll => rw [hs] at hl; cases hl

theorem step_reject {c : HttpContext} {n : Nat} (hc : l.context.expects = true) (h : l.buf.findCRLF = some n)
    (hl : l.context.line t (l.buf.readable.take n) = .ok (c, false)) :
    l.step t = .ok (next c l.buf false) := by
  unfold step
  unfold HttpContext.line at hl
  cases hs : l.context.state with
  | kExpectRequestLine =>
    rw [hs] at hl
    obtain ⟨⟨r, ok⟩, hp, hl⟩ := bind_ok.mp hl
    cases hl
    simp only [h, hp, ok_bind, Bool.false_eq_true, if_false, pure_eq_ok, next, Bool.false_and, hs]
  | kExpectHeaders => rw [hs] at hl; cases hl
  | kExpectBody => simp [HttpContext.expects, hs] at hc
  | kGotAll => simp [HttpContext.expects, hs] at hc

theorem step_line {c : HttpContext} {n k : Nat} (hc : l.context.expects = true) (hok : l.ok = true)
    (hm : l.hasMore = true) (hb : l.buf.Within k) (h : l.buf.findCRLF = some n)
    (hl : l.context.line t (l.buf.readable.take n) = .ok (c, true)) :
    ∃ buf, l.step t = .ok (next c buf true) ∧ buf.Within k ∧ buf.readable = l.buf.readable.drop (n + 2) := by
  obtain ⟨buf, hbuf, hw, hr⟩ := hb.retrieveUntil (Buffer.searchCRLF_length h)
  rw [← Nat.add_assoc] at hbuf
  refine ⟨buf, ?_, hw, hr⟩
  unfold step
  unfold HttpContext.line at hl
  cases hs : l.context.state with
  | kExpectRequestLine =>
    rw [hs] at hl
    obtain ⟨⟨r, ok⟩, hp, hl⟩ := bind_ok.mp hl
    cases hl
    simp only [h, hp, ok_bind, hbuf, if_true, pure_eq_ok, next, hm]
    rfl
  | kExpectHeaders =>
    rw [hs] at hl
    cases hl
    by_cases hcolon : (l.buf.readable.take n).idxOf (chr ':') = (l.buf.readable.take n).length
    · simp only [h, hcolon, ne_eq, not_true_eq_false, if_false, hbuf, ok_bind, pure_eq_ok, next, hok]
      rfl
    · simp only [h, hcolon, ne_eq, not_false_eq_true, if_true, hbuf, ok_bind, pure_eq_ok, next, hok, hs, hm]
      rfl
  | kExpectBody => simp [HttpContext.expects, hs] at hc
  | kGotAll => simp [HttpContext.expects, hs] at hc

/-- A round that goes on has taken at least two bytes, so the loop ends within as many
rounds as there are unread bytes, and one more. -/
theorem loop_parses {k : Nat} : ∀ (n : Nat) (l : ParseLoop), l.context.expects = true → l.ok = true →
    l.hasMore = true → l.buf.Within k → l.buf.readable.length < n →
    (∃ f, Parses t l.context l.buf.readable (.error f) ∧ loop t n l = .error f) ∨
      ∃ l', Parses t l.context l.buf.readable (.ok (l'.context, l'.buf.readable, l'.ok)) ∧
        loop t n l = .ok l' ∧ l'.buf.Within k ∧ (l'.context.expects = true ∨ l'.context.state = .kGotAll ∧ l'.ok = true)
  | 0, l, _, _, _, _, hn => by cases hn
  | n + 1, l, hc, hok, hm, hb, hn => by
    unfold loop
    cases hf : l.buf.findCRLF with
    | none =>
      right
      refine ⟨{ l with hasMore := false }, ?_, ?_, hb, .inl hc⟩
      · simp only [hok]; exact .wait hf
      · rw [step_wait hc hf]; rfl
    | some i =>
      have hlen := Buffer.searchCRLF_length hf
      cases hl : l.context.line t (l.buf.readable.take i) with
      | error f =>
        left
        exact ⟨f, .stop hf hl, by rw [step_stop hf hl]; rfl⟩
      | ok r =>
        obtain ⟨c, ok⟩ := r
        cases ok with
        | false =>
          right
          refine ⟨next c l.buf false, .reject hf hl, by rw [step_reject hc hf hl]; rfl, hb, ?_⟩
          rcases HttpContext.line_expects hc hl with he | ⟨-, he⟩
          · exact .inl he
          · cases he
        | true =>
          obtain ⟨buf, hstep, hb', hr⟩ := step_line hc hok hm hb hf hl
          rw [hstep, ok_bind]
          by_cases hg : c.state = .kGotAll
          · right
            refine ⟨next c buf true, ?_, by simp [next, hg], hb', .inr ⟨hg, rfl⟩⟩
            simp only [next, hr]
            exact .got hf hl hg
          · have he : c.expects = true := by
              rcases HttpContext.line_expects hc hl with he | ⟨he, -⟩
              · exact he
              · exact absurd he hg
            have hmore : (next c buf true).hasMore = true := by simp [next, hg]
            rw [if_pos hmore]
            have hn' : (next c buf true).buf.readable.length < n := by
              simp only [next, hr, List.length_drop]
              omega
            rcases loop_parses n (next c buf true) he rfl hmore hb' hn' with ⟨f, hp, hloop⟩ | ⟨l', hp, hloop, hw, hx⟩
            · left
              simp only [next, hr] at hp
              exact ⟨f, .more hf hl hg hp, hloop⟩
            · right
              simp only [next, hr] at hp
              exact ⟨l', .more hf hl hg hp, hloop, hw, hx⟩

end ParseLoop

theorem HttpContext.parseRequest_parses {c : HttpContext} {buf : Buffer} {k : Nat} (hc : c.expects = true)
    (hb : buf.Within k) (t : Timestamp) :
    (∃ f, Parses t c buf.readable (.error f) ∧ c.parseRequest buf t = .error f) ∨
      ∃ l, Parses t c buf.readable (.ok (l.context, l.buf.readable, l.ok)) ∧ c.parseRequest buf t = .ok l ∧
        l.buf.Within k ∧ (l.context.expects = true ∨ l.context.state = .kGotAll ∧ l.ok = true) := by
  refine ParseLoop.loop_parses (buf.readableBytes + 1) { context := c, buf } hc rfl rfl hb ?_
  simp only [← hb.wf.length_readable]
  exact Nat.lt_succ_self _

end Zhengqi
