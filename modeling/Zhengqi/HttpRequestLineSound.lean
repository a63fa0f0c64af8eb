import Zhengqi.HttpText

/-!
# The grammar of the request line

`processRequestLine_iff`: the lines that are accepted are those of the grammar, and the request takes
over their parts.
-/

namespace Zhengqi

open Run

theorem Method.word_ofWord {w : Bytes} (h : Method.ofWord w ≠ .kInvalid) : (Method.ofWord w).word = w := by
  unfold Method.ofWord at h ⊢
  split_ifs at h ⊢ <;> simp_all [Method.word]

namespace HttpContext

/-- The line of a method, a target and a version. -/
def lineOf (m : Method) (target : Bytes) (v : Version) : Bytes :=
  m.word ++ chr ' ' :: (target ++ chr ' ' :: (ascii "HTTP/1." ++ v.digit))

structure IsRequestLine (line : Bytes) (m : Method) (target : Bytes) (v : Version) : Prop where
  method : m ≠ .kInvalid
  version : v ≠ .kUnknown
  no_space : chr ' ' ∉ target
  line : line = lineOf m target v

theorem setTarget_eq (r : HttpRequest) (target : Bytes) : setTarget r target =
    { r with
      path := target.takeWhile (· ≠ chr '?')
      query := if chr '?' ∈ target then target.dropWhile (· ≠ chr '?') else r.query } := by
  unfold setTarget
  by_cases h : chr '?' ∈ target
  · obtain ⟨path, query, rfl, hp⟩ := List.eq_append_cons_of_mem h
    have hne : ∀ a ∈ path, decide (a ≠ chr '?') = true := by
      intro a ha
      simp only [ne_eq, decide_eq_true_eq]
      exact ne_of_mem_of_not_mem ha hp
    simp only [idxOf_mid hp, length_ne_mid, ne_eq, not_false_eq_true, if_true, List.take_left, List.drop_left, h]
    rw [List.takeWhile_append_of_pos hne, List.dropWhile_append_of_pos hne]
    simp
  · have hne : ∀ a ∈ target, decide (a ≠ chr '?') = true := by
      intro a ha
      simp only [ne_eq, decide_eq_true_eq]
      exact ne_of_mem_of_not_mem ha h
    have hall := @List.takeWhile_append_of_pos _ _ _ [] hne
    rw [List.takeWhile_nil, List.append_nil] at hall
    rw [List.idxOf_of_notMem h, hall]
    simp [h]

/-- The version that the end of the line stands for. -/
theorem protocol_cases (protocol : Bytes) :
    (∃ v, v ≠ .kUnknown ∧ protocol = ascii "HTTP/1." ++ Version.digit v) ∨
      ¬ (protocol.length = 8 ∧ protocol.take 7 = ascii "HTTP/1." ∧
        (protocol.drop 7 = ascii "1" ∨ protocol.drop 7 = ascii "0")) := by
  by_cases h : protocol.take 7 = ascii "HTTP/1."
  · have hcut := List.take_append_drop 7 protocol
    rw [h] at hcut
    by_cases h₁ : protocol.drop 7 = ascii "1"
    · exact .inl ⟨.kHttp11, by simp, by rw [← hcut, h₁]; rfl⟩
    · by_cases h₀ : protocol.drop 7 = ascii "0"
      · exact .inl ⟨.kHttp10, by simp, by rw [← hcut, h₀]; rfl⟩
      · right
        intro hp
        exact hp.2.2.elim h₁ h₀
  · exact .inr fun hp => h hp.2.1

section
variable {r : HttpRequest} (hr : r.method = .kInvalid)
include hr

theorem processRequestLine_words {m : Method} {w target protocol : Bytes} (hw : chr ' ' ∉ w) (hm : Method.ofWord w = m)
    (hvalid : m ≠ .kInvalid) (ht : chr ' ' ∉ target) :
    processRequestLine r (w ++ chr ' ' :: (target ++ chr ' ' :: protocol)) =
      if protocol.length = 8 ∧ protocol.take 7 = ascii "HTTP/1." then
        if protocol.drop 7 = ascii "1" then
          .ok ({ setTarget { r with method := m } target with version := .kHttp11 }, true)
        else if protocol.drop 7 = ascii "0" then
          .ok ({ setTarget { r with method := m } target with version := .kHttp10 }, true)
        else .ok (setTarget { r with method := m } target, false)
      else .ok (setTarget { r with method := m } target, false) := by
  unfold processRequestLine HttpRequest.setMethod
  simp only [idxOf_mid hw, length_ne_mid, ne_eq, not_false_eq_true, if_true, check_of hr, ok_bind, pure_eq_ok,
    List.take_left, drop_mid, hm, hvalid, decide_true, idxOf_mid ht]

theorem processRequestLine_accepts {line target : Bytes} {m : Method} {v : Version}
    (h : IsRequestLine line m target v) :
    processRequestLine r line = .ok ({ setTarget { r with method := m } target with version := v }, true) := by
  obtain ⟨hword, hs, -⟩ := Method.ofWord_word h.method
  rw [h.line, lineOf, processRequestLine_words hr hs hword h.method h.no_space]
  cases hv : v with
  | kUnknown => exact absurd hv h.version
  | kHttp10 => rfl
  | kHttp11 => rfl

theorem processRequestLine_cases (line : Bytes) :
    (∃ m target v, IsRequestLine line m target v) ∨ ∃ r', processRequestLine r line = .ok (r', false) := by
  by_cases hs : chr ' ' ∈ line
  · obtain ⟨w, rest, rfl, hw⟩ := List.eq_append_cons_of_mem hs
    by_cases hm : Method.ofWord w = .kInvalid
    · right
      unfold processRequestLine HttpRequest.setMethod
      simp [idxOf_mid hw, check_of hr, ok_bind, hm]
    · by_cases ht : chr ' ' ∈ rest
      · obtain ⟨target, protocol, rfl, htarget⟩ := List.eq_append_cons_of_mem ht
        rcases protocol_cases protocol with ⟨v, hv, rfl⟩ | hp
        · left
          exact ⟨_, target, v, hm, hv, htarget, by rw [lineOf, Method.word_ofWord hm]⟩
        · right
          rw [processRequestLine_words hr hw rfl hm htarget]
          split_ifs with h₁ h₂ h₃
          · exact absurd ⟨h₁.1, h₁.2, .inl h₂⟩ hp
          · exact absurd ⟨h₁.1, h₁.2, .inr h₃⟩ hp
          · exact ⟨_, rfl⟩
          · exact ⟨_, rfl⟩
      · right
        unfold processRequestLine HttpRequest.setMethod
        simp [idxOf_mid hw, check_of hr, ok_bind, hm, List.idxOf_of_notMem ht]
  · right
    unfold processRequestLine
    simp [List.idxOf_of_notMem hs]

end

/-- A line is accepted exactly if it is a request line, and the request is then made of its parts. -/
theorem processRequestLine_iff {r : HttpRequest} (hr : r.method = .kInvalid) (line : Bytes) :
    ∃ r' ok, processRequestLine r line = .ok (r', ok) ∧
      (ok = true ↔ ∃ m target v, IsRequestLine line m target v) ∧
      ∀ m target v, IsRequestLine line m target v → r' = { r with
        method := m
        version := v
        path := target.takeWhile (· ≠ chr '?')
        query := if chr '?' ∈ target then target.dropWhile (· ≠ chr '?') else r.query } := by
  by_cases h : ∃ m target v, IsRequestLine line m target v
  · obtain ⟨m, target, v, hline⟩ := h
    refine ⟨_, true, processRequestLine_accepts hr hline, ?_, ?_⟩
    · simp only [true_iff]
      exact ⟨m, target, v, hline⟩
    · intro m' target' v' hline'
      have heq := (processRequestLine_accepts hr hline).symm.trans (processRequestLine_accepts hr hline')
      obtain ⟨hreq, -⟩ := Prod.mk.inj (Except.ok.inj heq)
      rw [hreq, setTarget_eq]
  · obtain ⟨r', hr'⟩ := (processRequestLine_cases hr line).resolve_left h
    refine ⟨r', false, hr', ?_, ?_⟩
    · simpa using h
    · intro m target v hline
      exact absurd ⟨m, target, v, hline⟩ h

theorem processRequestLine_iff_query : ∃ r', processRequestLine {} (ascii "GET /a?b=c HTTP/1.0") = .ok (r', true) ∧
    r' = { method := .kGet, version := .kHttp10, path := ascii "/a", query := ascii "?b=c" } := by
  obtain ⟨r', ok, hr', hiff, hreq⟩ := processRequestLine_iff (r := {}) rfl (ascii "GET /a?b=c HTTP/1.0")
  have hline : IsRequestLine (ascii "GET /a?b=c HTTP/1.0") .kGet (ascii "/a?b=c") .kHttp10 := by
    constructor <;> decide
  obtain rfl : ok = true := hiff.2 ⟨_, _, _, hline⟩
  refine ⟨r', hr', (hreq _ _ _ hline).trans ?_⟩
  decide

end HttpContext

end Zhengqi
