import Mathlib.Algebra.Group.Nat.Defs
import Mathlib.Tactic.Common

/-!
# Numerals

The digits of a number in a base, as `Nat.toDigits` gives them, written with an alphabet of one's own
and read back.
-/

namespace Numeral

variable {α : Type} {base : Nat}

/-- The number that a list of digits stands for, where `value` knows the digits. -/
def read (base : Nat) (value : α → Option Nat) (ds : List α) : Option Nat :=
  ds.foldlM (fun n a => (value a).map (n * base + ·)) 0

theorem read_append_singleton (value : α → Option Nat) (ds : List α) (a : α) :
    read base value (ds ++ [a]) = (read base value ds).bind fun n => (value a).map (n * base + ·) := by
  simp [read, List.foldlM_append]

theorem read_toDigits {value : α → Option Nat} {f : Char → α} (hb : 1 < base)
    (hv : ∀ d < base, value (f d.digitChar) = some d) (n : Nat) :
    read base value ((Nat.toDigits base n).map f) = some n := by
  induction n using Nat.strongRecOn with
  | ind n ih =>
    rw [Nat.toDigits_eq_if hb]
    by_cases hn : n < base
    · simp [hn, read, hv n hn]
    · have hlast := hv (n % base) (Nat.mod_lt n (by omega))
      have hrest := ih (n / base) (Nat.div_lt_self (by omega) hb)
      rw [if_neg hn, List.map_append, List.map_singleton, read_append_singleton, hrest, hlast]
      simp [Nat.div_add_mod']

theorem mem_toDigits (hb : 1 < base) {n : Nat} {c : Char} (h : c ∈ Nat.toDigits base n) :
    ∃ d < base, c = d.digitChar := by
  induction n using Nat.strongRecOn with
  | ind n ih =>
    rw [Nat.toDigits_eq_if hb] at h
    by_cases hlt : n < base
    · rw [if_pos hlt, List.mem_singleton] at h
      exact ⟨n, hlt, h⟩
    · rw [if_neg hlt, List.mem_append, List.mem_singleton] at h
      rcases h with h | h
      · exact ih (n / base) (Nat.div_lt_self (by omega) hb) h
      · exact ⟨n % base, Nat.mod_lt n (by omega), h⟩

/-- The first digit of a number is not zero. -/
theorem head_toDigits (hb : 1 < base) {n : Nat} (hn : n ≠ 0) :
    ∃ d, d ≠ 0 ∧ d < base ∧ (Nat.toDigits base n).head? = some d.digitChar := by
  induction n using Nat.strongRecOn with
  | ind n ih =>
    rw [Nat.toDigits_eq_if hb]
    by_cases hlt : n < base
    · exact ⟨n, hn, hlt, by simp [hlt]⟩
    · obtain ⟨d, hd, hdb, hhead⟩ := ih (n / base) (Nat.div_lt_self (by omega) hb) (by rw [Nat.div_ne_zero_iff]; omega)
      refine ⟨d, hd, hdb, ?_⟩
      rw [if_neg hlt, List.head?_append, hhead, Option.some_or]

/-! ## Fields of one width -/

/-- The last `w` digits of a number, where `f` writes a digit. -/
def field (base : Nat) (f : Nat → α) : Nat → Nat → List α
  | 0, _ => []
  | w + 1, n => field base f w (n / base) ++ [f (n % base)]

variable {f : Nat → α}

theorem length_field (w n : Nat) : (field base f w n).length = w := by
  induction w generalizing n with
  | zero => rfl
  | succ w ih => rw [field, List.length_append, ih, List.length_singleton]

section
variable [LT α]

/-- Where the lists before are of one length, what follows does not matter. -/
theorem append_lt_append : ∀ {xs ys : List α}, xs.length = ys.length → xs < ys → ∀ s t, xs ++ s < ys ++ t
  | [], [], _, h, _, _ => absurd h (List.not_lt_nil [])
  | x :: xs, y :: ys, hlen, h, s, t => by
    rw [List.cons_append, List.cons_append, List.cons_lt_cons_iff]
    rcases List.cons_lt_cons_iff.mp h with hxy | ⟨hxy, h⟩
    · exact .inl hxy
    · exact .inr ⟨hxy, append_lt_append (Nat.succ.inj hlen) h s t⟩

/-- Fields of one width are in the order of the numbers. -/
theorem field_lt (hf : ∀ a b, a < b → b < base → f a < f b) {w m n : Nat} (hmn : m < n) (hn : n < base ^ w) :
    field base f w m < field base f w n := by
  induction w generalizing m n with
  | zero =>
    rw [Nat.pow_zero] at hn
    omega
  | succ w ih =>
    rw [Nat.pow_succ] at hn
    have hbase : 0 < base := Nat.pos_of_ne_zero fun h => by simp [h] at hn
    have hdiv := Nat.div_lt_of_lt_mul (Nat.mul_comm .. ▸ hn)
    rw [field, field]
    rcases Nat.lt_or_ge (m / base) (n / base) with hlt | hge
    · apply append_lt_append
      · rw [length_field, length_field]
      · exact ih hlt hdiv
    · -- the numbers differ in their last digit
      have heq : m / base = n / base := Nat.le_antisymm (Nat.div_le_div_right (Nat.le_of_lt hmn)) hge
      rw [heq]
      apply List.append_left_lt
      refine List.cons_lt_cons_iff.mpr (.inl (hf _ _ ?_ (Nat.mod_lt n hbase)))
      have hm := Nat.div_add_mod m base
      have hn := Nat.div_add_mod n base
      rw [heq] at hm
      omega

end

end Numeral
