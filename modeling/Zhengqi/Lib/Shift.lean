import Mathlib.Algebra.Order.Group.Nat
import Mathlib.Data.Int.Order.Basic
import Mathlib.Tactic.Common

/-!
# Shifts that change with time

A table of offsets: `off 0` before the time `u 1`, `off k` from `u k` on. A time `t` in row `k` is
shifted to `t + off k`. Changes are far enough apart that the shifted times `l k` of the rows go up as
well, so that a shifted time comes from its own row or from the one before.
-/

namespace Shift

/-- The row of `t` among the times `f 1 < ... < f n`. -/
structure Row (f : Nat → Int) (n : Nat) (t : Int) (r : Nat) : Prop where
  le : r ≤ n
  low : 1 ≤ r → f r ≤ t
  high : r < n → t < f (r + 1)

theorem Row.unique {f : Nat → Int} {n r s : Nat} {t : Int} (hf : ∀ i j, 1 ≤ i → i < j → j ≤ n → f i < f j)
    (hr : Row f n t r) (hs : Row f n t s) : r = s := by
  have hlt : ∀ {a b}, Row f n t a → Row f n t b → ¬ a < b := by
    intro a b ha hb hab
    have h₁ := ha.high (Nat.lt_of_lt_of_le hab hb.le)
    have h₂ := hb.low (by omega)
    obtain rfl | hne := eq_or_ne b (a + 1)
    · omega
    · have := hf (a + 1) b (by omega) (by omega) hb.le
      omega
  have h₁ := hlt hr hs
  have h₂ := hlt hs hr
  omega

structure Table where
  n : Nat
  u : Nat → Int
  off : Nat → Int
  gap : ∀ k, 1 ≤ k → k < n → ∀ i j, i ≤ n → j ≤ n → off i - off j < u (k + 1) - u k

namespace Table

variable {T : Table} {t x : Int} {i j k r : Nat}

def l (T : Table) (k : Nat) : Int := T.u k + T.off k

theorem u_lt (T : Table) (i j : Nat) (hi : 1 ≤ i) (hij : i < j) (hj : j ≤ T.n) : T.u i < T.u j := by
  induction j with
  | zero => omega
  | succ j ih =>
    have hgap := T.gap j (by omega) (by omega) j j (by omega) (by omega)
    rcases Nat.lt_or_eq_of_le (Nat.le_of_lt_succ hij) with h | rfl
    · have := ih h (by omega)
      omega
    · omega

theorem l_lt (T : Table) (i j : Nat) (hi : 1 ≤ i) (hij : i < j) (hj : j ≤ T.n) : T.l i < T.l j := by
  induction j with
  | zero => omega
  | succ j ih =>
    have hgap := T.gap j (by omega) (by omega) j (j + 1) (by omega) (by omega)
    have hstep : T.l j < T.l (j + 1) := by
      rw [l, l]
      omega
    rcases Nat.lt_or_eq_of_le (Nat.le_of_lt_succ hij) with h | rfl
    · have := ih h (by omega)
      omega
    · exact hstep

theorem l_le_last (hi : 1 ≤ i) (hn : i ≤ T.n) : T.l i ≤ T.l T.n := by
  rcases Nat.lt_or_eq_of_le hn with h | rfl
  · exact (T.l_lt i T.n hi h le_rfl).le
  · exact le_rfl

theorem row_zero (h : Row T.u T.n t k) (ht : t < T.u 1) : k = 0 := by
  by_contra h₀
  have hlow := h.low (by omega)
  obtain rfl | h₁ := eq_or_ne k 1
  · omega
  · have := T.u_lt 1 k le_rfl (by omega) h.le
    omega

/-! ## Where a shifted time lies -/

theorem row_same (h : Row T.u T.n t k) (hx : k < T.n → t + T.off k < T.l (k + 1)) : Row T.l T.n (t + T.off k) k := by
  refine ⟨h.le, fun hk => ?_, hx⟩
  have := h.low hk
  rw [l]
  omega

/-- Where the offset goes down at the end of a row, the shifted time may lie in the next one. -/
theorem row_next (h : Row T.u T.n t k) (hk : k < T.n) (hx : T.l (k + 1) ≤ t + T.off k) :
    Row T.l T.n (t + T.off k) (k + 1) := by
  refine ⟨hk, fun _ => hx, fun hk' => ?_⟩
  have hhigh := h.high hk
  have hgap := T.gap (k + 1) (by omega) hk' k (k + 1 + 1) (by omega) (by omega)
  rw [l]
  omega

theorem row_cases (h : Row T.u T.n t k) (hr : Row T.l T.n (t + T.off k) r) :
    (r = k ∧ (k < T.n → t + T.off k < T.l (k + 1))) ∨ (r = k + 1 ∧ k < T.n ∧ T.l (k + 1) ≤ t + T.off k) := by
  by_cases hx : k < T.n ∧ T.l (k + 1) ≤ t + T.off k
  · exact .inr ⟨hr.unique T.l_lt (row_next h hx.1 hx.2), hx⟩
  · have hx' : k < T.n → t + T.off k < T.l (k + 1) := fun hk => by
      by_contra hn
      exact hx ⟨hk, by omega⟩
    exact .inl ⟨hr.unique T.l_lt (row_same h hx'), hx'⟩

/-- The times that are shifted to `x`. -/
def Source (T : Table) (x t : Int) : Prop := ∃ k, Row T.u T.n t k ∧ t + T.off k = x

theorem source_iff (hr : Row T.l T.n x r) : T.Source x t ↔
    (t = x - T.off r ∧ (r < T.n → x < T.u (r + 1) + T.off r)) ∨
      (1 ≤ r ∧ t = x - T.off (r - 1) ∧ x < T.u r + T.off (r - 1)) := by
  constructor
  · rintro ⟨k, hk, rfl⟩
    rcases row_cases hk hr with ⟨rfl, -⟩ | ⟨rfl, hlt, hle⟩
    · refine .inl ⟨by omega, fun hlt => ?_⟩
      have := hk.high hlt
      omega
    · have := hk.high hlt
      exact .inr ⟨by omega, by rw [Nat.add_sub_cancel]; omega, by rw [Nat.add_sub_cancel]; omega⟩
  · rintro (⟨rfl, hlt⟩ | ⟨h₁, rfl, hlt⟩)
    · refine ⟨r, ⟨hr.le, fun h => ?_, fun h => ?_⟩, by omega⟩
      · have := hr.low h
        rw [l] at this
        omega
      · have := hlt h
        omega
    · obtain ⟨r, rfl⟩ : ∃ s, r = s + 1 := ⟨r - 1, by omega⟩
      rw [Nat.add_sub_cancel] at hlt ⊢
      have hle := hr.le
      have hlow := hr.low h₁
      rw [l] at hlow
      refine ⟨r, ⟨by omega, fun h => ?_, fun h => by omega⟩, by omega⟩
      have hgap := T.gap r h (by omega) r (r + 1) (by omega) hle
      omega

/-! ## A row for a shifted time -/

/-- The row by which a shifted time `x` of row `r` is shifted back. Between a skipped time's two rows
and a repeated time's two rows, `post` chooses; the first and the last row stand for themselves. -/
def pick (T : Table) (x : Int) (r : Nat) (post : Bool) : Nat :=
  if r = 0 then 0
  else if r = T.n then T.n
  else if T.u (r + 1) - 1 + T.off r < x then if post then r + 1 else r
  else if r = 1 then 1
  else if x ≤ T.u r - 1 + T.off (r - 1) then if post then r else r - 1
  else r

theorem pick_le (hr : r ≤ T.n) (post : Bool) : T.pick x r post ≤ T.n := by
  rw [pick]
  split_ifs <;> omega

theorem pick_same (h : Row T.u T.n t k) : T.pick (t + T.off k) k true = k := by
  have hle := h.le
  rw [pick]
  by_cases h₀ : k = 0
  · rw [if_pos h₀, h₀]
  · rw [if_neg h₀]
    by_cases hn : k = T.n
    · rw [if_pos hn, hn]
    · have hhigh := h.high (by omega)
      rw [if_neg hn, if_neg (by omega)]
      by_cases h₁ : k = 1
      · rw [if_pos h₁, h₁]
      · rw [if_neg h₁, if_pos rfl, ite_self]

theorem not_past_next (h : Row T.u T.n t k) (hk : k + 1 < T.n) :
    ¬ T.u (k + 1 + 1) - 1 + T.off (k + 1) < t + T.off k := by
  have hhigh := h.high (by omega)
  have hgap := T.gap (k + 1) (by omega) hk k (k + 1) (by omega) (by omega)
  omega

/-- A time that ends up in the next row is found there if that row is neither the first nor the last. -/
theorem pick_next (h : Row T.u T.n t k) (hk : 1 ≤ k) (hn : k + 1 < T.n) : T.pick (t + T.off k) (k + 1) false = k := by
  have hhigh := h.high (by omega)
  rw [pick, if_neg (by omega), if_neg (by omega), if_neg (not_past_next h hn), if_neg (by omega),
    if_pos (by rw [Nat.add_sub_cancel]; omega)]
  rfl

theorem pick_next_edge (h : Row T.u T.n t k) (hn : k < T.n) (hk : k = 0 ∨ k + 1 = T.n) (post : Bool) :
    T.pick (t + T.off k) (k + 1) post = k + 1 := by
  rw [pick, if_neg (by omega)]
  by_cases hlast : k + 1 = T.n
  · rw [if_pos hlast, hlast]
  · obtain rfl : k = 0 := by omega
    rw [if_neg hlast, if_neg (not_past_next h (by omega)), if_pos rfl]

theorem pick_back_iff (h : Row T.u T.n t k) (hr : Row T.l T.n (t + T.off k) r) :
    (∃ post, t + T.off k - T.off (T.pick (t + T.off k) r post) = t) ↔
      (1 ≤ T.n → (t < T.u 1 → t + T.off k < T.l 1) ∧ (t < T.u T.n → t + T.off k < T.l T.n)) := by
  rcases row_cases h hr with ⟨rfl, hx⟩ | ⟨rfl, hlt, hx⟩
  · refine iff_of_true ⟨true, ?_⟩ fun hn => ⟨fun ht => ?_, fun ht => ?_⟩
    · rw [pick_same h]
      omega
    · obtain rfl := row_zero h ht
      exact hx hn
    · have hlt : r < T.n := by
        apply lt_of_le_of_ne h.le
        rintro rfl
        have := h.low hn
        omega
      exact (hx hlt).trans_le (l_le_last (by omega) hlt)
  · have hhigh := h.high hlt
    by_cases hk : k = 0 ∨ k + 1 = T.n
    · refine iff_of_false ?_ fun hback => ?_
      · rintro ⟨post, hpost⟩
        rw [pick_next_edge h hlt hk] at hpost
        rw [l] at hx
        omega
      · obtain ⟨hfirst, hlast⟩ := hback (by omega)
        rcases hk with rfl | hk
        · exact absurd (hfirst hhigh) (not_lt_of_ge hx)
        · rw [← hk] at hlast
          exact absurd (hlast hhigh) (not_lt_of_ge hx)
    · refine iff_of_true ⟨false, ?_⟩ fun _ => ⟨fun ht => ?_, fun _ => ?_⟩
      · rw [pick_next h (by omega) (by omega)]
        omega
      · have := row_zero h ht
        omega
      · have hn : k + 1 < T.n := by omega
        exact (hr.high hn).trans_le (l_le_last (by omega) hn)

/-! ## Between the second change and the last one -/

/-- No time is shifted to `x`, since the offset goes up over it at the end of row `k`. -/
structure Skipped (T : Table) (x : Int) (k : Nat) : Prop where
  lt : k < T.n
  low : T.u (k + 1) + T.off k ≤ x
  high : x < T.u (k + 1) + T.off (k + 1)

theorem not_skipped_of_repeated (h₁ : 1 ≤ r) (hn : r < T.n)
    (hx : x < T.u r + T.off (r - 1)) : x < T.u (r + 1) + T.off r := by
  have hgap := T.gap r h₁ hn (r - 1) r (by omega) (by omega)
  omega

theorem Skipped.row (hr : Row T.l T.n x r) (h : T.Skipped x k) : k = r := by
  refine Row.unique T.l_lt ⟨h.lt.le, fun hk => ?_, fun _ => h.high⟩ hr
  have hlow := h.low
  have := T.u_lt k (k + 1) hk (by omega) h.lt
  rw [l]
  omega

theorem Skipped.not_source (hr : Row T.l T.n x r) (h : T.Skipped x k) : ¬ T.Source x t := by
  obtain rfl := h.row hr
  have hlow := h.low
  rw [source_iff hr]
  rintro (⟨-, hlt⟩ | ⟨h₁, -, hlt⟩)
  · have := hlt h.lt
    omega
  · have := not_skipped_of_repeated h₁ h.lt hlt
    omega

theorem skipped_of_not_source (hr : Row T.l T.n x r) (hn : r < T.n) (h : ∀ t, ¬ T.Source x t) : T.Skipped x r := by
  refine ⟨hn, ?_, hr.high hn⟩
  by_contra hlt
  exact h (x - T.off r) ((source_iff hr).2 (.inl ⟨rfl, fun _ => by omega⟩))

theorem Skipped.pick (hr : Row T.l T.n x r) (h₁ : 1 ≤ r) (h : T.Skipped x k) (post : Bool) :
    T.pick x r post = if post then k + 1 else k := by
  obtain rfl := h.row hr
  have hlt := h.lt
  have hlow := h.low
  rw [Table.pick, if_neg (by omega), if_neg (by omega), if_pos (by omega)]

theorem pick_of_source (hr : Row T.l T.n x r) (h₂ : 2 ≤ r) (hn : r < T.n) (ht : T.Source x t) (post : Bool) :
    T.pick x r post = if x < T.u r + T.off (r - 1) then if post then r else r - 1 else r := by
  have hx : x < T.u (r + 1) + T.off r := by
    rcases (source_iff hr).1 ht with ⟨-, hlt⟩ | ⟨h₁, -, hlt⟩
    · exact hlt hn
    · exact not_skipped_of_repeated h₁ hn hlt
  rw [pick, if_neg (by omega), if_neg (by omega), if_neg (by omega), if_neg (by omega)]
  simp only [show x ≤ T.u r - 1 + T.off (r - 1) ↔ x < T.u r + T.off (r - 1) by omega]

theorem pick_unique (hr : Row T.l T.n x r) (h₂ : 2 ≤ r) (hn : r < T.n) (ht : T.Source x t)
    (honly : ∀ s, T.Source x s → s = t) (post : Bool) : x - T.off (T.pick x r post) = t := by
  rw [pick_of_source hr h₂ hn ht]
  split_ifs with hlt
  · exact honly _ ((source_iff hr).2 (.inl ⟨rfl, fun _ => not_skipped_of_repeated (by omega) hn hlt⟩))
  · exact honly _ ((source_iff hr).2 (.inr ⟨by omega, rfl, hlt⟩))
  · rcases (source_iff hr).1 ht with ⟨rfl, -⟩ | ⟨-, -, hlt'⟩
    · rfl
    · exact absurd hlt' hlt

theorem pick_repeated {s : Int} (hr : Row T.l T.n x r) (h₂ : 2 ≤ r) (hn : r < T.n) (hs : T.Source x s)
    (ht : T.Source x t) (hst : s < t) : x - T.off (T.pick x r false) = s ∧ x - T.off (T.pick x r true) = t := by
  have hlow := hr.low (by omega)
  rw [l] at hlow
  rw [pick_of_source hr h₂ hn hs, pick_of_source hr h₂ hn hs]
  -- of the two sources, that of the row itself is the later one
  rcases (source_iff hr).1 hs with ⟨hs, -⟩ | ⟨-, hs, hlt⟩ <;>
    rcases (source_iff hr).1 ht with ⟨ht, -⟩ | ⟨-, ht, hlt'⟩
  · omega
  · omega
  · rw [if_pos hlt, if_pos hlt, hs, ht]
    exact ⟨rfl, rfl⟩
  · omega

end Table

end Shift
