import Mathlib.Data.Int.Log
import Mathlib.Data.Rat.Floor
import Mathlib.Tactic.Linarith
import Mathlib.Tactic.Ring

/-!
# Rounding to a number of significant bits

`toPrecision p x` is the number with `p + 1` significant bits next to `x`, and of two that are equally near the
one with an even last bit. The exponent is not bounded.
-/

namespace Rounding

def roundEven (x : ℚ) : ℤ :=
  if x - ⌊x⌋ < 1 / 2 then ⌊x⌋ else if 1 / 2 < x - ⌊x⌋ then ⌊x⌋ + 1 else ⌊x⌋ + ⌊x⌋ % 2

def toPrecision (p : ℕ) (x : ℚ) : ℚ :=
  let unit : ℚ := 2 ^ (Int.log 2 |x| - p)
  roundEven (x / unit) * unit

section
variable {x : ℚ} {n : ℤ}

theorem roundEven_le (h : x < n + 1 / 2) : roundEven x ≤ n := by
  have hfloor := Int.floor_le x
  unfold roundEven
  split
  · have : (⌊x⌋ : ℚ) < (n + 1 : ℤ) := by push_cast; linarith
    have := Int.cast_lt.1 this
    omega
  · have : (⌊x⌋ : ℚ) < (n : ℤ) := by linarith
    have := Int.cast_lt.1 this
    split
    · omega
    · omega

theorem le_roundEven (h : n - 1 / 2 < x) : n ≤ roundEven x := by
  have hfloor := Int.lt_floor_add_one x
  unfold roundEven
  split
  · have : ((n - 1 : ℤ) : ℚ) < ⌊x⌋ := by push_cast; linarith
    have := Int.cast_lt.1 this
    omega
  · split
    · have : ((n - 2 : ℤ) : ℚ) < ⌊x⌋ := by push_cast; linarith
      have := Int.cast_lt.1 this
      omega
    · have : ((n - 1 : ℤ) : ℚ) < ⌊x⌋ := by push_cast; linarith
      have := Int.cast_lt.1 this
      omega

theorem le_roundEven_of_even (hn : n % 2 = 0) (h : n - 1 / 2 ≤ x) : n ≤ roundEven x := by
  rcases h.lt_or_eq with h | h
  · exact le_roundEven h
  · have hfloor : ⌊x⌋ = n - 1 := by
      rw [Int.floor_eq_iff]
      push_cast
      constructor <;> linarith
    have hhalf : x - (n - 1 : ℤ) = 1 / 2 := by push_cast; linarith
    unfold roundEven
    rw [hfloor, hhalf, if_neg (lt_irrefl _), if_neg (lt_irrefl _)]
    omega

end

theorem two_zpow_pos (k : ℤ) : (0 : ℚ) < 2 ^ k := zpow_pos two_pos k

theorem pow_mul_zpow (p : ℕ) (k : ℤ) : (2 : ℚ) ^ p * 2 ^ k = 2 ^ (k + p) := by
  rw [zpow_add₀ two_ne_zero, zpow_natCast, mul_comm]

/-- The binade of `x` starts at `2 ^ p` units. -/
theorem zpow_log_eq (p : ℕ) (x : ℚ) : (2 : ℚ) ^ Int.log 2 x = ((2 ^ p : ℤ) : ℚ) * 2 ^ (Int.log 2 x - p) := by
  push_cast
  rw [pow_mul_zpow, sub_add_cancel]

theorem lt_zpow_log (x : ℚ) : x < (2 : ℚ) ^ (Int.log 2 x + 1) := by
  exact_mod_cast Int.lt_zpow_succ_log_self (b := 2) one_lt_two x

section
variable {p : ℕ} {x : ℚ} {m k : ℤ} (hx : 0 < x)
include hx

theorem zpow_log_le : (2 : ℚ) ^ Int.log 2 x ≤ x := by
  exact_mod_cast Int.zpow_log_le_self one_lt_two hx

theorem toPrecision_eq : toPrecision p x = roundEven (x / 2 ^ (Int.log 2 x - p)) * 2 ^ (Int.log 2 x - p) := by
  unfold toPrecision
  rw [abs_of_pos hx]

/-- An upper bound in units of the last place. -/
theorem toPrecision_le_of_lt {n : ℤ} (h : x < (n + 1 / 2) * 2 ^ (Int.log 2 x - p)) :
    toPrecision p x ≤ n * 2 ^ (Int.log 2 x - p) := by
  have hunit := two_zpow_pos (Int.log 2 x - p)
  rw [toPrecision_eq hx]
  apply mul_le_mul_of_nonneg_right _ hunit.le
  exact Int.cast_le.2 (roundEven_le ((div_lt_iff₀ hunit).2 h))

theorem le_toPrecision_of_le {n : ℤ} (h : (n - 1 / 2) * 2 ^ (Int.log 2 x - p) ≤ x)
    (hn : n % 2 = 0 ∨ (n - 1 / 2) * 2 ^ (Int.log 2 x - p) < x) : n * 2 ^ (Int.log 2 x - p) ≤ toPrecision p x := by
  have hunit := two_zpow_pos (Int.log 2 x - p)
  rw [toPrecision_eq hx]
  apply mul_le_mul_of_nonneg_right _ hunit.le
  apply Int.cast_le.2
  rcases hn with hn | hn
  · exact le_roundEven_of_even hn ((le_div_iff₀ hunit).2 h)
  · exact le_roundEven ((lt_div_iff₀ hunit).2 hn)

theorem toPrecision_le_zpow : toPrecision p x ≤ 2 ^ (Int.log 2 x + 1) := by
  have hunit := two_zpow_pos (Int.log 2 x - p)
  have htop : (2 : ℚ) ^ (Int.log 2 x + 1) = ((2 ^ (p + 1) : ℤ) : ℚ) * 2 ^ (Int.log 2 x - p) := by
    push_cast
    rw [pow_mul_zpow]
    congr 1
    push_cast
    ring
  rw [htop]
  apply toPrecision_le_of_lt hx
  have := lt_zpow_log x
  rw [htop] at this
  linarith

theorem zpow_le_toPrecision : 2 ^ Int.log 2 x ≤ toPrecision p x := by
  have hunit := two_zpow_pos (Int.log 2 x - p)
  have hle := zpow_log_le hx
  rw [zpow_log_eq p x] at hle ⊢
  have hlt : ((2 ^ p : ℤ) - 1 / 2) * 2 ^ (Int.log 2 x - p) < x := by linarith
  exact le_toPrecision_of_le hx hlt.le (.inr hlt)

/-- Below the middle between `m` units and the next number, no more than `m` units. -/
theorem toPrecision_le_of_lt_middle (hm : 2 ^ p ≤ m) (hm' : m < 2 ^ (p + 1)) (h : x < (m + 1 / 2) * 2 ^ k) :
    toPrecision p x ≤ m * 2 ^ k := by
  have hk := two_zpow_pos k
  have hmp : (2 : ℚ) ^ p ≤ m := by exact_mod_cast hm
  have hmp' : (m : ℚ) + 1 ≤ 2 ^ (p + 1) := by exact_mod_cast hm'
  rcases lt_trichotomy (Int.log 2 x) (k + p) with hlt | heq | hgt
  · calc toPrecision p x ≤ 2 ^ (Int.log 2 x + 1) := toPrecision_le_zpow hx
      _ ≤ 2 ^ (k + p) := zpow_le_zpow_right₀ one_le_two (by omega)
      _ = 2 ^ p * 2 ^ k := (pow_mul_zpow p k).symm
      _ ≤ m * 2 ^ k := by gcongr
  · have hunit : Int.log 2 x - p = k := by omega
    have hle := toPrecision_le_of_lt (p := p) (n := m) hx (by rwa [hunit])
    rwa [hunit] at hle
  · -- the number would be more than all `p + 1` bits can say
    exfalso
    have : (2 : ℚ) ^ (p + 1) * 2 ^ k ≤ x := by
      rw [pow_mul_zpow]
      exact (zpow_le_zpow_right₀ one_le_two (by push_cast; omega)).trans (zpow_log_le hx)
    nlinarith

/-- From the middle on, no less than `m` units; in the middle itself only if `m` is even. -/
theorem le_toPrecision_of_middle_le (hm : 2 ^ p < m) (hm' : m ≤ 2 ^ (p + 1)) (h : (m - 1 / 2) * 2 ^ k ≤ x)
    (heven : m % 2 = 0 ∨ (m - 1 / 2) * 2 ^ k < x) : m * 2 ^ k ≤ toPrecision p x := by
  have hk := two_zpow_pos k
  have hmp : (2 : ℚ) ^ p + 1 ≤ m := by exact_mod_cast hm
  have hmp' : (m : ℚ) ≤ 2 ^ (p + 1) := by exact_mod_cast hm'
  rcases lt_trichotomy (Int.log 2 x) (k + p) with hlt | heq | hgt
  · exfalso
    have : x < (2 : ℚ) ^ p * 2 ^ k := by
      rw [pow_mul_zpow]
      exact (lt_zpow_log x).trans_le (zpow_le_zpow_right₀ one_le_two (by omega))
    nlinarith
  · have hunit : Int.log 2 x - p = k := by omega
    have hle := le_toPrecision_of_le (p := p) (n := m) hx (by rwa [hunit]) (by rwa [hunit])
    rwa [hunit] at hle
  · calc (m : ℚ) * 2 ^ k ≤ 2 ^ (p + 1) * 2 ^ k := by gcongr
      _ = 2 ^ (k + (p + 1 : ℕ)) := pow_mul_zpow (p + 1) k
      _ ≤ 2 ^ Int.log 2 x := zpow_le_zpow_right₀ one_le_two (by push_cast; omega)
      _ ≤ toPrecision p x := zpow_le_toPrecision hx

/-- No number of `p + 1` bits lies between `x` and its rounding. -/
theorem toPrecision_le_of_le (hm : m ≤ 2 ^ (p + 1)) (h : x ≤ m * 2 ^ k) : toPrecision p x ≤ m * 2 ^ k := by
  have hk := two_zpow_pos k
  have hmp : (m : ℚ) ≤ 2 ^ (p + 1) := by exact_mod_cast hm
  by_cases hunit : Int.log 2 x - p ≤ k
  · -- the bound is a number of units
    obtain ⟨d, hd⟩ := Int.le.dest hunit
    have hbound : (m : ℚ) * 2 ^ k = ((m * 2 ^ d : ℤ) : ℚ) * 2 ^ (Int.log 2 x - p) := by
      push_cast
      rw [mul_assoc, pow_mul_zpow, hd]
    have hpos := two_zpow_pos (Int.log 2 x - p)
    rw [hbound] at h ⊢
    apply toPrecision_le_of_lt hx
    linarith
  · -- the bound is a power of two, and `x` is the bound
    have htop : (m : ℚ) * 2 ^ k ≤ 2 ^ Int.log 2 x := by
      calc (m : ℚ) * 2 ^ k ≤ 2 ^ (p + 1) * 2 ^ k := by gcongr
        _ = 2 ^ (k + (p + 1 : ℕ)) := pow_mul_zpow (p + 1) k
        _ ≤ 2 ^ Int.log 2 x := zpow_le_zpow_right₀ one_le_two (by push_cast; omega)
    have hpos := two_zpow_pos (Int.log 2 x - p)
    have heq : (m : ℚ) * 2 ^ k = ((2 ^ p : ℤ) : ℚ) * 2 ^ (Int.log 2 x - p) := by
      rw [← zpow_log_eq]
      exact le_antisymm htop ((zpow_log_le hx).trans h)
    rw [heq] at h ⊢
    apply toPrecision_le_of_lt hx
    linarith

/-- Below a number of `p + 1` bits, no more than the one before it. -/
theorem toPrecision_le_pred (hm : 2 ^ p < m) (h : toPrecision p x < m * 2 ^ k) :
    toPrecision p x ≤ (m - 1 : ℤ) * 2 ^ k := by
  have hk := two_zpow_pos k
  have hmp : (2 : ℚ) ^ p ≤ (m - 1 : ℤ) := by exact_mod_cast Int.le_sub_one_of_lt hm
  by_cases hunit : k ≤ Int.log 2 x - p
  · -- it is a number of units itself
    obtain ⟨d, hd⟩ := Int.le.dest hunit
    have heq : toPrecision p x = ((roundEven (x / 2 ^ (Int.log 2 x - p)) * 2 ^ d : ℤ) : ℚ) * 2 ^ k := by
      push_cast
      rw [toPrecision_eq hx, mul_assoc, pow_mul_zpow, hd]
    rw [heq] at h ⊢
    have hlt := Int.cast_lt.1 (lt_of_mul_lt_mul_right h hk.le)
    exact mul_le_mul_of_nonneg_right (Int.cast_le.2 (Int.le_sub_one_of_lt hlt)) hk.le
  · calc toPrecision p x ≤ 2 ^ (Int.log 2 x + 1) := toPrecision_le_zpow hx
      _ ≤ 2 ^ (k + p) := zpow_le_zpow_right₀ one_le_two (by omega)
      _ = 2 ^ p * 2 ^ k := (pow_mul_zpow p k).symm
      _ ≤ (m - 1 : ℤ) * 2 ^ k := by gcongr

end

theorem toPrecision_self {p : ℕ} {m : ℤ} (k : ℤ) (hm : 2 ^ p < m) (hm' : m ≤ 2 ^ (p + 1)) :
    toPrecision p (m * 2 ^ k) = m * 2 ^ k := by
  have hk := two_zpow_pos k
  have hmpos : (0 : ℚ) < m := by exact_mod_cast lt_trans (pow_pos two_pos p) hm
  have hx : (0 : ℚ) < m * 2 ^ k := mul_pos hmpos hk
  have hlt : ((m : ℚ) - 1 / 2) * 2 ^ k < m * 2 ^ k := by linarith
  exact le_antisymm (toPrecision_le_of_le hx hm' le_rfl) (le_toPrecision_of_middle_le hx hm hm' hlt.le (.inr hlt))

end Rounding
