import Mathlib.Tactic.NormNum
import Zhengqi.FormatSI

/-!
# The column of formatSI

The text of `formatSI` has at most five characters but for eight numbers below `99.95P`: their `double` is
`99950000000000000`, and its quotient is rounded up to more than `99.95`.
-/

namespace Zhengqi

open Rounding

/-! ## The digits of a fraction -/

theorem length_fixed_le {digits j : Nat} {x : ℚ} (hj : 0 < j) (h : x * 10 ^ digits < 10 ^ (j + digits) - 1 / 2) :
    (fixed digits x).length ≤ j + if digits = 0 then 0 else digits + 1 := by
  have hpos : 0 < 10 ^ digits := Nat.pow_pos (by decide)
  have hscaled : roundEven (x * 10 ^ digits) ≤ 10 ^ (j + digits) - 1 := by
    apply roundEven_le
    push_cast
    linarith
  have hlt : (roundEven (x * 10 ^ digits)).toNat < 10 ^ j * 10 ^ digits := by
    rw [← Nat.pow_add]
    have : 0 < 10 ^ (j + digits) := Nat.pow_pos (by decide)
    have : ((10 ^ (j + digits) : Nat) : Int) = 10 ^ (j + digits) := by push_cast; rfl
    omega
  have hhead := length_decimal hj ((Nat.div_lt_iff_lt_mul hpos).2 hlt)
  unfold fixed
  rw [List.length_append]
  by_cases hd : digits = 0
  · rw [if_pos hd, if_pos hd, List.length_nil]
    exact Nat.add_le_add_right hhead 0
  · have hmod := Nat.mod_lt (roundEven (x * 10 ^ digits)).toNat hpos
    rw [if_neg hd, if_neg hd, List.length_cons, length_zeroPadded (by omega) (by omega) (by rwa [Int.natAbs_natCast])]
    omega

/-! ## The quotients -/

theorem double_pos {x : ℚ} (hx : 0 < x) : 0 < double x :=
  lt_of_lt_of_le (two_zpow_pos _) (zpow_le_toPrecision hx)

/-- A bound that is a `double` itself. -/
theorem double_le {x : ℚ} {c i : Nat} (hx : 0 < x) (hc : c * 5 ^ i ≤ 2 ^ 53) (h : x ≤ c * 10 ^ i) :
    double x ≤ c * 10 ^ i := by
  have hbound : (c * 10 ^ i : ℚ) = ((c * 5 ^ i : ℕ) : ℤ) * 2 ^ (i : ℤ) := by
    push_cast
    rw [mul_assoc, zpow_natCast, ← mul_pow]
    norm_num
  rw [hbound] at h ⊢
  exact toPrecision_le_of_le hx (by exact_mod_cast hc) h

/-- `9.995` is rounded down. -/
theorem two_decimals {x : ℚ} (hx : 0 < x) (h : x ≤ 9.995) : (fixed 2 (double x)).length ≤ 4 := by
  have hle : double x ≤ (5626684784446013 : ℤ) * 2 ^ (-49 : ℤ) :=
    toPrecision_le_of_lt_middle hx (by norm_num) (by norm_num) (lt_of_le_of_lt h (by norm_num))
  apply length_fixed_le (by decide)
  have : double x < 9.995 := lt_of_le_of_lt hle (by norm_num)
  linarith

theorem one_decimal {x : ℚ} (hx : 0 < x) (h : x ≤ 99.949999999999984) : (fixed 1 (double x)).length ≤ 4 := by
  have hle : double x ≤ (7033355980557516 : ℤ) * 2 ^ (-46 : ℤ) :=
    toPrecision_le_of_le hx (by norm_num) (h.trans (by norm_num))
  apply length_fixed_le (by decide)
  have : double x < 99.95 := lt_of_le_of_lt hle (by norm_num)
  linarith

theorem no_decimals {x : ℚ} (hx : 0 < x) (h : x ≤ 1000) : (fixed 0 (double x)).length ≤ 4 := by
  have hle := double_le (c := 1000) (i := 0) hx (by norm_num) (by simpa using h)
  apply length_fixed_le (by decide)
  norm_num at hle ⊢
  linarith

/-! ## The branches -/

theorem length_inUnit_le {n unit : ℚ} {digits : Nat} (letter : Char)
    (h : (fixed digits (double (n / unit))).length ≤ 4) :
    (inUnit n digits unit letter).length ≤ 5 := by
  rw [inUnit, List.length_append, List.length_singleton]
  exact Nat.succ_le_succ h

section
variable {s : Int} (hs : 0 < s)
include hs

theorem double_int_le {c i : Nat} (hc : c * 5 ^ i ≤ 2 ^ 53) (h : s ≤ c * 10 ^ i) : double s ≤ c * 10 ^ i :=
  double_le (by exact_mod_cast hs) hc (by exact_mod_cast h)

theorem quotient_pos (u : Nat) : 0 < double s / 10 ^ u :=
  div_pos (double_pos (by exact_mod_cast hs)) (pow_pos (by norm_num) u)

theorem length_two (i : Nat) (letter : Char) (hi : 9995 * 5 ^ i ≤ 2 ^ 53) (h : s < 9995 * 10 ^ i) :
    (inUnit (double s) 2 (10 ^ (i + 3)) letter).length ≤ 5 := by
  have hn := double_int_le hs hi h.le
  have hx : double s / 10 ^ (i + 3) ≤ 9.995 := by
    rw [div_le_iff₀ (pow_pos (by norm_num) _), pow_add]
    push_cast at hn
    linarith
  exact length_inUnit_le letter (two_decimals (quotient_pos hs _) hx)

theorem length_no (i : Nat) (letter : Char) (hi : 9995 * 5 ^ (i + 2) ≤ 2 ^ 53) (h : s < 9995 * 10 ^ (i + 2)) :
    (inUnit (double s) 0 (10 ^ (i + 3)) letter).length ≤ 5 := by
  have hn := double_int_le hs hi h.le
  have hten : (0 : ℚ) < 10 ^ i := pow_pos (by norm_num) i
  have hx : double s / 10 ^ (i + 3) ≤ 1000 := by
    rw [div_le_iff₀ (pow_pos (by norm_num) _), pow_add]
    rw [pow_add] at hn
    push_cast at hn
    linarith
  exact length_inUnit_le letter (no_decimals (quotient_pos hs _) hx)

theorem length_one {u : Nat} (letter : Char) (h : double s * 10 ^ 15 ≤ 99949999999999984 * 10 ^ u) :
    (inUnit (double s) 1 (10 ^ u) letter).length ≤ 5 := by
  have hx : double s / 10 ^ u ≤ 99.949999999999984 := by
    rw [div_le_iff₀ (pow_pos (by norm_num) _)]
    linarith
  exact length_inUnit_le letter (one_decimal (quotient_pos hs _) hx)

/-- Up to the terabytes the integer itself is a `double`. -/
theorem length_one_small {c u : Nat} (letter : Char) (hc : c ≤ 2 ^ 53) (h : s ≤ c)
    (hu : c * 10 ^ 15 ≤ 99949999999999984 * 10 ^ u) : (inUnit (double s) 1 (10 ^ u) letter).length ≤ 5 := by
  have hn := double_int_le (c := c) (i := 0) hs (by simpa using hc) (by simpa using h)
  have hu' : (c * 10 ^ 15 : ℚ) ≤ 99949999999999984 * 10 ^ u := by exact_mod_cast hu
  apply length_one hs letter
  rw [pow_zero, mul_one] at hn
  linarith

/-- Up to `99949999999999991` the integer is nearer to `99949999999999984`. -/
theorem length_one_peta (letter : Char) (h : s < 99949999999999992) :
    (inUnit (double s) 1 (10 ^ 15) letter).length ≤ 5 := by
  have hs' : (0 : ℚ) < s := by exact_mod_cast hs
  have h' : (s : ℚ) < 99949999999999992 := by exact_mod_cast h
  have hn : double s ≤ (6246874999999999 : ℤ) * 2 ^ (4 : ℤ) :=
    toPrecision_le_of_lt_middle hs' (by norm_num) (by norm_num) (lt_of_lt_of_le h' (by norm_num))
  apply length_one hs letter
  norm_num at hn ⊢
  linarith

end

theorem length_exa {s : Int} (hs : 0 < s) (h : s < 2 ^ 63) : (inUnit (double s) 2 (10 ^ 18) 'E').length ≤ 5 := by
  have hs' : (0 : ℚ) < s := by exact_mod_cast hs
  have h' : (s : ℚ) < 2 ^ 63 := by exact_mod_cast h
  have hn : double s ≤ (1 : ℤ) * 2 ^ (63 : ℤ) := toPrecision_le_of_le hs' (by norm_num) (h'.le.trans (by norm_num))
  have hx : double s / 10 ^ 18 ≤ 9.995 := by
    rw [div_le_iff₀ (pow_pos (by norm_num) _)]
    norm_num at hn ⊢
    linarith
  exact length_inUnit_le 'E' (two_decimals (quotient_pos hs 18) hx)

theorem length_ite_le {c : Prop} [Decidable c] {a b : Bytes} {n : Nat} (ha : c → a.length ≤ n)
    (hb : ¬ c → b.length ≤ n) :
    (if c then a else b).length ≤ n := by
  split
  next hc => exact ha hc
  next hc => exact hb hc

theorem formatSI_fits {s : Int} (h₀ : 0 ≤ s) (h₁ : s < 2 ^ 63)
    (hout : ¬(99949999999999992 ≤ s ∧ s ≤ 99949999999999999)) :
    (formatSI s).length ≤ 5 := by
  unfold formatSI snprintf
  refine (List.length_take_le' _ _).trans ?_
  by_cases hsmall : s < 1000
  · have hlen := length_decimal (n := s.natAbs) (k := 3) (by decide) (by omega)
    rw [if_pos hsmall, signed, if_neg (by omega), List.nil_append]
    omega
  have hs : 0 < s := by omega
  rw [if_neg hsmall]
  refine length_ite_le (fun h => length_two hs 0 'k' (by norm_num) h) fun _ => ?_
  refine length_ite_le (fun h => length_one_small (c := 99949) hs 'k' (by norm_num) (by omega) (by norm_num))
    fun _ => ?_
  refine length_ite_le (fun h => length_no hs 0 'k' (by norm_num) h) fun _ => ?_
  refine length_ite_le (fun h => length_two hs 3 'M' (by norm_num) h) fun _ => ?_
  refine length_ite_le (fun h => length_one_small (c := 99949999) hs 'M' (by norm_num) (by omega) (by norm_num))
    fun _ => ?_
  refine length_ite_le (fun h => length_no hs 3 'M' (by norm_num) h) fun _ => ?_
  refine length_ite_le (fun h => length_two hs 6 'G' (by norm_num) h) fun _ => ?_
  refine length_ite_le (fun h => length_one_small (c := 99949999999) hs 'G' (by norm_num) (by omega) (by norm_num))
    fun _ => ?_
  refine length_ite_le (fun h => length_no hs 6 'G' (by norm_num) h) fun _ => ?_
  refine length_ite_le (fun h => length_two hs 9 'T' (by norm_num) h) fun _ => ?_
  refine length_ite_le (fun h => length_one_small (c := 99949999999999) hs 'T' (by norm_num) (by omega) (by norm_num))
    fun _ => ?_
  refine length_ite_le (fun h => length_no hs 9 'T' (by norm_num) h) fun _ => ?_
  refine length_ite_le (fun h => length_two hs 12 'P' (by norm_num) h) fun _ => ?_
  refine length_ite_le (fun h => length_one_peta hs 'P' (by omega)) fun _ => ?_
  refine length_ite_le (fun h => length_no hs 12 'P' (by norm_num) h) fun _ => ?_
  exact length_exa hs h₁

/-! ## The numbers that do not fit -/

theorem double_wide {s : Int} (h₀ : 99949999999999992 ≤ s) (h₁ : s ≤ 99949999999999999) :
    double s = 99950000000000000 := by
  have hs : (0 : ℚ) < s := by exact_mod_cast (show 0 < s by omega)
  have hlow : (99949999999999992 : ℚ) ≤ s := by exact_mod_cast h₀
  apply le_antisymm
  · have hle := double_int_le (c := 9995) (i := 13) (show 0 < s by omega) (by norm_num) (by omega)
    norm_num at hle
    exact hle
  · have hge := le_toPrecision_of_middle_le (p := 52) (m := 6246875000000000) (k := 4) hs (by norm_num) (by norm_num)
      (le_trans (by norm_num) hlow) (.inl (by norm_num))
    norm_num at hge
    exact hge

/-- `99.95` is rounded up. -/
theorem double_quotient_wide : double (99950000000000000 / 10 ^ 15) = (7033355980557517 : ℤ) * 2 ^ (-46 : ℤ) := by
  apply le_antisymm
  · exact toPrecision_le_of_lt_middle (by norm_num) (by norm_num) (by norm_num) (by norm_num)
  · exact le_toPrecision_of_middle_le (by norm_num) (by norm_num) (by norm_num) (by norm_num) (.inr (by norm_num))

theorem fixed_wide : fixed 1 (double (99950000000000000 / 10 ^ 15)) = ascii "100.0" := by
  have hscaled : roundEven ((7033355980557517 : ℤ) * 2 ^ (-46 : ℤ) * 10 ^ 1) = 1000 := by
    apply le_antisymm
    · exact roundEven_le (by norm_num)
    · exact le_roundEven (by norm_num)
  rw [fixed, double_quotient_wide, hscaled]
  decide

theorem formatSI_peta {s : Int} (h₀ : 9995000000000000 ≤ s) (h₁ : s < 99950000000000000) :
    formatSI s = snprintf 64 (inUnit (double s) 1 (10 ^ 15) 'P') := by
  have hskip (t : Int) (ht : t ≤ 9995000000000000) : ¬ s < t := by omega
  unfold formatSI
  simp only [hskip 1000 (by decide), hskip 9995 (by decide), hskip 99950 (by decide), hskip 999500 (by decide),
    hskip 9995000 (by decide), hskip 99950000 (by decide), hskip 999500000 (by decide), hskip 9995000000 (by decide),
    hskip 99950000000 (by decide), hskip 999500000000 (by decide), hskip 9995000000000 (by decide),
    hskip 99950000000000 (by decide), hskip 999500000000000 (by decide), hskip 9995000000000000 (by decide), h₁,
    if_true, if_false]

/-- The eight numbers that are rounded up to `99950000000000000`. -/
theorem formatSI_wide {s : Int} (h₀ : 99949999999999992 ≤ s) (h₁ : s ≤ 99949999999999999) :
    formatSI s = ascii "100.0P" := by
  rw [formatSI_peta (by omega) (by omega), inUnit, double_wide h₀ h₁, fixed_wide]
  decide

/-- The column is wide enough for all but eight numbers. -/
theorem formatSI_fits_iff {s : Int} (h₀ : 0 ≤ s) (h₁ : s < 2 ^ 63) :
    (formatSI s).length ≤ 5 ↔ ¬(99949999999999992 ≤ s ∧ s ≤ 99949999999999999) := by
  constructor
  · rintro hlen ⟨hlow, hhigh⟩
    rw [formatSI_wide hlow hhigh] at hlen
    exact absurd hlen (by decide)
  · exact formatSI_fits h₀ h₁

theorem formatSI_fits_iff_max : (formatSI (2 ^ 63 - 1)).length ≤ 5 :=
  (formatSI_fits_iff (by norm_num) (by norm_num)).2 (by norm_num)

theorem formatSI_too_wide : formatSI 99949999999999999 = ascii "100.0P" ∧
    ¬ (formatSI 99949999999999999).length ≤ 5 := by
  rw [formatSI_wide (by norm_num) (by norm_num)]
  exact ⟨rfl, by decide⟩

end Zhengqi
