import Zhengqi.FormatSISound

/-!
# formatIEC

`formatIEC` of `utility/LogStream.cpp`. A quotient by a power of two is exact, so that a number below a limit stays
below it, and the text of `formatIEC` always has its column.
-/

namespace Zhengqi

open Rounding

/-- The three branches of a unit, and what comes after them. -/
def inBinaryUnit (n unit : ℚ) (letter : Char) (rest : Bytes) : Bytes :=
  if n < double (unit * double 9.995) then inUnit n 2 unit letter ++ [chr 'i']
  else if n < double (unit * double 99.95) then inUnit n 1 unit letter ++ [chr 'i']
  else if n < double (unit * double 1023.5) then inUnit n 0 unit letter ++ [chr 'i']
  else rest

def formatIEC (s : Int) : Bytes :=
  let n := double s
  let Ki : ℚ := 1024
  let Mi := double (Ki * 1024)
  let Gi := double (Mi * 1024)
  let Ti := double (Gi * 1024)
  let Pi := double (Ti * 1024)
  let Ei := double (Pi * 1024)
  snprintf 64 <|
    if n < Ki then signed s
    else
      inBinaryUnit n Ki 'K' <| inBinaryUnit n Mi 'M' <| inBinaryUnit n Gi 'G' <|
      inBinaryUnit n Ti 'T' <| inBinaryUnit n Pi 'P' <|
      if n < double (Ei * double 9.995) then inUnit n 2 Ei 'E' ++ [chr 'i'] else inUnit n 1 Ei 'E' ++ [chr 'i']

/-! ## The limits -/

theorem double_zpow (k : ℤ) : double (2 ^ k) = 2 ^ k := by
  have h := toPrecision_self (p := 52) (m := 2 ^ 53) (k - 53) (by norm_num) (by norm_num)
  have hk : ((2 ^ 53 : ℤ) : ℚ) * 2 ^ (k - 53) = 2 ^ k := by
    rw [Int.cast_pow, Int.cast_ofNat, pow_mul_zpow]
    norm_num
  rwa [hk] at h

/-- A unit times a `double` of full length is exact. -/
theorem double_unit_mul {m : ℤ} {j : ℤ} (u : ℤ) (hm : 2 ^ 52 < m) (hm' : m ≤ 2 ^ 53) :
    double (2 ^ u * (m * 2 ^ j)) = m * 2 ^ (j + u) := by
  have h : (2 : ℚ) ^ u * (m * 2 ^ j) = m * 2 ^ (j + u) := by
    rw [zpow_add₀ two_ne_zero]
    ring
  rw [h]
  exact toPrecision_self (j + u) hm hm'

theorem double_nine : double 9.995 = (5626684784446013 : ℤ) * 2 ^ (-49 : ℤ) := by
  apply le_antisymm
  · exact toPrecision_le_of_lt_middle (by norm_num) (by norm_num) (by norm_num) (by norm_num)
  · exact le_toPrecision_of_middle_le (by norm_num) (by norm_num) (by norm_num) (by norm_num) (.inr (by norm_num))

theorem double_ninety_nine : double 99.95 = (7033355980557517 : ℤ) * 2 ^ (-46 : ℤ) := by
  apply le_antisymm
  · exact toPrecision_le_of_lt_middle (by norm_num) (by norm_num) (by norm_num) (by norm_num)
  · exact le_toPrecision_of_middle_le (by norm_num) (by norm_num) (by norm_num) (by norm_num) (.inr (by norm_num))

theorem double_thousand : double 1023.5 = (9002801208229888 : ℤ) * 2 ^ (-43 : ℤ) := by
  have h := toPrecision_self (p := 52) (m := 9002801208229888) (-43) (by norm_num) (by norm_num)
  have hv : ((9002801208229888 : ℤ) : ℚ) * 2 ^ (-43 : ℤ) = 1023.5 := by norm_num
  rw [hv] at h ⊢
  exact h

/-! ## The branches -/

section
variable {s : Int} {u : ℤ} (hs : 0 < s)
include hs

theorem binary_quotient_pos (u : ℤ) : 0 < double s / 2 ^ u :=
  div_pos (double_pos (by exact_mod_cast hs)) (two_zpow_pos u)

/-- A quotient keeps below what its unit keeps below. -/
theorem double_quotient_le {m j : ℤ} (hm : m ≤ 2 ^ 53) (h : double s ≤ m * 2 ^ (j + u)) :
    double (double s / 2 ^ u) ≤ m * 2 ^ j := by
  apply toPrecision_le_of_le (binary_quotient_pos hs u) hm
  rwa [div_le_iff₀ (two_zpow_pos u), mul_assoc, ← zpow_add₀ two_ne_zero]

omit hs in
theorem length_binary_le {digits : Nat} (letter : Char) (h : (fixed digits (double (double s / 2 ^ u))).length ≤ 4) :
    (inUnit (double s) digits (2 ^ u) letter ++ [chr 'i']).length ≤ 6 := by
  rw [List.length_append, List.length_singleton]
  exact Nat.succ_le_succ (length_inUnit_le letter h)

theorem length_inBinaryUnit (u : ℤ) (letter : Char) {rest : Bytes} (hrest : rest.length ≤ 6) :
    (inBinaryUnit (double s) (2 ^ u) letter rest).length ≤ 6 := by
  unfold inBinaryUnit
  rw [double_nine, double_ninety_nine, double_thousand, double_unit_mul u (by norm_num) (by norm_num),
    double_unit_mul u (by norm_num) (by norm_num), double_unit_mul u (by norm_num) (by norm_num)]
  refine length_ite_le (fun h => ?_) fun _ => length_ite_le (fun h => ?_) fun _ => length_ite_le (fun h => ?_)
    fun _ => hrest
  · have hle := double_quotient_le hs (by norm_num) h.le
    refine length_binary_le letter (length_fixed_le (j := 1) (by decide) ?_)
    norm_num at hle ⊢
    linarith
  · -- the limit is more than `99.95`, and the number before it is less
    have hpred := toPrecision_le_pred (p := 52) (by exact_mod_cast hs) (by norm_num) h
    have hle := double_quotient_le hs (by norm_num) hpred
    refine length_binary_le letter (length_fixed_le (j := 2) (by decide) ?_)
    norm_num at hle ⊢
    linarith
  · have hle := double_quotient_le hs (by norm_num) h.le
    refine length_binary_le letter (length_fixed_le (j := 4) (by decide) ?_)
    norm_num at hle ⊢
    linarith

/-- There are less than eight of the last unit. -/
theorem length_exbi (h : s < 2 ^ 63) :
    (inUnit (double s) 2 (2 ^ (60 : ℤ)) 'E' ++ [chr 'i']).length ≤ 6 ∧
      (inUnit (double s) 1 (2 ^ (60 : ℤ)) 'E' ++ [chr 'i']).length ≤ 6 := by
  have h' : (s : ℚ) ≤ (1 : ℤ) * 2 ^ ((3 : ℤ) + 60) := by
    have : (s : ℚ) < 2 ^ 63 := by exact_mod_cast h
    norm_num at this ⊢
    linarith
  have hn : double s ≤ (1 : ℤ) * 2 ^ ((3 : ℤ) + 60) := toPrecision_le_of_le (by exact_mod_cast hs) (by norm_num) h'
  have hle := double_quotient_le hs (by norm_num) hn
  constructor
  · refine length_binary_le 'E' (length_fixed_le (j := 1) (by decide) ?_)
    norm_num at hle ⊢
    linarith
  · refine length_binary_le 'E' ((length_fixed_le (j := 1) (by decide) ?_).trans (by decide))
    norm_num at hle ⊢
    linarith

end

theorem double_ge_kibi {s : Int} (h : 1024 ≤ s) : 1024 ≤ double s := by
  have hs : (1024 : ℚ) ≤ s := by exact_mod_cast h
  have hge := le_toPrecision_of_middle_le (p := 52) (m := 2 ^ 53) (k := -43) (by linarith) (by norm_num) (by norm_num)
    (le_trans (by norm_num) hs) (.inl (by norm_num))
  norm_num at hge
  exact hge

/-- Whatever the number, the text has at most six characters: four for the number and two for the unit. -/
theorem formatIEC_fits (s : Int) (h₀ : 0 ≤ s) (h₁ : s < 2 ^ 63) : (formatIEC s).length ≤ 6 := by
  have hKi : (1024 : ℚ) = 2 ^ (10 : ℤ) := by norm_num
  have hnext (u : ℤ) : double ((2 : ℚ) ^ u * 2 ^ (10 : ℤ)) = 2 ^ (u + 10) := by
    rw [← zpow_add₀ two_ne_zero, double_zpow]
  unfold formatIEC snprintf
  refine (List.length_take_le' _ _).trans ?_
  refine length_ite_le (fun h => ?_) fun h => ?_
  · have hlt : s < 1024 := by
      by_contra hge
      exact absurd h (not_lt.2 (double_ge_kibi (not_lt.1 hge)))
    have hlen := length_decimal (n := s.natAbs) (k := 4) (by decide) (by omega)
    rw [signed, if_neg (by omega), List.nil_append]
    omega
  · have hs : 0 < s := by
      rcases h₀.lt_or_eq with hs | hz
      · exact hs
      · rw [← hz] at h
        exact absurd (by norm_num [double, toPrecision, roundEven]) h
    simp only [hKi, hnext]
    obtain ⟨htwo, hone⟩ := length_exbi hs h₁
    refine length_inBinaryUnit hs _ 'K' (length_inBinaryUnit hs _ 'M' (length_inBinaryUnit hs _ 'G'
      (length_inBinaryUnit hs _ 'T' (length_inBinaryUnit hs _ 'P' (length_ite_le (fun _ => ?_) fun _ => ?_)))))
    · norm_num at htwo ⊢
      exact htwo
    · norm_num at hone ⊢
      exact hone

theorem formatIEC_fits_max : (formatIEC (2 ^ 63 - 1)).length ≤ 6 := formatIEC_fits _ (by norm_num) (by norm_num)

end Zhengqi
