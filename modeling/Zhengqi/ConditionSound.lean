import Mathlib.Tactic.NormNum
import Zhengqi.Condition

/-!
# The deadline of a timed wait

The seconds are carried in units of `1000000000` nanoseconds, but what is left is taken modulo the wait. The two
agree for whole seconds, and otherwise only when the wait divides a second and the carry is one.
-/

namespace Zhengqi.Condition

open Run Rounding

variable {t : Timespec} {ns : Int}

/-- A time that is `ns` nanoseconds after `t`. -/
structure After (t : Timespec) (ns : Int) (t' : Timespec) : Prop where
  nonneg : 0 ≤ t'.tvNsec
  lt : t'.tvNsec < kNanoSecondsPerSecond
  eq : t'.tvSec * kNanoSecondsPerSecond + t'.tvNsec = t.tvSec * kNanoSecondsPerSecond + t.tvNsec + ns

section
variable (h₀ : 0 ≤ t.tvNsec) (h₁ : t.tvNsec < kNanoSecondsPerSecond) (hns : 0 ≤ ns)

include h₀ hns in
theorem absoluteTime_ok (hsec : -2 ^ 63 ≤ t.tvSec) {t' : Timespec} : absoluteTime t ns = .ok t' ↔
    (t.tvNsec + ns < 2 ^ 63 ∧ t.tvSec + (t.tvNsec + ns) / kNanoSecondsPerSecond < 2 ^ 63) ∧ ns ≠ 0 ∧
      t' = ⟨t.tvSec + (t.tvNsec + ns) / kNanoSecondsPerSecond, (t.tvNsec + ns) % ns⟩ := by
  have hsum : 0 ≤ t.tvNsec + ns := by omega
  have hcarry : 0 ≤ (t.tvNsec + ns) / kNanoSecondsPerSecond := Int.ediv_nonneg hsum (by decide)
  unfold absoluteTime
  simp only [bind_ok, int64_ok, check_ok, pure_eq_ok, Except.ok.injEq]
  constructor
  · rintro ⟨sum, ⟨⟨-, hlt⟩, rfl⟩, sec, ⟨⟨-, hlt'⟩, rfl⟩, -, hne, rfl⟩
    rw [Int.tdiv_eq_ediv_of_nonneg hsum] at hlt' ⊢
    rw [Int.tmod_eq_emod_of_nonneg hsum]
    exact ⟨⟨hlt, hlt'⟩, hne, rfl⟩
  · rintro ⟨⟨hlt, hlt'⟩, hne, rfl⟩
    refine ⟨_, ⟨⟨by omega, hlt⟩, rfl⟩, _, ⟨⟨?_, ?_⟩, rfl⟩, (), hne, ?_⟩
    · rw [Int.tdiv_eq_ediv_of_nonneg hsum]
      omega
    · rwa [Int.tdiv_eq_ediv_of_nonneg hsum]
    · rw [Int.tdiv_eq_ediv_of_nonneg hsum, Int.tmod_eq_emod_of_nonneg hsum]

include h₀ h₁ in
/-- The remainder gives back the nanoseconds of `t`, so nothing but whole seconds may be added. -/
theorem mod_eq_iff_of_lt (hlong : t.tvNsec < ns) : (t.tvNsec + ns) % ns = (t.tvNsec + ns) % kNanoSecondsPerSecond ↔
    kNanoSecondsPerSecond ∣ ns := by
  rw [Int.add_emod_right, Int.emod_eq_of_lt h₀ hlong]
  unfold kNanoSecondsPerSecond at h₁ ⊢
  constructor
  · intro heq
    omega
  · intro hdvd
    omega

include h₀ h₁ in
/-- A wait of less than a second, with the carry. -/
theorem mod_eq_iff_of_carry (hshort : ns ≤ t.tvNsec) (hcarry : kNanoSecondsPerSecond ≤ t.tvNsec + ns) :
    (t.tvNsec + ns) % ns = (t.tvNsec + ns) % kNanoSecondsPerSecond ↔ ns ∣ kNanoSecondsPerSecond := by
  unfold kNanoSecondsPerSecond at h₁ hcarry ⊢
  have hmod : (t.tvNsec + ns) % 1000000000 = t.tvNsec + ns - 1000000000 := by omega
  rw [Int.add_emod_right, hmod]
  constructor
  · intro heq
    have hdvd := Int.dvd_self_sub_of_emod_eq heq
    have hsum : (1000000000 : Int) = t.tvNsec - (t.tvNsec + ns - 1000000000) + ns := by omega
    exact hsum ▸ dvd_add hdvd dvd_rfl
  · rintro ⟨q, hq⟩
    have hshift : t.tvNsec + ns - 1000000000 = t.tvNsec + ns * (1 - q) := by
      rw [hq]
      ring
    have hself := Int.emod_eq_of_lt (show 0 ≤ t.tvNsec + ns - 1000000000 by omega)
      (show t.tvNsec + ns - 1000000000 < ns by omega)
    rw [← hself, hshift, Int.add_mul_emod_self_left]

include h₀ h₁ hns in
/-- Where the two moduli leave the same. -/
theorem mod_eq_iff (hne : ns ≠ 0) : (t.tvNsec + ns) % ns = (t.tvNsec + ns) % kNanoSecondsPerSecond ↔
    kNanoSecondsPerSecond ∣ ns ∨ ns ∣ kNanoSecondsPerSecond ∧ kNanoSecondsPerSecond ≤ t.tvNsec + ns := by
  have hk : kNanoSecondsPerSecond = 1000000000 := rfl
  by_cases hlong : t.tvNsec < ns
  · rw [mod_eq_iff_of_lt h₀ h₁ hlong]
    refine ⟨.inl, fun h => h.elim id fun ⟨⟨q, hq⟩, hcarry⟩ => ?_⟩
    -- the wait is more than half a second, so it is the whole
    have hpos : 0 < q := by
      by_contra hle
      nlinarith
    have hlt : q < 2 := by
      by_contra hle
      nlinarith
    obtain rfl : q = 1 := by omega
    rw [hq, mul_one]
  · have hnot : ¬ kNanoSecondsPerSecond ∣ ns := fun hdvd => by
      have := Int.le_of_dvd (by omega) hdvd
      omega
    by_cases hcarry : kNanoSecondsPerSecond ≤ t.tvNsec + ns
    · rw [mod_eq_iff_of_carry h₀ h₁ (by omega) hcarry]
      simp only [hnot, hcarry, false_or, and_true]
    · have hlt := Int.emod_lt_of_pos t.tvNsec (show 0 < ns by omega)
      rw [Int.add_emod_right, Int.emod_eq_of_lt (by omega) (show t.tvNsec + ns < kNanoSecondsPerSecond by omega)]
      simp only [hnot, hcarry, and_false, or_self, iff_false]
      omega

end

/-- A wait ends at the right time exactly when the sums fit their types, the wait is not zero, and it is of whole
seconds, or divides a second and carries. -/
theorem waitForSeconds_right_iff {seconds : ℚ} (hns : nanoseconds seconds = .ok ns) (h₀ : 0 ≤ t.tvNsec)
    (h₁ : t.tvNsec < kNanoSecondsPerSecond) (hnonneg : 0 ≤ ns) (hsec : -2 ^ 63 ≤ t.tvSec) :
    (∃ t', waitForSeconds t seconds = .ok t' ∧ After t ns t') ↔
      (t.tvNsec + ns < 2 ^ 63 ∧ t.tvSec + (t.tvNsec + ns) / kNanoSecondsPerSecond < 2 ^ 63) ∧ ns ≠ 0 ∧
        (kNanoSecondsPerSecond ∣ ns ∨ ns ∣ kNanoSecondsPerSecond ∧ kNanoSecondsPerSecond ≤ t.tvNsec + ns) := by
  have hwait : waitForSeconds t seconds = absoluteTime t ns := by rw [waitForSeconds, hns, ok_bind]
  have hdiv := Int.mul_ediv_add_emod (t.tvNsec + ns) kNanoSecondsPerSecond
  rw [hwait]
  constructor
  · rintro ⟨t', ht', hafter⟩
    obtain ⟨hfit, hne, rfl⟩ := (absoluteTime_ok h₀ hnonneg hsec).1 ht'
    refine ⟨hfit, hne, (mod_eq_iff h₀ h₁ hnonneg hne).1 ?_⟩
    have heq := hafter.eq
    simp only [add_mul] at heq
    linarith
  · rintro ⟨hfit, hne, hmod⟩
    rw [← mod_eq_iff h₀ h₁ hnonneg hne] at hmod
    refine ⟨_, (absoluteTime_ok h₀ hnonneg hsec).2 ⟨hfit, hne, rfl⟩, ?_, ?_, ?_⟩
    · exact Int.emod_nonneg _ hne
    · simp only [hmod]
      exact Int.emod_lt_of_pos _ (by decide)
    · simp only [hmod, add_mul]
      linarith

/-- The nanoseconds of a number of seconds whose product is a `double`. -/
theorem nanoseconds_eq {seconds : ℚ} {m k : ℤ} (hm : 2 ^ 52 < m) (hm' : m ≤ 2 ^ 53)
    (h : seconds * kNanoSecondsPerSecond = m * 2 ^ k) (hns : (m * 2 ^ k : ℚ) = ns) (h₀ : 0 ≤ ns) (h₁ : ns < 2 ^ 63) :
    nanoseconds seconds = .ok ns := by
  have hdouble : double (seconds * kNanoSecondsPerSecond) = ns := by
    rw [h, double, toPrecision_self k hm hm', hns]
  have hnonneg : ¬((ns : ℚ) < 0) := not_lt.2 (by exact_mod_cast h₀)
  rw [nanoseconds, hdouble, truncated, if_neg hnonneg, Int.floor_intCast, int64_of ⟨by omega, h₁⟩]

theorem nanoseconds_zero : nanoseconds 0 = .ok 0 := by
  have hdouble : double (0 * kNanoSecondsPerSecond) = 0 := by
    simp [double, toPrecision, roundEven]
  rw [nanoseconds, hdouble, truncated, if_neg (lt_irrefl _), Int.floor_zero, int64_of ⟨by decide, by decide⟩]

theorem waitForSeconds_right_iff_flush : ∃ t', waitForSeconds ⟨100, 5⟩ 3 = .ok t' ∧ After ⟨100, 5⟩ 3000000000 t' :=
  (waitForSeconds_right_iff (@nanoseconds_eq 3000000000 3 6291456000000000 (-21) (by norm_num) (by norm_num)
    (by norm_num [kNanoSecondsPerSecond]) (by norm_num) (by norm_num) (by norm_num)) (by decide) (by decide) (by decide)
    (by decide)).2 ⟨by decide, by decide, .inl (by decide)⟩

/-- Half a second from the start of a second is over at once, and no wait at all divides by zero. -/
theorem half_second_never_waits :
    (waitForSeconds ⟨100, 0⟩ (1 / 2) = .ok ⟨100, 0⟩ ∧ ¬ After ⟨100, 0⟩ 500000000 ⟨100, 0⟩) ∧
    waitForSeconds ⟨100, 0⟩ 0 = .error .divisionByZero := by
  have hhalf := @nanoseconds_eq 500000000 (1 / 2) 8388608000000000 (-24) (by norm_num) (by norm_num)
    (by norm_num [kNanoSecondsPerSecond]) (by norm_num) (by norm_num) (by norm_num)
  refine ⟨⟨?_, fun hafter => ?_⟩, ?_⟩
  · rw [waitForSeconds, hhalf]
    rfl
  · exact absurd hafter.eq (by decide)
  · rw [waitForSeconds, nanoseconds_zero]
    rfl

end Zhengqi.Condition
