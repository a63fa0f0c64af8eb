import Zhengqi.DateSound
import Zhengqi.TimeZone

/-!
# Seconds and broken-down times

`toUtcTime` and `fromUtcTime` are inverse to each other on the seconds of the days of `InRange`, and
keep the order.
-/

namespace Zhengqi

open Run

namespace DateTime

def date (dt : DateTime) : YearMonthDay := ⟨dt.year, dt.month, dt.day⟩

structure Valid (dt : DateTime) : Prop where
  date : dt.date.Valid
  hour : 0 ≤ dt.hour ∧ dt.hour < 24
  minute : 0 ≤ dt.minute ∧ dt.minute < 60
  second : 0 ≤ dt.second ∧ dt.second < 60

def fields (dt : DateTime) : List Int := [dt.year, dt.month, dt.day, dt.hour, dt.minute, dt.second]

/-- The day since the epoch, and the second in it. -/
def days (dt : DateTime) : Int := dt.date.toDays + kJulianDayOfMarch - Date.kJulianDayOf1970_01_01

def secondsInDay (dt : DateTime) : Int := dt.hour * 3600 + dt.minute * 60 + dt.second

def ofDays (n s : Int) : DateTime :=
  let d := Calendar.Date.ofDays (n + Date.kJulianDayOf1970_01_01 - kJulianDayOfMarch)
  { year := d.year, month := d.month, day := d.day, hour := s / 60 / 60, minute := s / 60 % 60, second := s % 60 }

variable {dt : DateTime} {n s : Int}

theorem ofDays_valid (n : Int) (h₀ : 0 ≤ s) (h₁ : s < kSecondsPerDay) : (ofDays n s).Valid := by
  unfold kSecondsPerDay at h₁
  refine ⟨Calendar.Date.ofDays_valid _, ?_, ?_, ?_⟩
  · simp only [ofDays]
    omega
  · simp only [ofDays]
    omega
  · simp only [ofDays]
    omega

theorem days_ofDays (n s : Int) : (ofDays n s).days = n := by
  show Calendar.Date.toDays (Calendar.Date.ofDays _) + _ - _ = n
  rw [Calendar.Date.toDays_ofDays]
  omega

theorem secondsInDay_ofDays (n s : Int) : (ofDays n s).secondsInDay = s := by
  simp only [secondsInDay, ofDays]
  omega

theorem Valid.secondsInDay (h : dt.Valid) : 0 ≤ dt.secondsInDay ∧ dt.secondsInDay < kSecondsPerDay := by
  have hh := h.hour
  have hm := h.minute
  have hs := h.second
  unfold DateTime.secondsInDay kSecondsPerDay
  omega

theorem ofDays_days (h : dt.Valid) : ofDays dt.days dt.secondsInDay = dt := by
  have hd : dt.days + Date.kJulianDayOf1970_01_01 - kJulianDayOfMarch = dt.date.toDays := by
    rw [days]
    omega
  have hh := h.hour
  have hm := h.minute
  have hs := h.second
  simp only [ofDays]
  rw [hd, Calendar.Date.ofDays_toDays h.date]
  obtain ⟨year, month, day, hour, minute, second⟩ := dt
  simp only [date, DateTime.secondsInDay, mk.injEq, true_and] at hh hm hs ⊢
  omega

theorem fields_ofDays_lt {m r : Int} (h₀ : 0 ≤ s) (h₁ : s < kSecondsPerDay) (h₀' : 0 ≤ r) (h₁' : r < kSecondsPerDay)
    (h : n * kSecondsPerDay + s < m * kSecondsPerDay + r) : (ofDays n s).fields < (ofDays m r).fields := by
  unfold kSecondsPerDay at h₁ h₁' h
  rcases Int.lt_trichotomy n m with hn | rfl | hn
  · -- the dates are apart
    have hdate := Calendar.Date.fields_ofDays_lt
      (show n + Date.kJulianDayOf1970_01_01 - kJulianDayOfMarch <
        m + Date.kJulianDayOf1970_01_01 - kJulianDayOfMarch by omega)
    simp only [Calendar.Date.fields, List.cons_lt_cons_iff, List.not_lt_nil, and_false, or_false] at hdate
    simp only [fields, ofDays, List.cons_lt_cons_iff]
    rcases hdate with hy | ⟨hy, hm | ⟨hm, hd⟩⟩
    · exact .inl hy
    · exact .inr ⟨hy, .inl hm⟩
    · exact .inr ⟨hy, .inr ⟨hm, .inl hd⟩⟩
  · simp only [fields, ofDays, List.cons_lt_cons_iff, List.not_lt_nil, and_false, or_false]
    simp only [Int.lt_irrefl, true_and, false_or]
    omega
  · omega

end DateTime

/-! ## The conversions -/

/-- The seconds of the days of `InRange`. -/
def SecondInRange (t : Int) : Prop := -2472632 * 86400 ≤ t ∧ t ≤ (536838867 - 2440588) * 86400 + 86399

instance (t : Int) : Decidable (SecondInRange t) := inferInstanceAs (Decidable (_ ∧ _))

theorem secondInRange_iff {n s : Int} (h₀ : 0 ≤ s) (h₁ : s < kSecondsPerDay) :
    SecondInRange (n * kSecondsPerDay + s) ↔ InRange (n + Date.kJulianDayOf1970_01_01) := by
  unfold SecondInRange InRange
  unfold kSecondsPerDay at h₁ ⊢
  unfold Date.kJulianDayOf1970_01_01
  omega

/-- The truncating operators, with the correction behind them, are the flooring ones. -/
theorem tdivmod_cases {n s : Int} (h₀ : 0 ≤ s) (h₁ : s < kSecondsPerDay) :
    (n * kSecondsPerDay + s).tmod kSecondsPerDay = s ∧ (n * kSecondsPerDay + s).tdiv kSecondsPerDay = n ∨
      (n * kSecondsPerDay + s).tmod kSecondsPerDay = s - kSecondsPerDay ∧
        (n * kSecondsPerDay + s).tdiv kSecondsPerDay = n + 1 := by
  unfold kSecondsPerDay at h₁ ⊢
  rw [Int.tmod_eq_emod, Int.tdiv_eq_ediv]
  by_cases hpos : 0 ≤ n * (24 * 60 * 60) + s ∨ 24 * 60 * 60 ∣ n * (24 * 60 * 60) + s
  · rw [if_pos hpos, if_pos hpos]
    left
    omega
  · rw [if_neg hpos, if_neg hpos]
    right
    have hsign : (24 * 60 * 60 : Int).sign = 1 := rfl
    have habs : ((24 * 60 * 60 : Int).natAbs : Int) = 24 * 60 * 60 := rfl
    rw [hsign, habs]
    omega

theorem breakTime_eq {n s : Int} (h₀ : 0 ≤ s) (h₁ : s < kSecondsPerDay)
    (hn : InRange (n + Date.kJulianDayOf1970_01_01)) :
    breakTime (n * kSecondsPerDay + s) = .ok (.ofDays n s) := by
  have hymd := getYearMonthDay_eq hn
  obtain ⟨hn₀, hn₁⟩ := hn
  have hu : toUnsigned s = s := Int.emod_eq_of_lt h₀ (by unfold kSecondsPerDay at h₁; omega)
  have hdate : int (n + Date.kJulianDayOf1970_01_01) = .ok (n + Date.kJulianDayOf1970_01_01) := int_of (by omega)
  unfold breakTime
  unfold kSecondsPerDay at h₁
  unfold Date.kJulianDayOf1970_01_01 at hn₀ hn₁
  rcases tdivmod_cases (n := n) h₀ h₁ with ⟨hmod, hdiv⟩ | ⟨hmod, hdiv⟩
  · rw [hmod, hdiv, toInt_of (x := s) (by omega) (by omega), toInt_of (x := n) (by omega) (by omega), if_neg (by omega)]
    simp only [pure_eq_ok, ok_bind, hu, hdate, Date.yearMonthDay, hymd]
    rfl
  · rw [hmod, hdiv, toInt_of (x := s - kSecondsPerDay) (by unfold kSecondsPerDay; omega)
      (by unfold kSecondsPerDay; omega),
      toInt_of (x := n + 1) (by omega) (by omega), if_pos (by unfold kSecondsPerDay; omega), Int.sub_add_cancel,
      Int.add_sub_cancel, int_of (x := s) (by omega), int_of (x := n) (by omega)]
    simp only [pure_eq_ok, ok_bind, hu, hdate, Date.yearMonthDay, hymd]
    rfl

theorem fromUtcTime_eq {dt : DateTime} (h : dt.Valid) (hn : InRange (dt.days + Date.kJulianDayOf1970_01_01)) :
    TimeZone.fromUtcTime dt = .ok (dt.days * kSecondsPerDay + dt.secondsInDay) := by
  have hj : dt.days + Date.kJulianDayOf1970_01_01 = dt.date.toDays + kJulianDayOfMarch := by
    rw [DateTime.days]
    omega
  have hjdn := getJulianDayNumber_eq h.date (by rwa [← hj])
  obtain ⟨hn₀, hn₁⟩ := hn
  rw [← hj] at hjdn
  simp only [DateTime.date] at hjdn
  have hh := h.hour
  have hm := h.minute
  have hs := h.second
  obtain ⟨hs₀, hs₁⟩ := h.secondsInDay
  have hdays : dt.days + Date.kJulianDayOf1970_01_01 - Date.kJulianDayOf1970_01_01 = dt.days := by omega
  unfold Date.kJulianDayOf1970_01_01 at hn₀ hn₁
  unfold kSecondsPerDay at hs₁
  unfold TimeZone.fromUtcTime Date.ofYmd
  rw [hjdn, ok_bind]
  simp only [pure_eq_ok, ok_bind]
  rw [int_of (x := dt.hour * 3600) (by omega), ok_bind, int_of (x := dt.minute * 60) (by omega), ok_bind,
    int_of (x := dt.hour * 3600 + dt.minute * 60) (by omega), ok_bind, ← DateTime.secondsInDay,
    int_of (x := dt.secondsInDay) (by omega), ok_bind,
    hdays, int_of (x := dt.days) (by omega), ok_bind, int64_of (x := dt.days * kSecondsPerDay)
    (by unfold kSecondsPerDay; omega), ok_bind, int64_of (by unfold kSecondsPerDay; omega)]

theorem ofDays_seconds {t : Int} :
    t = t / kSecondsPerDay * kSecondsPerDay + t % kSecondsPerDay ∧ 0 ≤ t % kSecondsPerDay ∧
    t % kSecondsPerDay < kSecondsPerDay := by
  unfold kSecondsPerDay
  omega

theorem toUtcTime_eq {t : Int} (h : SecondInRange t) :
    TimeZone.toUtcTime t = .ok (.ofDays (t / kSecondsPerDay) (t % kSecondsPerDay)) := by
  obtain ⟨ht, h₀, h₁⟩ := ofDays_seconds (t := t)
  rw [ht, secondInRange_iff h₀ h₁] at h
  rw [TimeZone.toUtcTime]
  nth_rewrite 1 [ht]
  exact breakTime_eq h₀ h₁ h

theorem utcTime_inverse {t : Int} (h : SecondInRange t) :
    ∃ dt, TimeZone.toUtcTime t = .ok dt ∧ TimeZone.fromUtcTime dt = .ok t ∧ dt.Valid := by
  obtain ⟨ht, hs₀, hs₁⟩ := ofDays_seconds (t := t)
  have hv := DateTime.ofDays_valid (t / kSecondsPerDay) hs₀ hs₁
  refine ⟨_, toUtcTime_eq h, ?_, hv⟩
  rw [fromUtcTime_eq hv, DateTime.days_ofDays, DateTime.secondsInDay_ofDays, ← ht]
  rw [DateTime.days_ofDays, ← secondInRange_iff hs₀ hs₁, ← ht]
  exact h

/-- A broken-down time between the first and the last one stands for a second of the range. -/
theorem secondInRange_of_fields {dt : DateTime} (h : dt.Valid) (hlo : [-4800, 3, 1, 0, 0, 0] ≤ dt.fields)
    (hhi : dt.fields ≤ [1465102, 10, 18, 23, 59, 59]) : SecondInRange (dt.days * kSecondsPerDay + dt.secondsInDay) := by
  obtain ⟨h₀, h₁⟩ := h.secondsInDay
  constructor
  · by_contra hlt
    have hless := DateTime.fields_ofDays_lt (n := dt.days) (m := -2472632) (r := 0) h₀ h₁ (by decide) (by decide)
      (by unfold kSecondsPerDay at hlt ⊢; omega)
    rw [DateTime.ofDays_days h] at hless
    exact absurd hlo (not_le_of_gt hless)
  · by_contra hlt
    have hless := DateTime.fields_ofDays_lt (n := 536838867 - 2440588) (m := dt.days) (s := 86399)
      (by decide) (by decide) h₀ h₁
      (by unfold kSecondsPerDay at hlt ⊢; omega)
    rw [DateTime.ofDays_days h] at hless
    exact absurd hhi (not_le_of_gt hless)

/-- Breaking a second down and putting it together are inverse to each other and keep the order. -/
theorem utc_times_of_seconds :
    (∀ t, SecondInRange t → ∃ dt, TimeZone.toUtcTime t = .ok dt ∧ dt.Valid ∧ TimeZone.fromUtcTime dt = .ok t) ∧
    (∀ dt : DateTime, dt.Valid → [-4800, 3, 1, 0, 0, 0] ≤ dt.fields → dt.fields ≤ [1465102, 10, 18, 23, 59, 59] →
      ∃ t, TimeZone.fromUtcTime dt = .ok t ∧ TimeZone.toUtcTime t = .ok dt) ∧
    ∀ t₁ t₂, SecondInRange t₁ → SecondInRange t₂ → t₁ < t₂ →
      ∃ dt₁ dt₂, TimeZone.toUtcTime t₁ = .ok dt₁ ∧ TimeZone.toUtcTime t₂ = .ok dt₂ ∧ dt₁.fields < dt₂.fields := by
  refine ⟨fun t h => ?_, fun dt h hlo hhi => ?_, fun t₁ t₂ h₁ h₂ hlt => ?_⟩
  · obtain ⟨dt, hdt, hback, hv⟩ := utcTime_inverse h
    exact ⟨dt, hdt, hv, hback⟩
  · have hr := secondInRange_of_fields h hlo hhi
    obtain ⟨hs₀, hs₁⟩ := h.secondsInDay
    rw [secondInRange_iff hs₀ hs₁] at hr
    refine ⟨_, fromUtcTime_eq h hr, ?_⟩
    rw [TimeZone.toUtcTime, breakTime_eq hs₀ hs₁ hr, DateTime.ofDays_days h]
  · obtain ⟨ht₁, h₁₀, h₁₁⟩ := ofDays_seconds (t := t₁)
    obtain ⟨ht₂, h₂₀, h₂₁⟩ := ofDays_seconds (t := t₂)
    refine ⟨_, _, toUtcTime_eq h₁, toUtcTime_eq h₂, DateTime.fields_ofDays_lt h₁₀ h₁₁ h₂₀ h₂₁ ?_⟩
    rw [← ht₁, ← ht₂]
    exact hlt

/-- The last second of 1969, and the first of 1970. -/
theorem utc_times_of_seconds_epoch :
    TimeZone.toUtcTime (-1) = .ok ⟨1969, 12, 31, 23, 59, 59⟩ ∧
      TimeZone.fromUtcTime ⟨1969, 12, 31, 23, 59, 59⟩ = .ok (-1) ∧
      ∃ dt₁ dt₂, TimeZone.toUtcTime (-1) = .ok dt₁ ∧ TimeZone.toUtcTime 0 = .ok dt₂ ∧ dt₁.fields < dt₂.fields := by
  obtain ⟨hto, -, hlt⟩ := utc_times_of_seconds
  obtain ⟨dt, hdt, -, hback⟩ := hto (-1) (by decide)
  have hlast : TimeZone.toUtcTime (-1) = .ok ⟨1969, 12, 31, 23, 59, 59⟩ := by decide
  obtain rfl : dt = ⟨1969, 12, 31, 23, 59, 59⟩ := Except.ok.inj (hdt.symm.trans hlast)
  exact ⟨hdt, hback, hlt (-1) 0 (by decide) (by decide) (by decide)⟩

end Zhengqi
