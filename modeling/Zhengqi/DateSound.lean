import Zhengqi.Date
import Mathlib.Logic.Function.Iterate

/-!
# The day numbers are those of the calendar

Between the day numbers whose fourfold an `int` holds, `getYearMonthDay` and `getJulianDayNumber`
are the conversions of `Calendar.Date`, from 1 March of the year -4800 on.
-/

namespace Zhengqi

open Run Calendar

/-- The day numbers for which `getYearMonthDay` stays within `int`. -/
def InRange (j : Int) : Prop := 0 ≤ j + 32044 ∧ 4 * (j + 32044) + 3 ≤ 2 ^ 31 - 1

instance (j : Int) : Decidable (InRange j) := inferInstanceAs (Decidable (_ ∧ _))

/-- The day number of 1 March of the year 0. -/
def kJulianDayOfMarch : Int := 1721120

theorem getYearMonthDay_parts {j a b c y e m : Int} (hj : InRange j) (ha : j + 32044 = a)
    (hb : (4 * a + 3) / 146097 = b)
    (hc : a - 146097 * b / 4 = c) (hy : (4 * c + 3) / 1461 = y) (he : c - 1461 * y / 4 = e)
    (hm : (5 * e + 2) / 153 = m) :
    getYearMonthDay j = .ok ⟨b * 100 + y - 4800 + m / 10, m + 3 - 12 * (m / 10), e - (153 * m + 2) / 5 + 1⟩ := by
  obtain ⟨h₀, h₁⟩ := hj
  rw [ha] at h₀ h₁
  obtain ⟨hc₀, hc₁, -, -⟩ := Parts.century_bounds hb hc
  obtain ⟨hy₀, hy₁, he₀, he₁, -, -⟩ := Parts.year_bounds hc₀ hc₁ hy he
  obtain ⟨hm₀, hm₁, hd₀, hd₁⟩ := Parts.month_bounds he₀ he₁ hm
  have hb₀ : 0 ≤ b := by omega
  have hb₁ : b * 146097 ≤ 4 * a + 3 := by omega
  rw [← Int.tdiv_eq_ediv_of_nonneg (by omega)] at hb hy hm
  rw [Int.mul_comm, ← Int.tdiv_eq_ediv_of_nonneg (by omega)] at hc
  rw [← Int.tdiv_eq_ediv_of_nonneg (by omega)] at he
  have hd : (153 * m + 2).tdiv 5 = (153 * m + 2) / 5 := Int.tdiv_eq_ediv_of_nonneg (by omega)
  have h10 : m.tdiv 10 = m / 10 := Int.tdiv_eq_ediv_of_nonneg hm₀
  have hok : ∀ x, -4800 ≤ x → x < 2 ^ 31 → int x = .ok x := fun x h₀ h₁ => int_of ⟨by omega, h₁⟩
  unfold getYearMonthDay
  dsimp only
  rw [ha, hok a (by omega) (by omega), ok_bind, hok (4 * a) (by omega) (by omega), ok_bind,
    hok (4 * a + 3) (by omega) (by omega), ok_bind, hb, hok (b * 146097) (by omega) (by omega), ok_bind, hc,
    hok c (by omega) (by omega), ok_bind, hok (4 * c) (by omega) (by omega), ok_bind,
    hok (4 * c + 3) (by omega) (by omega), ok_bind, hy, hok (1461 * y) (by omega) (by omega), ok_bind, he,
    hok e (by omega) (by omega), ok_bind, hok (5 * e) (by omega) (by omega), ok_bind,
    hok (5 * e + 2) (by omega) (by omega), ok_bind, hm, hok (153 * m) (by omega) (by omega), ok_bind,
    hok (153 * m + 2) (by omega) (by omega), ok_bind, hd, hok (e - (153 * m + 2) / 5) (by omega) (by omega), ok_bind,
    hok (e - (153 * m + 2) / 5 + 1) (by omega) (by omega), ok_bind, hok (m + 3) (by omega) (by omega), ok_bind, h10,
    hok (12 * (m / 10)) (by omega) (by omega), ok_bind, hok (m + 3 - 12 * (m / 10)) (by omega) (by omega), ok_bind,
    hok (b * 100) (by omega) (by omega), ok_bind, hok (b * 100 + y) (by omega) (by omega), ok_bind,
    hok (b * 100 + y - 4800) (by omega) (by omega), ok_bind, hok (b * 100 + y - 4800 + m / 10) (by omega) (by omega),
    ok_bind, pure_eq_ok]

theorem getYearMonthDay_eq {j : Int} (hj : InRange j) :
    getYearMonthDay j = .ok (Calendar.Date.ofDays (j - kJulianDayOfMarch)) := by
  obtain ⟨a, ha⟩ : ∃ a, j + 32044 = a := ⟨_, rfl⟩
  obtain ⟨b, hb⟩ : ∃ b, (4 * a + 3) / 146097 = b := ⟨_, rfl⟩
  obtain ⟨c, hc⟩ : ∃ c, a - 146097 * b / 4 = c := ⟨_, rfl⟩
  -- the years begin 4800 years before the calendar's
  have hb' : (4 * (j - kJulianDayOfMarch) + 3) / 146097 = b - 48 := by
    unfold kJulianDayOfMarch
    omega
  have hc' : j - kJulianDayOfMarch - 146097 * (b - 48) / 4 = c := by
    unfold kJulianDayOfMarch
    omega
  rw [getYearMonthDay_parts hj ha hb hc rfl rfl rfl]
  simp only [Calendar.Date.ofDays, Parts.ofDays, Parts.date, hb', hc', Except.ok.injEq,
    Calendar.Date.mk.injEq, and_true]
  omega

/-- A year has no more than 366 days. -/
theorem parts_day_le {p : Parts} (h : p.Valid) : (153 * p.month + 2) / 5 + p.day ≤ 366 := by
  have hm := h.month_lt
  by_cases hlast : p.month < 11
  · have hle := h.day_le hlast
    omega
  · have h11 : p.month = 11 := by omega
    have hle := h.last_le h11
    omega

/-- The years that end before 1 March of the year -4800. -/
theorem year_days_le {y : Int} (h : y + 4800 < 0) : 365 * y + y / 4 - y / 100 + y / 400 ≤ -1753530 := by
  have hyear : 365 * y + y / 4 - y / 100 + y / 400 = 36524 * (y / 100) + y / 100 / 4 + 365 *
      (y % 100) + y % 100 / 4 := by
    omega
  rw [hyear]
  have hb : y / 100 ≤ -49 := by omega
  have hr : y % 100 ≤ 99 := by omega
  omega

theorem getJulianDayNumber_parts {year month day y m : Int} (hm₀ : 1 ≤ month) (hm₁ : month ≤ 12) (hd₀ : 1 ≤ day)
    (hday : (153 * m + 2) / 5 + day ≤ 366) (hy : year + 4800 - (14 - month) / 12 = y)
    (hm : month + 12 * ((14 - month) / 12) - 3 = m) (hy₀ : 0 ≤ y) (hy₁ : y ≤ 1500000) :
    getJulianDayNumber year month day =
      .ok (day + (153 * m + 2) / 5 + y * 365 + y / 4 - y / 100 + y / 400 - 32045) := by
  obtain ⟨a, ha⟩ : ∃ a, (14 - month) / 12 = a := ⟨_, rfl⟩
  rw [ha] at hy hm
  have ha' : (14 - month).tdiv 12 = a := by rw [← ha, Int.tdiv_eq_ediv_of_nonneg (by omega)]
  have hq : (153 * m + 2).tdiv 5 = (153 * m + 2) / 5 := Int.tdiv_eq_ediv_of_nonneg (by omega)
  have h4 : y.tdiv 4 = y / 4 := Int.tdiv_eq_ediv_of_nonneg hy₀
  have h100 : y.tdiv 100 = y / 100 := Int.tdiv_eq_ediv_of_nonneg hy₀
  have h400 : y.tdiv 400 = y / 400 := Int.tdiv_eq_ediv_of_nonneg hy₀
  have hok : ∀ x, -2 ^ 31 ≤ x → x < 2 ^ 31 → int x = .ok x := fun x h₀ h₁ => int_of ⟨h₀, h₁⟩
  unfold getJulianDayNumber
  dsimp only
  rw [hok (14 - month) (by omega) (by omega), ok_bind, hok (year + 4800) (by omega) (by omega), ok_bind, ha', hy,
    hok y (by omega) (by omega), ok_bind, hok (12 * a) (by omega) (by omega), ok_bind,
    hok (month + 12 * a) (by omega) (by omega), ok_bind, hm, hok m (by omega) (by omega), ok_bind,
    hok (153 * m) (by omega) (by omega), ok_bind, hok (153 * m + 2) (by omega) (by omega), ok_bind, hq, h4, h100, h400,
    hok (day + (153 * m + 2) / 5) (by omega) (by omega), ok_bind, hok (y * 365) (by omega) (by omega), ok_bind,
    hok (day + (153 * m + 2) / 5 + y * 365) (by omega) (by omega), ok_bind,
    hok (day + (153 * m + 2) / 5 + y * 365 + y / 4) (by omega) (by omega), ok_bind,
    hok (day + (153 * m + 2) / 5 + y * 365 + y / 4 - y / 100) (by omega) (by omega), ok_bind,
    hok (day + (153 * m + 2) / 5 + y * 365 + y / 4 - y / 100 + y / 400) (by omega) (by omega), ok_bind]
  exact hok _ (by omega) (by omega)

theorem getJulianDayNumber_eq {d : YearMonthDay} (hd : d.Valid) (hj : InRange (d.toDays + kJulianDayOfMarch)) :
    getJulianDayNumber d.year d.month d.day = .ok (d.toDays + kJulianDayOfMarch) := by
  have hday := parts_day_le (Parts.ofDate_valid hd)
  obtain ⟨year, month, day⟩ := d
  obtain ⟨hm₀, hm₁, hd₀, -⟩ := hd
  obtain ⟨h₀, h₁⟩ := hj
  simp only at hm₀ hm₁ hd₀ ⊢
  obtain ⟨y, hy⟩ : ∃ y, (if month ≤ 2 then year - 1 else year) = y := ⟨_, rfl⟩
  obtain ⟨m, hm⟩ : ∃ m, (if month ≤ 2 then month + 9 else month - 3) = m := ⟨_, rfl⟩
  have hya : year + 4800 - (14 - month) / 12 = y + 4800 := by
    split at hy <;> omega
  have hma : month + 12 * ((14 - month) / 12) - 3 = m := by
    split at hm <;> omega
  rw [Parts.ofDate_eq hy hm] at hday
  rw [Calendar.Date.toDays_mk year month day hy hm] at h₀ h₁ ⊢
  simp only at hday
  clear hy hm
  unfold kJulianDayOfMarch at h₀ h₁ ⊢
  have hy₀ : 0 ≤ y + 4800 := by
    by_contra hlt
    have hle := year_days_le (Int.not_le.mp hlt)
    omega
  rw [getJulianDayNumber_parts hm₀ hm₁ hd₀ hday hya hma hy₀ (by omega)]
  have e4 : (y + 4800) / 4 = y / 4 + 1200 := by omega
  have e100 : (y + 4800) / 100 = y / 100 + 48 := by omega
  have e400 : (y + 4800) / 400 = y / 400 + 12 := by omega
  rw [e4, e100, e400]
  congr 1
  omega

theorem toDays_start : Calendar.Date.toDays ⟨-4800, 3, 1⟩ + kJulianDayOfMarch = -32044 := by decide

/-- The `n`-th day from 1 March of the year -4800 on. -/
theorem next_iterate (n : Nat) :
    Calendar.Date.next^[n] ⟨-4800, 3, 1⟩ = Calendar.Date.ofDays (n - 32044 - kJulianDayOfMarch) := by
  induction n with
  | zero => decide
  | succ n ih =>
    rw [Function.iterate_succ_apply', ih, Calendar.Date.next_ofDays]
    congr 1
    push_cast
    omega

/-- Each day number stands for a date of the calendar and each date has its day number; the days
follow each other as the dates do. -/
theorem calendar_dates_of_days :
    (∀ j, InRange j → ∃ d, getYearMonthDay j = .ok d ∧ d.Valid ∧ getJulianDayNumber d.year d.month d.day = .ok j ∧
      (InRange (j + 1) → getYearMonthDay (j + 1) = .ok d.next) ∧
      (0 ≤ j → ∃ w, Date.weekDay ⟨j⟩ = .ok w ∧ Date.weekDay ⟨j + 1⟩ = .ok ((w + 1) % 7))) ∧
    ∀ d : YearMonthDay, d.Valid → [-4800, 3, 1] ≤ d.fields →
      ∃ n : Nat, Calendar.Date.next^[n] ⟨-4800, 3, 1⟩ = d ∧
        (InRange (n - 32044) → getJulianDayNumber d.year d.month d.day = .ok (n - 32044) ∧
          getYearMonthDay (n - 32044) = .ok d) := by
  refine ⟨fun j hj => ?_, fun d hd hfrom => ?_⟩
  · have hv := Calendar.Date.ofDays_valid (j - kJulianDayOfMarch)
    have hback : (Calendar.Date.ofDays (j - kJulianDayOfMarch)).toDays + kJulianDayOfMarch = j := by
      rw [Calendar.Date.toDays_ofDays]
      omega
    refine ⟨_, getYearMonthDay_eq hj, hv, ?_, fun hj' => ?_, fun h₀ => ?_⟩
    · rw [getJulianDayNumber_eq hv (by rwa [hback]), hback]
    · rw [getYearMonthDay_eq hj', Calendar.Date.next_ofDays]
      congr 2
      omega
    · obtain ⟨-, h₁⟩ := hj
      simp only [Date.weekDay, Date.kDaysPerWeek]
      rw [int_of (by omega), int_of (by omega), ok_bind, ok_bind]
      refine ⟨_, rfl, ?_⟩
      rw [Int.tmod_eq_emod_of_nonneg (by omega), Int.tmod_eq_emod_of_nonneg (by omega), pure_eq_ok]
      congr 1
      omega
  · -- dates that do not come before it have no smaller number
    have hn : -32044 ≤ d.toDays + kJulianDayOfMarch := by
      by_contra hlt
      have hmono := Calendar.Date.fields_ofDays_lt
        (show d.toDays < Calendar.Date.toDays ⟨-4800, 3, 1⟩ by have := toDays_start; omega)
      rw [Calendar.Date.ofDays_toDays hd] at hmono
      exact absurd hfrom (not_le_of_gt hmono)
    obtain ⟨n, hn⟩ := Int.eq_ofNat_of_zero_le (show 0 ≤ d.toDays + kJulianDayOfMarch + 32044 by omega)
    have hj : (n : Int) - 32044 = d.toDays + kJulianDayOfMarch := by omega
    refine ⟨n, ?_, fun hr => ?_⟩
    · rw [next_iterate, hj, Int.add_sub_cancel, Calendar.Date.ofDays_toDays hd]
    · rw [hj] at hr ⊢
      rw [getYearMonthDay_eq hr, Int.add_sub_cancel, Calendar.Date.ofDays_toDays hd]
      exact ⟨getJulianDayNumber_eq hd hr, rfl⟩

/-- The leap day of the year 2000. -/
theorem calendar_dates_of_days_leap :
    getYearMonthDay 2451604 = .ok ⟨2000, 2, 29⟩ ∧ getYearMonthDay (2451604 + 1) = .ok ⟨2000, 3, 1⟩ := by
  obtain ⟨d, hd, -, -, hnext, -⟩ := calendar_dates_of_days.1 2451604 (by decide)
  have hleap : getYearMonthDay 2451604 = .ok ⟨2000, 2, 29⟩ := by decide
  obtain rfl : d = ⟨2000, 2, 29⟩ := Except.ok.inj (hd.symm.trans hleap)
  exact ⟨hd, hnext (by decide)⟩

/-- The day after the last one of the range is out of the reach of `int`. -/
theorem last_day_has_no_next : InRange 536838867 ∧ getYearMonthDay (536838867 + 1) = .error .overflow := by
  decide

end Zhengqi
