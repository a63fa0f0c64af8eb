import Mathlib.Data.Int.SuccPred
import Mathlib.Data.List.Lex
import Mathlib.Order.SuccPred.Basic
import Mathlib.Tactic.Common
import Mathlib.Tactic.IntervalCases

/-!
# The Gregorian calendar

Dates of the proleptic Gregorian calendar and the days they stand for. Days are counted from
1 March of the year 0, so that the leap day comes last in its year.
-/

namespace Calendar

structure Date where
  year : Int
  month : Int
  day : Int
  deriving DecidableEq, Repr

def Leap (year : Int) : Prop := year % 4 = 0 ∧ (year % 100 ≠ 0 ∨ year % 400 = 0)

instance (year : Int) : Decidable (Leap year) := inferInstanceAs (Decidable (_ ∧ _))

def monthLength (year month : Int) : Int :=
  if month = 2 then if Leap year then 29 else 28
  else if month = 4 ∨ month = 6 ∨ month = 9 ∨ month = 11 then 30
  else 31

theorem monthLength_le (year month : Int) : monthLength year month ≤ 31 := by
  unfold monthLength
  split_ifs <;> decide

namespace Date

structure Valid (d : Date) : Prop where
  month_pos : 1 ≤ d.month
  month_le : d.month ≤ 12
  day_pos : 1 ≤ d.day
  day_le : d.day ≤ monthLength d.year d.month

def next (d : Date) : Date :=
  if d.day < monthLength d.year d.month then { d with day := d.day + 1 }
  else if d.month < 12 then ⟨d.year, d.month + 1, 1⟩
  else ⟨d.year + 1, 1, 1⟩

end Date

/-! ## Years from March to February -/

/-- A century, the year and the month in it, counted from March, and the day. -/
structure Parts where
  century : Int
  year : Int
  month : Int
  day : Int

namespace Parts

/-- The length of a month is the distance between two values of `(153 * month + 2) / 5`, save for
the last one. -/
structure Valid (p : Parts) : Prop where
  year_nonneg : 0 ≤ p.year
  year_lt : p.year < 100
  month_nonneg : 0 ≤ p.month
  month_lt : p.month < 12
  day_pos : 1 ≤ p.day
  day_le : p.month < 11 → (153 * p.month + 2) / 5 + p.day ≤ (153 * (p.month + 1) + 2) / 5
  last_le : p.month = 11 → p.day ≤ 28 ∨ p.day = 29 ∧ p.year % 4 = 3 ∧ (p.year = 99 → p.century % 4 = 3)

def days (p : Parts) : Int :=
  36524 * p.century + p.century / 4 + 365 * p.year + p.year / 4 + (153 * p.month + 2) / 5 + p.day - 1

def date (p : Parts) : Date := ⟨100 * p.century + p.year + p.month / 10, p.month + 3 - 12 * (p.month / 10), p.day⟩

def ofDays (n : Int) : Parts :=
  let century := (4 * n + 3) / 146097
  let inCentury := n - 146097 * century / 4
  let year := (4 * inCentury + 3) / 1461
  let inYear := inCentury - 1461 * year / 4
  let month := (5 * inYear + 2) / 153
  { century, year, month, day := inYear - (153 * month + 2) / 5 + 1 }

def ofDate (d : Date) : Parts :=
  let year := if d.month ≤ 2 then d.year - 1 else d.year
  { century := year / 100, year := year % 100, month := if d.month ≤ 2 then d.month + 9 else d.month - 3, day := d.day }

variable {p : Parts} {d : Date} {n : Int}

/-! The bounds of what is left in a century, in a year and in a month. -/

theorem century_bounds {n b c : Int} (hb : (4 * n + 3) / 146097 = b) (hc : n - 146097 * b / 4 = c) :
    0 ≤ c ∧ c ≤ 36524 ∧ (c = 36524 → b % 4 = 3) ∧ n = 36524 * b + b / 4 + c := by
  have hle : 146097 * b ≤ 4 * n + 3 := by omega
  have hlt : 4 * n + 3 < 146097 * b + 146097 := by omega
  have hq : 146097 * b / 4 = 36524 * b + b / 4 := by omega
  rw [hq] at hc
  clear hb hq
  omega

theorem year_bounds {n y e : Int} (h₀ : 0 ≤ n) (h₁ : n ≤ 36524) (hy : (4 * n + 3) / 1461 = y)
    (he : n - 1461 * y / 4 = e) :
    0 ≤ y ∧ y < 100 ∧ 0 ≤ e ∧ e ≤ 365 ∧ (e = 365 → y % 4 = 3 ∧ (y = 99 → n = 36524)) ∧ n = 365 * y + y / 4 + e := by
  have hle : 1461 * y ≤ 4 * n + 3 := by omega
  have hlt : 4 * n + 3 < 1461 * y + 1461 := by omega
  have hq : 1461 * y / 4 = 365 * y + y / 4 := by omega
  rw [hq] at he
  clear hy hq
  omega

theorem month_bounds {n m : Int} (h₀ : 0 ≤ n) (h₁ : n ≤ 365) (hm : (5 * n + 2) / 153 = m) :
    0 ≤ m ∧ m < 12 ∧ (153 * m + 2) / 5 ≤ n ∧ n < (153 * (m + 1) + 2) / 5 := by
  omega

theorem ofDays_valid (n : Int) : (ofDays n).Valid ∧ (ofDays n).days = n := by
  simp only [ofDays]
  generalize hb : (4 * n + 3) / 146097 = b
  generalize hc : n - 146097 * b / 4 = c
  generalize hy : (4 * c + 3) / 1461 = y
  generalize he : c - 1461 * y / 4 = e
  generalize hm : (5 * e + 2) / 153 = m
  obtain ⟨hc₀, hc₁, hleap, hn⟩ := century_bounds hb hc
  obtain ⟨hy₀, hy₁, he₀, he₁, hlast, hc⟩ := year_bounds hc₀ hc₁ hy he
  obtain ⟨hm₀, hm₁, hd₀, hd₁⟩ := month_bounds he₀ he₁ hm
  constructor
  · refine ⟨hy₀, hy₁, hm₀, hm₁, ?_, fun _ => ?_, fun h11 => ?_⟩
    · simp only
      omega
    · simp only
      omega
    · simp only at h11 ⊢
      subst h11
      omega
  · simp only [days]
    omega

theorem century_eq {b c : Int} (h₀ : 0 ≤ c) (h₁ : c ≤ 36524) (hleap : c = 36524 → b % 4 = 3) :
    (4 * (36524 * b + b / 4 + c) + 3) / 146097 = b ∧ 36524 * b + b / 4 + c - 146097 * b / 4 = c := by
  constructor
  · rw [Int.ediv_eq_iff_of_pos (by decide)]
    omega
  · omega

theorem year_eq {y e : Int} (h₀ : 0 ≤ e) (h₁ : e ≤ 365) (hleap : e = 365 → y % 4 = 3) :
    (4 * (365 * y + y / 4 + e) + 3) / 1461 = y ∧ 365 * y + y / 4 + e - 1461 * y / 4 = e := by
  omega

theorem ofDays_days (h : p.Valid) : ofDays p.days = p := by
  obtain ⟨b, y, m, k⟩ := p
  obtain ⟨hy₀, hy₁, hm₀, hm₁, hk, hle, hlast⟩ := h
  simp only at hy₀ hy₁ hm₀ hm₁ hk hle hlast
  -- the day in its year, and the day in its century
  obtain ⟨e, he⟩ : ∃ e, e = (153 * m + 2) / 5 + k - 1 := ⟨_, rfl⟩
  obtain ⟨c, hc⟩ : ∃ c, c = 365 * y + y / 4 + e := ⟨_, rfl⟩
  have he₀ : 0 ≤ e := by omega
  have he₁ : e ≤ 364 ∨ e = 365 ∧ y % 4 = 3 ∧ (y = 99 → b % 4 = 3) := by
    by_cases hm : m < 11
    · have := hle hm
      omega
    · obtain rfl : m = 11 := by omega
      have := hlast rfl
      omega
  have hm : (5 * e + 2) / 153 = m := by
    by_cases hm : m < 11
    · have := hle hm
      omega
    · obtain rfl : m = 11 := by omega
      have := hlast rfl
      omega
  clear hle hlast
  obtain ⟨hb, hbc⟩ := century_eq (b := b) (c := c) (by omega) (by omega) (by omega)
  obtain ⟨hy, hye⟩ := year_eq (y := y) (e := e) he₀ (by omega) (by omega)
  have hdays : days ⟨b, y, m, k⟩ = 36524 * b + b / 4 + c := by
    simp only [days]
    omega
  rw [hdays]
  simp only [ofDays]
  rw [hb, hbc, hc, hy, hye, hm]
  congr 1
  omega

/-! ## The dates of the parts -/

theorem leap_iff {b y : Int} (h₀ : 0 ≤ y) (h₁ : y < 100) :
    Leap (100 * b + y + 1) ↔ y % 4 = 3 ∧ (y = 99 → b % 4 = 3) := by
  unfold Leap
  omega

/-- From March to January the lengths do not depend on the year. -/
theorem monthLength_march {year m : Int} (h₀ : 0 ≤ m) (h₁ : m < 11) :
    monthLength year (m + 3 - 12 * (m / 10)) = (153 * (m + 1) + 2) / 5 - (153 * m + 2) / 5 := by
  interval_cases m <;> rfl

theorem date_valid (h : p.Valid) : p.date.Valid := by
  obtain ⟨b, y, m, k⟩ := p
  obtain ⟨hy₀, hy₁, hm₀, hm₁, hk, hle, hlast⟩ := h
  simp only at hy₀ hy₁ hm₀ hm₁ hk hle hlast
  refine ⟨by simp only [date]; omega, by simp only [date]; omega, hk, ?_⟩
  simp only [date]
  by_cases hm : m < 11
  · rw [monthLength_march hm₀ hm]
    have := hle hm
    omega
  · obtain rfl : m = 11 := by omega
    have hl := leap_iff (b := b) hy₀ hy₁
    have hd := hlast rfl
    have h10 : (11 : Int) / 10 = 1 := rfl
    rw [h10, monthLength, if_pos (by decide)]
    split
    · omega
    · rename_i hn
      rw [hl] at hn
      omega

theorem ofDate_eq {year month day y m : Int} (hy : (if month ≤ 2 then year - 1 else year) = y)
    (hm : (if month ≤ 2 then month + 9 else month - 3) = m) : ofDate ⟨year, month, day⟩ =
      ⟨y / 100, y % 100, m, day⟩ := by
  simp only [ofDate, hy, hm]

theorem ofDate_date (h : p.Valid) : ofDate p.date = p := by
  obtain ⟨b, y, m, k⟩ := p
  obtain ⟨hy₀, hy₁, hm₀, hm₁, -, -, -⟩ := h
  simp only at hy₀ hy₁ hm₀ hm₁
  have hb : (100 * b + y) / 100 = b := by omega
  have hmod : (100 * b + y) % 100 = y := by omega
  simp only [date]
  rw [ofDate_eq (y := 100 * b + y) (m := m) (by split <;> omega) (by split <;> omega), hb, hmod]

theorem ofDate_valid (h : d.Valid) : (ofDate d).Valid := by
  obtain ⟨year, month, k⟩ := d
  obtain ⟨hm₀, hm₁, hk, hle⟩ := h
  simp only at hm₀ hm₁ hk hle
  obtain ⟨y, hy⟩ : ∃ y, (if month ≤ 2 then year - 1 else year) = y := ⟨_, rfl⟩
  obtain ⟨m, hm⟩ : ∃ m, (if month ≤ 2 then month + 9 else month - 3) = m := ⟨_, rfl⟩
  have hmonth : month = m + 3 - 12 * (m / 10) := by
    split at hm <;> omega
  have hm₂ : 0 ≤ m ∧ m < 12 := by
    split at hm <;> omega
  rw [ofDate_eq hy hm]
  refine ⟨by simp only; omega, by simp only; omega, hm₂.1, hm₂.2, hk, fun h => ?_, fun h => ?_⟩
  · rw [hmonth, monthLength_march hm₂.1 h] at hle
    simp only
    omega
  · simp only at h ⊢
    subst h
    have h2 : month = 2 := hmonth
    have hl := leap_iff (b := y / 100) (y := y % 100) (by omega) (by omega)
    have hyear : 100 * (y / 100) + y % 100 + 1 = year := by
      rw [if_pos (by omega)] at hy
      omega
    rw [hyear] at hl
    rw [h2, monthLength, if_pos rfl] at hle
    split at hle
    · have := hl.mp ‹_›
      omega
    · omega

theorem date_ofDate (h : d.Valid) : (ofDate d).date = d := by
  obtain ⟨year, month, k⟩ := d
  obtain ⟨hm₀, hm₁, -, -⟩ := h
  simp only at hm₀ hm₁
  rw [ofDate_eq rfl rfl]
  simp only [date, Date.mk.injEq, and_true]
  by_cases hm : month ≤ 2
  · rw [if_pos hm, if_pos hm]
    omega
  · rw [if_neg hm, if_neg hm]
    omega

end Parts

/-! ## Days -/

namespace Date

variable {d : Date}

def toDays (d : Date) : Int := (Parts.ofDate d).days

def ofDays (n : Int) : Date := (Parts.ofDays n).date

theorem ofDays_valid (n : Int) : (ofDays n).Valid := Parts.date_valid (Parts.ofDays_valid n).1

theorem toDays_ofDays (n : Int) : (ofDays n).toDays = n := by
  obtain ⟨hv, hn⟩ := Parts.ofDays_valid n
  rw [toDays, ofDays, Parts.ofDate_date hv, hn]

theorem ofDays_toDays (h : d.Valid) : ofDays d.toDays = d := by
  rw [ofDays, toDays, Parts.ofDays_days (Parts.ofDate_valid h), Parts.date_ofDate h]

theorem toDays_mk (year month day : Int) {y m : Int} (hy : (if month ≤ 2 then year - 1 else year) = y)
    (hm : (if month ≤ 2 then month + 9 else month - 3) = m) :
    toDays ⟨year, month, day⟩ = 365 * y + y / 4 - y / 100 + y / 400 + (153 * m + 2) / 5 + day - 1 := by
  rw [toDays, Parts.ofDate_eq hy hm]
  simp only [Parts.days]
  omega

theorem next_valid (h : d.Valid) : d.next.Valid := by
  obtain ⟨h₁, h₂, h₃, h₄⟩ := h
  have hpos : ∀ y m : Int, 1 ≤ monthLength y m := by
    intro y m
    unfold monthLength
    split <;> split <;> omega
  unfold next
  split
  · exact ⟨h₁, h₂, by simp only; omega, by simp only; omega⟩
  · split
    · exact ⟨by simp only; omega, by simp only; omega, by simp, hpos ..⟩
    · exact ⟨by simp, by simp, by simp, hpos ..⟩

theorem toDays_next (h : d.Valid) : d.next.toDays = d.toDays + 1 := by
  obtain ⟨year, month, day⟩ := d
  obtain ⟨hm₀, hm₁, -, hle⟩ := h
  simp only at hm₀ hm₁ hle
  obtain ⟨y, hy⟩ : ∃ y, (if month ≤ 2 then year - 1 else year) = y := ⟨_, rfl⟩
  obtain ⟨m, hm⟩ : ∃ m, (if month ≤ 2 then month + 9 else month - 3) = m := ⟨_, rfl⟩
  rw [toDays_mk year month day hy hm]
  simp only [next]
  by_cases hday : day < monthLength year month
  · rw [if_pos hday, toDays_mk year month (day + 1) hy hm]
    omega
  · rw [if_neg hday]
    obtain rfl : day = monthLength year month := by omega
    by_cases hfeb : month = 2
    · -- the leap day is the last day of its year
      subst hfeb
      rw [if_pos (by decide)] at hy hm
      subst hy hm
      rw [if_pos (by decide), toDays_mk year (2 + 1) 1 rfl rfl, monthLength, if_pos rfl]
      unfold Leap
      split <;> omega
    · have hlen : monthLength year month = (153 * (m + 1) + 2) / 5 - (153 * m + 2) / 5 := by
        have hmonth : month = m + 3 - 12 * (m / 10) := by
          split at hm <;> omega
        rw [hmonth, Parts.monthLength_march]
        · split at hm <;> omega
        · split at hm <;> omega
      by_cases hdec : month < 12
      · have hy' : (if month + 1 ≤ 2 then year - 1 else year) = y := by
          rw [← hy]
          split <;> split <;> omega
        have hm' : (if month + 1 ≤ 2 then month + 1 + 9 else month + 1 - 3) = m + 1 := by
          rw [← hm]
          split <;> split <;> omega
        rw [if_pos hdec, toDays_mk year (month + 1) 1 hy' hm', hlen]
        omega
      · obtain rfl : month = 12 := by omega
        rw [if_neg (by decide)] at hy hm
        subst hy hm
        rw [if_neg hdec, toDays_mk (year + 1) 1 1 rfl rfl, hlen]
        omega

theorem next_ofDays (n : Int) : (ofDays n).next = ofDays (n + 1) := by
  have hnext := toDays_next (ofDays_valid n)
  rw [toDays_ofDays] at hnext
  rw [← hnext, ofDays_toDays (next_valid (ofDays_valid n))]

/-- A date as the numbers by which dates are compared, one after the other. -/
def fields (d : Date) : List Int := [d.year, d.month, d.day]

theorem fields_lt_next (d : Date) : d.fields < d.next.fields := by
  unfold fields next
  split
  · simp [List.cons_lt_cons_iff]
  · split <;> simp [List.cons_lt_cons_iff]

theorem fields_ofDays_lt {m n : Int} (h : m < n) : (ofDays m).fields < (ofDays n).fields := by
  have hmono : StrictMono fun n => (ofDays n).fields := by
    apply strictMono_int_of_lt_succ
    intro n
    rw [← next_ofDays]
    exact fields_lt_next _
  exact hmono h

end Date

end Calendar
