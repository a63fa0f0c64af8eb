import Zhengqi.Fault
import Zhengqi.Lib.Calendar

/-!
# Date

`utility/Date.cpp`. A `Date` is its Julian day number. The operations on `int` and `int64_t` are
those of the integers, as long as the result is in the type.
-/

namespace Zhengqi

/-- The result of an operation on `int`. -/
def int (x : Int) : Except Fault Int := if -2 ^ 31 ≤ x ∧ x < 2 ^ 31 then .ok x else .error .overflow

/-- The result of an operation on `int64_t`. -/
def int64 (x : Int) : Except Fault Int := if -2 ^ 63 ≤ x ∧ x < 2 ^ 63 then .ok x else .error .overflow

theorem int_of {x : Int} (h : -2 ^ 31 ≤ x ∧ x < 2 ^ 31) : int x = .ok x := if_pos h

theorem int_ok {x y : Int} : int x = .ok y ↔ (-2 ^ 31 ≤ x ∧ x < 2 ^ 31) ∧ y = x := Run.guard_ok

theorem int64_ok {x y : Int} : int64 x = .ok y ↔ (-2 ^ 63 ≤ x ∧ x < 2 ^ 63) ∧ y = x := Run.guard_ok

theorem int64_of {x : Int} (h : -2 ^ 63 ≤ x ∧ x < 2 ^ 63) : int64 x = .ok x := if_pos h

abbrev YearMonthDay := Calendar.Date

def getJulianDayNumber (year month day : Int) : Except Fault Int := do
  let a := (← int (14 - month)).tdiv 12
  let y ← int ((← int (year + 4800)) - a)
  let m ← int ((← int (month + (← int (12 * a)))) - 3)
  let days ← int (day + (← int ((← int (153 * m)) + 2)).tdiv 5)
  let days ← int (days + (← int (y * 365)))
  let days ← int (days + y.tdiv 4)
  let days ← int (days - y.tdiv 100)
  let days ← int (days + y.tdiv 400)
  int (days - 32045)

def getYearMonthDay (julianDayNumber : Int) : Except Fault YearMonthDay := do
  let a ← int (julianDayNumber + 32044)
  let b := (← int ((← int (4 * a)) + 3)).tdiv 146097
  let c ← int (a - (← int (b * 146097)).tdiv 4)
  let d := (← int ((← int (4 * c)) + 3)).tdiv 1461
  let e ← int (c - (← int (1461 * d)).tdiv 4)
  let m := (← int ((← int (5 * e)) + 2)).tdiv 153
  let day ← int ((← int (e - (← int ((← int (153 * m)) + 2)).tdiv 5)) + 1)
  let month ← int ((← int (m + 3)) - (← int (12 * m.tdiv 10)))
  let year ← int ((← int ((← int ((← int (b * 100)) + d)) - 4800)) + m.tdiv 10)
  pure { year, month, day }

structure Date where
  julianDayNumber : Int
  deriving DecidableEq, Repr

namespace Date

def kDaysPerWeek : Int := 7

def kJulianDayOf1970_01_01 : Int := 2440588

def ofYmd (year month day : Int) : Except Fault Date := do
  let julianDayNumber ← getJulianDayNumber year month day
  pure { julianDayNumber }

def yearMonthDay (date : Date) : Except Fault YearMonthDay := getYearMonthDay date.julianDayNumber

def weekDay (date : Date) : Except Fault Int := do
  pure ((← int (date.julianDayNumber + 1)).tmod kDaysPerWeek)

end Date

end Zhengqi
