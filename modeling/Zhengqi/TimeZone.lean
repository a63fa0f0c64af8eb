import Zhengqi.Buffer
import Zhengqi.Date
import Zhengqi.Lib.UpperBound

/-!
# TimeZone

`utility/TimeZone.cpp`, save for the reading of a file: the conversions between seconds and
broken-down times, and the search in the table of a zone.
-/

namespace Zhengqi

open UpperBound

structure DateTime where
  year : Int := 0
  month : Int := 0
  day : Int := 0
  hour : Int := 0
  minute : Int := 0
  second : Int := 0
  deriving DecidableEq, Repr

def kSecondsPerDay : Int := 24 * 60 * 60

/-- `static_cast<int>`. -/
def toInt (x : Int) : Int := x.bmod (2 ^ 32)

theorem toInt_of {x : Int} (h₀ : -2 ^ 31 ≤ x) (h₁ : x < 2 ^ 31) : toInt x = x :=
  Int.bmod_eq_of_le_mul_two (by push_cast; omega) (by push_cast; omega)

/-- The conversion to `unsigned`. -/
def toUnsigned (x : Int) : Int := x % 2 ^ 32

def fillHMS (seconds : Int) (dt : DateTime) : DateTime :=
  let minutes := seconds / 60
  { dt with second := seconds % 60, minute := minutes % 60, hour := minutes / 60 }

def breakTime (t : Int) : Except Fault DateTime := do
  let seconds := toInt (t.tmod kSecondsPerDay)
  let days := toInt (t.tdiv kSecondsPerDay)
  -- the remainder of a negative number is negative
  let (seconds, days) ←
    if seconds < 0 then do pure (← int (seconds + kSecondsPerDay), ← int (days - 1)) else pure (seconds, days)
  let dt := fillHMS (toUnsigned seconds) {}
  let date : Date := ⟨← int (days + Date.kJulianDayOf1970_01_01)⟩
  let ymd ← date.yearMonthDay
  pure { dt with year := ymd.year, month := ymd.month, day := ymd.day }

/-- `front` and `back` of a vector. -/
def front {α : Type} (xs : List α) : Except Fault α := get xs 0

def back {α : Type} (xs : List α) : Except Fault α := get xs (xs.length - 1)

namespace TimeZone

structure Transition where
  utctime : Int
  localtime : Int
  localtimeIdx : Nat
  deriving DecidableEq, Repr

structure LocalTime where
  utcOffset : Int
  isDst : Bool
  desigIdx : Nat
  deriving DecidableEq, Repr

structure Data where
  transitions : List Transition := []
  localtimes : List LocalTime := []
  tzstring : Bytes := []
  abbreviation : Bytes := []
  deriving DecidableEq

def toUtcTime (secondsSinceEpoch : Int) : Except Fault DateTime := breakTime secondsSinceEpoch

def fromUtcTime (dt : DateTime) : Except Fault Int := do
  let date ← Date.ofYmd dt.year dt.month dt.day
  let secondsInDay ← int ((← int ((← int (dt.hour * 3600)) + (← int (dt.minute * 60)))) + dt.second)
  let days ← int (date.julianDayNumber - Date.kJulianDayOf1970_01_01)
  int64 ((← int64 (days * kSecondsPerDay)) + secondsInDay)

namespace Data

def addLocalTime (d : Data) (utcOffset : Int) (isDst : Bool) (desigIdx : Nat) : Data :=
  { d with localtimes := d.localtimes ++ [⟨utcOffset, isDst, desigIdx⟩] }

def addTransition (d : Data) (utcTime : Int) (localtimeIdx : Nat) : Except Fault Data :=
  match d.localtimes[localtimeIdx]? with
  | some lt => do
    let localtime ← int64 (utcTime + lt.utcOffset)
    pure { d with transitions := d.transitions ++ [⟨utcTime, localtime, localtimeIdx⟩] }
  -- `std::out_of_range` of `at`
  | none => .error .logicError

/-- The local time that is in force at a UTC time. -/
def findLocalTime (d : Data) (utcTime : Int) : Except Fault LocalTime :=
  match d.transitions with
  | [] => front d.localtimes
  | first :: _ =>
    if utcTime < first.utctime then front d.localtimes
    else do
      let transI := upperBound (fun tr => utcTime < tr.utctime) d.transitions
      check (transI ≠ 0) .findLocalTime
      if transI ≠ d.transitions.length then
        get d.localtimes (← get d.transitions (transI - 1)).localtimeIdx
      else get d.localtimes (← back d.transitions).localtimeIdx

/-- The local time that a broken-down local time belongs to. -/
def findLocalTimeOf (d : Data) (lt : DateTime) (postTransition : Bool) : Except Fault LocalTime := do
  let localtime ← fromUtcTime lt
  match d.transitions with
  | [] => front d.localtimes
  | first :: _ =>
    if localtime < first.localtime then front d.localtimes
    else do
      let transI := upperBound (fun tr => localtime < tr.localtime) d.transitions
      check (transI ≠ 0) .findLocalTime
      if transI = d.transitions.length then get d.localtimes (← back d.transitions).localtimeIdx
      else do
        let trans ← get d.transitions transI
        let prior_trans ← get d.transitions (transI - 1)
        let prior_second ← int64 ((← int64 (trans.utctime - 1)) +
          (← get d.localtimes prior_trans.localtimeIdx).utcOffset)
        if prior_second < localtime then
          -- it's a skip
          get d.localtimes (if postTransition then trans.localtimeIdx else prior_trans.localtimeIdx)
        else do
          let transI := transI - 1
          let trans := prior_trans
          let (prior_trans, prior_second) ←
            if transI ≠ 0 then do
              let prior_trans ← get d.transitions (transI - 1)
              let prior_second ←
                int64 ((← int64 (trans.utctime - 1)) + (← get d.localtimes prior_trans.localtimeIdx).utcOffset)
              pure (prior_trans, prior_second)
            else pure (prior_trans, prior_second)
          if localtime ≤ prior_second then
            -- it's repeat
            get d.localtimes (if postTransition then trans.localtimeIdx else prior_trans.localtimeIdx)
          else get d.localtimes trans.localtimeIdx

end Data

end TimeZone

/-- A `data_` that may be null. -/
structure TimeZone where
  data : Option TimeZone.Data := none
  deriving DecidableEq

namespace TimeZone

def ofOffset (eastOfUtc : Int) (name : Bytes) : TimeZone :=
  ⟨some { Data.addLocalTime {} eastOfUtc false 0 with abbreviation := name }⟩

def valid (z : TimeZone) : Bool := z.data.isSome

/-- The local time, and the offset that is stored through the pointer. -/
def toLocalTime (z : TimeZone) (seconds : Int) : Except Fault (DateTime × Int) :=
  match z.data with
  | none => .error .timeZoneData
  | some d => do
    let lt ← d.findLocalTime seconds
    let localTime ← breakTime (← int64 (seconds + lt.utcOffset))
    pure (localTime, lt.utcOffset)

def fromLocalTime (z : TimeZone) (localtime : DateTime) (postTransition : Bool) : Except Fault Int :=
  match z.data with
  | none => .error .timeZoneData
  | some d => do
    let lt ← d.findLocalTimeOf localtime postTransition
    let localSeconds ← fromUtcTime localtime
    int64 (localSeconds - lt.utcOffset)

end TimeZone

end Zhengqi
