import Zhengqi.Lib.ByteReader
import Zhengqi.Text
import Zhengqi.TimeZone

/-!
# Zone files

`utility/TimeZone.cpp`: the reading of a TZif file. A file is its bytes, or `none` where it cannot be
opened. `stack` is the room for the array of `readBytes`, or `none` where it has no bound.
-/

namespace Zhengqi.TimeZone

open ByteReader

namespace File

def readBytes (stack : Option Nat) (n : Int) : Reader Fault Bytes :=
  -- `char buf[n]`
  if n < 0 ∨ stack.any (· < n.toNat) then throw .arraySize else take .logicError n.toNat

def readToEnd : Reader Fault Bytes := rest

def readInt64 : Reader Fault Int := do pure (beInt (← take .logicError 8))

def readInt32 : Reader Fault Int := do pure (beInt (← take .logicError 4))

def readUInt8 : Reader Fault Nat := do pure (beNat (← take .logicError 1))

def skip (bytes : Int) : Reader Fault Unit := seek bytes

end File

open File

/-- A vector that is filled by a loop. `reserve` of a negative number is a `std::length_error`. -/
def readVector {α : Type} (n : Int) (r : Reader Fault α) : Reader Fault (List α) :=
  if n < 0 then throw .logicError else times r n.toNat

structure Counts where
  isutccnt : Int
  isstdcnt : Int
  leapcnt : Int
  timecnt : Int
  typecnt : Int
  charcnt : Int
  deriving DecidableEq, Repr

def readCounts : Reader Fault Counts := do
  let isutccnt ← readInt32
  let isstdcnt ← readInt32
  let leapcnt ← readInt32
  let timecnt ← readInt32
  let typecnt ← readInt32
  let charcnt ← readInt32
  pure { isutccnt, isstdcnt, leapcnt, timecnt, typecnt, charcnt }

def readLocalTime : Reader Fault LocalTime := do
  let gmtoff ← readInt32
  let isdst ← readUInt8
  let abbrind ← readUInt8
  pure ⟨gmtoff, isdst ≠ 0, abbrind⟩

def Data.addTransitions (data : Data) (trans : List (Int × Nat)) : Except Fault Data :=
  trans.foldlM (fun data t => data.addTransition t.1 t.2) data

/-- `none` for `false`. -/
def readDataBlock (stack : Option Nat) (data : Data) (v1 : Bool) : Reader Fault (Option Data) := do
  let time_size : Int := if v1 then 4 else 8
  let { isutccnt, isstdcnt, leapcnt, timecnt, typecnt, charcnt } ← readCounts
  if leapcnt ≠ 0 then pure none
  else if isutccnt ≠ 0 ∧ isutccnt ≠ typecnt then pure none
  else if isstdcnt ≠ 0 ∧ isstdcnt ≠ typecnt then pure none
  else do
    let trans ← readVector timecnt (if v1 then readInt32 else readInt64)
    let localtimes ← readVector timecnt readUInt8
    let types ← readVector typecnt readLocalTime
    let data := types.foldl (fun data lt => data.addLocalTime lt.utcOffset lt.isDst lt.desigIdx) data
    let data ← data.addTransitions (trans.zip localtimes)
    let abbreviation ← readBytes stack charcnt
    skip (← int (leapcnt * (time_size + 4)))
    skip isstdcnt
    skip isutccnt
    let tzstring ← (if v1 then pure data.tzstring else readToEnd)
    pure (some { data with abbreviation, tzstring })

def readHead (stack : Option Nat) : Reader Fault Unit := do
  let head ← readBytes stack 4
  if head ≠ ascii "TZif" then throw .logicError else pure ()

/-- The `size_t` that is given to `skip` for the first block. -/
def Counts.skip (c : Counts) : Except Fault Int := do
  let skip := (4 * c.timecnt + c.timecnt + (← int (6 * c.typecnt)) + c.charcnt + (← int (8 * c.leapcnt)) + c.isstdcnt +
    c.isutccnt) % 2 ^ 64
  pure (skip.bmod (2 ^ 64))

def readFile (stack : Option Nat) : Reader Fault (Option Data) := do
  readHead stack
  let version ← readBytes stack 1
  let _ ← readBytes stack 15
  let counts ← readCounts
  if version = ascii "2" then do
    skip (← counts.skip)
    readHead stack
    skip 16
    readDataBlock stack {} false
  else do
    skip (-4 * 6)
    readDataBlock stack {} true

/-- The exceptions out of the reading are all `std::logic_error`s. -/
def readTimeZoneFile (zonefile : Option Bytes) (stack : Option Nat := none) : Except Fault (Option Data) :=
  match zonefile with
  | none => .ok none
  | some bytes =>
    match readFile stack ⟨bytes, 0⟩ with
    | .ok (data, _) => .ok data
    | .error .logicError => .ok none
    | .error e => .error e

def loadZoneFile (zonefile : Option Bytes) (stack : Option Nat := none) : Except Fault TimeZone := do
  let data ← readTimeZoneFile zonefile stack
  pure ⟨data⟩

end Zhengqi.TimeZone
