import Zhengqi.FormatSI
import Zhengqi.TimeZone

/-!
# ProcessInspector

The parsers of `networking/inspect/ProcessInspector.cpp` for the files below `/proc`, with `procname` of
`utility/ProcessInfo.cpp`. A text ends with the NUL behind it, which may be read; an access behind that is undefined.
-/

namespace Zhengqi

/-- `operator[]` of a `std::string`, and a `const char *` into one. -/
def charAt (s : Bytes) (i : Nat) : Except Fault Byte :=
  match (s ++ [0])[i]? with
  | some c => pure c
  | none => .error .outOfBounds

/-- The text a `const char *` stands for. -/
def cString (s : Bytes) : Bytes := s.takeWhile (· != 0)

namespace ProcessInspector

/-! ## getProcessName -/

/-- `std::string::find`. -/
def find (key : Bytes) : Bytes → Option Nat
  | [] => if key = [] then some 0 else none
  | c :: s => if key.isPrefixOf (c :: s) then some 0 else (find key s).map (· + 1)

/-- The first loop, for at most so many rounds. -/
def skipTabs (procStatus : Bytes) : Nat → Nat → Except Fault Nat
  | 0, _ => .error .getProcessName
  | rounds + 1, pos => do
    let c ← charAt procStatus pos
    if c = chr '\t' then skipTabs procStatus rounds (pos + 1) else pure pos

/-- The second loop: it tests the character at `pos`, and moves `eol`. -/
def findEol (procStatus : Bytes) (pos : Nat) : Nat → Nat → Except Fault Nat
  | 0, _ => .error .getProcessName
  | rounds + 1, eol => do
    let c ← charAt procStatus pos
    if c ≠ chr '\n' then findEol procStatus pos rounds ((eol + 1) % 2 ^ 64) else pure eol

def getProcessName (rounds : Nat) (procStatus : Bytes) : Except Fault Bytes :=
  match find (ascii "Name:") procStatus with
  | none => pure []
  | some pos => do
    let pos ← skipTabs procStatus rounds (pos + 5)
    let eol ← findEol procStatus pos rounds pos
    pure ((procStatus.drop pos).take (eol - pos))

/-! ## The stat of a thread -/

/-- A `StringPiece` into a `std::string`: what stands there from its first character on, and `length_`. -/
structure Piece where
  text : Bytes
  length : Int
  deriving DecidableEq, Repr

def Piece.removePrefix (data : Piece) (n : Int) : Except Fault Piece := do
  check (0 ≤ n ∧ n ≤ data.text.length) .outOfBounds
  let length ← int (data.length - n)
  pure ⟨data.text.drop n.toNat, length⟩

def next (data : Piece) : Except Fault Piece :=
  -- the size is a `size_t` for `memchr`
  let size := (data.length % 2 ^ 64).toNat
  let seen := data.text.take size
  let sp := seen.idxOf (chr ' ')
  if sp < seen.length then data.removePrefix (toInt (sp + 1))
  else if data.text.length + 1 < size then .error .outOfBounds
  else pure ⟨[], 0⟩

def isSpace (c : Byte) : Bool := c = chr ' ' ∨ 9 ≤ c ∧ c ≤ 13

def isDigit (c : Byte) : Bool := chr '0' ≤ c ∧ c ≤ chr '9'

/-- `strtol` in base ten. -/
def strtol (text : Bytes) : Int :=
  let text := text.dropWhile isSpace
  let negative : Bool := text.head? = some (chr '-')
  let digits := (if negative ∨ text.head? = some (chr '+') then text.tail else text).takeWhile isDigit
  let value : Int := digits.foldl (fun n c => n * 10 + (c.toNat - 48)) 0
  max (-2 ^ 63) (min (2 ^ 63 - 1) (if negative then -value else value))

structure CpuTime where
  userSeconds : ℚ
  systemSeconds : ℚ
  deriving DecidableEq, Repr

def skip : Nat → Piece → Except Fault Piece
  | 0, data => pure data
  | n + 1, data => do
    let data ← next data
    skip n data

/-- The ticks of `ProcessInfo::clockTicksPerSecond` are an argument. -/
def getCpuTime (ticks : Int) (data : Piece) : Except Fault CpuTime := do
  let data ← skip 10 data
  let utime := strtol data.text
  let data ← next data
  let stime := strtol data.text
  let hz := double ticks
  pure ⟨double (double utime / hz), double (double stime / hz)⟩

end ProcessInspector

namespace ProcessInfo

/-- The first character of a name in `stat`, and its length. -/
structure Name where
  first : Nat
  length : Int
  deriving DecidableEq, Repr

/-- No name is a piece of `NULL`. -/
def procname (stat : Bytes) : Option Name :=
  let lp := stat.idxOf (chr '(')
  let back := stat.reverse.idxOf (chr ')')
  let rp := stat.length - 1 - back
  if lp < stat.length ∧ back < stat.length ∧ lp < rp then
    some ⟨lp + 1, toInt ((rp - lp - 1 : Nat) : Int)⟩
  else none

/-- `as_string`. -/
def Name.asString (stat : Bytes) (name : Name) : Except Fault Bytes :=
  if name.length < 0 then .error .lengthError else pure ((stat.drop name.first).take name.length.toNat)

end ProcessInfo

namespace ProcessInspector

structure ThreadStat where
  name : Bytes
  state : Byte
  time : CpuTime
  deriving DecidableEq, Repr

/-- What a round of `threads` takes from the file. -/
def threadStat (ticks : Int) (stat : Bytes) : Except Fault ThreadStat :=
  match ProcessInfo.procname stat with
  | none => .error .nullPointer
  | some name => do
    let rp : Int := name.first + name.length
    check (0 ≤ rp) .outOfBounds
    let c ← charAt stat rp.toNat
    check (c = chr ')') .threads
    let state := rp.toNat + 2
    let stat := stat.set rp.toNat 0
    let data ← Piece.removePrefix ⟨stat, toInt stat.length⟩ (toInt (state + 2))
    let time ← getCpuTime ticks data
    let c ← charAt stat state
    pure ⟨cString (stat.drop name.first), c, time⟩

/-- `%12.3f`. -/
def seconds (x : ℚ) : Bytes :=
  let text := (if x < 0 then [chr '-'] else []) ++ fixed 3 |x|
  List.replicate (12 - text.length) (chr ' ') ++ text

/-- `"%5d %-16s %c %12.3f %12.3f\n"`. -/
def row (tid : Int) (t : ThreadStat) : Bytes :=
  cString (snprintf 256 (blankPadded 5 tid ++ ascii " " ++ t.name ++ List.replicate (16 - t.name.length) (chr ' ') ++
    ascii " " ++ [t.state] ++ ascii " " ++ seconds t.time.userSeconds ++ ascii " " ++ seconds t.time.systemSeconds ++
    ascii "\n"))

/-- One thread, with its file unless that could not be read. -/
def addRow (ticks : Int) (result : Bytes) (file : Int × Option Bytes) : Except Fault Bytes :=
  match file.2 with
  | none => pure result
  | some stat => do
    let t ← threadStat ticks stat
    pure (result ++ row file.1 t)

def threads (ticks : Int) (files : List (Int × Option Bytes)) : Except Fault Bytes :=
  files.foldlM (addRow ticks) (ascii "  TID NAME             S    User Time  System Time\n")

end ProcessInspector

end Zhengqi
