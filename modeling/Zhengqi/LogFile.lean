import Zhengqi.DateTimeSound
import Zhengqi.Text

/-!
# LogFile

`utility/LogFile.cpp` and the `AppendFile` of `utility/FileUtil.cpp`, where `fopen`, `fwrite` and
`gmtime_r` succeed. `clock k` is what the call number `k` of `time` answers.
-/

namespace Zhengqi

/-! ## AppendFile -/

/-- A file, by what each `append` wrote into it. -/
structure AppendFile where
  filename : Bytes
  written : List Bytes := []
  writtenBytes : Nat := 0
  deriving DecidableEq, Repr

/-- One `fwrite` takes the line, and the loop around it ends. -/
def AppendFile.append (f : AppendFile) (logline : Bytes) : AppendFile :=
  { f with written := f.written ++ [logline], writtenBytes := f.writtenBytes + logline.length }

/-! ## Names -/

/-- `gmtime_r`. -/
def gmtime (now : Int) : DateTime := .ofDays (now / kSecondsPerDay) (now % kSecondsPerDay)

/-- ".%Y%m%d-%H%M%S." -/
def timebuf (now : Int) : Bytes :=
  let tm := gmtime now
  ascii "." ++ (signed tm.year ++ (zeroPadded 2 tm.month ++ (zeroPadded 2 tm.day ++ (ascii "-" ++
    (zeroPadded 2 tm.hour ++ (zeroPadded 2 tm.minute ++ (zeroPadded 2 tm.second ++ ascii ".")))))))

/-- The constants of a `LogFile`, and of its process. -/
structure LogFileConfig where
  basename : Bytes
  rollSize : Int
  flushInterval : Int
  checkEveryN : Int
  hostname : Bytes
  pid : Int32
  -- The assertion of the constructor
  no_slash : chr '/' ∉ basename

def LogFileConfig.getLogFileName (cfg : LogFileConfig) (now : Int) : Bytes :=
  cfg.basename ++ timebuf now ++ cfg.hostname ++ snprintf 32 (ascii "." ++ signed cfg.pid.toInt) ++ ascii ".log"

/-! ## LogFile -/

structure LogFile where
  count : Int := 0
  startOfPeriod : Int := 0
  lastRoll : Int := 0
  lastFlush : Int := 0
  file : Option AppendFile := none
  -- The files that were closed, and the number of calls of `time`
  closed : List AppendFile := []
  ticks : Nat := 0

namespace LogFile

def kRollPerSeconds : Int := 60 * 60 * 24

variable (cfg : LogFileConfig) (clock : Nat → Int)

/-- Also answers whether a file was opened. -/
def rollFile (s : LogFile) : Bool × LogFile :=
  let now := clock s.ticks
  let s := { s with ticks := s.ticks + 1 }
  let filename := cfg.getLogFileName now
  let start := now.tdiv kRollPerSeconds * kRollPerSeconds
  if s.lastRoll < now then
    (true, { s with
      lastRoll := now
      lastFlush := now
      startOfPeriod := start
      file := some { filename }
      closed := s.closed ++ s.file.toList })
  else (false, s)

def ctor : LogFile := (rollFile cfg clock {}).2

/-- The check of the period, at every `checkEveryN_`-th append that leaves the size. -/
def checkPeriod (s : LogFile) : LogFile :=
  let now := clock s.ticks
  let s := { s with ticks := s.ticks + 1 }
  let thisPeriod := now.tdiv kRollPerSeconds * kRollPerSeconds
  if thisPeriod ≠ s.startOfPeriod then (rollFile cfg clock s).2
  else if cfg.flushInterval < now - s.lastFlush then { s with lastFlush := now }
  else s

/-- `append_unlocked`, which `append` calls under the mutex if there is one. -/
def append (s : LogFile) (logline : Bytes) : Except Fault LogFile :=
  match s.file with
  | none => .error .nullPointer
  | some file =>
    let file := file.append logline
    let s := { s with file := some file }
    if cfg.rollSize < file.writtenBytes then pure (rollFile cfg clock s).2
    else
      let s := { s with count := s.count + 1 }
      if cfg.checkEveryN ≤ s.count then pure (checkPeriod cfg clock { s with count := 0 }) else pure s

end LogFile

end Zhengqi
