import Zhengqi.LogOperators
import Zhengqi.TimeZone
import Zhengqi.Timestamp

/-!
# Logging

`utility/Logging.cpp`: what a `Logger` writes in front of and behind the operands, and the text of the
time that each thread keeps for one second.
-/

namespace Zhengqi

inductive LogLevel
  | TRACE | DEBUG | INFO | WARN | ERROR | FATAL
  deriving DecidableEq, Repr

def LogLevelName : LogLevel → Bytes
  | .TRACE => ascii "TRACE "
  | .DEBUG => ascii "DEBUG "
  | .INFO => ascii "INFO  "
  | .WARN => ascii "WARN  "
  | .ERROR => ascii "ERROR "
  | .FATAL => ascii "FATAL "

/-! ## Source files -/

/-- The bytes that `data_` points to, and `size_`. -/
structure SourceFile where
  data : Bytes
  size : Int
  size_eq : size = Buffer.pieceSize data

namespace SourceFile

/-- How much `strrchr(filename, '/')` and what lies before it take of a C string. -/
def throughSlash (filename : Bytes) : Nat := filename.length - (filename.reverse.takeWhile (· ≠ chr '/')).length

theorem throughSlash_le (arr : Bytes) : throughSlash (LogStream.cStr arr) ≤ arr.length := by
  have hle : (LogStream.cStr arr).length ≤ arr.length := (List.takeWhile_sublist _).length_le
  rw [throughSlash]
  omega

/-- From an array of `arr.length + 1` bytes, as `__FILE__` is; its size is an `int`. -/
def ofArray (arr : Bytes) (h : arr.length < 2 ^ 31) : SourceFile where
  data := arr.drop (throughSlash (LogStream.cStr arr))
  size := arr.length - throughSlash (LogStream.cStr arr)
  size_eq := by
    have hle := throughSlash_le arr
    unfold Buffer.pieceSize
    rw [List.length_drop, Int.bmod_eq_of_le_mul_two]
    · omega
    · omega
    · omega

end SourceFile

/-! ## The stream of a logger -/

namespace LogStream

/-- `append(const char *data, int len)`: the length is a `size_t` again. -/
def appendLen (s : LogStream) (data : Bytes) (len : Int) : Except Fault LogStream :=
  let len := (len % 2 ^ 64).toNat
  if len < s.avail then
    if len ≤ data.length then s.append (data.take len) else .error .outOfBounds
  else pure s

/-- `T(str, len)`, for a C string. -/
def putT (s : LogStream) (str : Bytes) (len : Nat) : Except Fault LogStream := do
  check (str.length = len) .logT
  s.appendLen str len

def putSourceFile (s : LogStream) (v : SourceFile) : Except Fault LogStream := s.appendLen v.data v.size

/-- `operator<<(double)`, where `text` is what "%.12g" prints. -/
def putDouble (s : LogStream) (text : Bytes) : Except Fault LogStream :=
  if kMaxNumericSize ≤ s.avail then do
    let s ← s.write s.cur (snprintf kMaxNumericSize text ++ [0])
    s.add text.length
  else pure s

end LogStream

/-- `Fmt(fmt, val)`, where `text` is what it prints. -/
def fmt (text : Bytes) : Except Fault Bytes := do
  check (text.length < 32) .fmt
  pure (snprintf 32 text)

/-- What is streamed into a `Logger`. -/
inductive LogItem
  | operand (o : Operand)
  | double (text : Bytes) (short : text.length < kMaxNumericSize)
  | fmt (text : Bytes) (short : text.length < 32)

def LogStream.putItem (s : LogStream) : LogItem → Except Fault LogStream
  | .operand o => s.put o
  | .double text _ => s.putDouble text
  | .fmt text _ => do s.appendLen (← Zhengqi.fmt text) text.length

/-! ## The time -/

/-- `t_lastSecond`, and the C string in `t_time`. -/
structure LogThread where
  lastSecond : Int := 0
  time : Bytes := []
  deriving DecidableEq, Repr

/-- The broken-down time that is printed: `zone` is `g_logTimeZone`. -/
def logTime (zone : TimeZone) (seconds : Int) : Except Fault DateTime :=
  if zone.valid then do pure (← zone.toLocalTime seconds).1 else TimeZone.toUtcTime seconds

/-- "%4d%02d%02d %02d:%02d:%02d". -/
def dateTimeText (dt : DateTime) : Bytes :=
  blankPadded 4 dt.year ++ zeroPadded 2 dt.month ++ zeroPadded 2 dt.day ++ ascii " " ++
    zeroPadded 2 dt.hour ++ ascii ":" ++ zeroPadded 2 dt.minute ++ ascii ":" ++ zeroPadded 2 dt.second

def LogThread.update (th : LogThread) (zone : TimeZone) (seconds : Int) : Except Fault LogThread :=
  if seconds ≠ th.lastSecond then do
    let dt ← logTime zone seconds
    let text := dateTimeText dt
    check (text.length = 17) .formatTime
    pure ⟨seconds, snprintf 64 text⟩
  else pure th

def formatTime (zone : TimeZone) (th : LogThread) (time : Timestamp) (s : LogStream) :
    Except Fault (LogThread × LogStream) := do
  let seconds := time.tdiv kMicroSecondsPerSecond
  let microseconds := time.tmod kMicroSecondsPerSecond
  let th ← th.update zone seconds
  if zone.valid then do
    let us ← fmt (ascii "." ++ zeroPadded 6 microseconds ++ ascii " ")
    check (us.length = 8) .formatTime
    let s ← s.putT th.time 17
    let s ← s.putT us 8
    pure (th, s)
  else do
    let us ← fmt (ascii "." ++ zeroPadded 6 microseconds ++ ascii "Z ")
    check (us.length = 9) .formatTime
    let s ← s.putT th.time 17
    let s ← s.putT us 9
    pure (th, s)

/-! ## Loggers -/

/-- The constructors of `Logger`, with the `errno` that the last of them reads. -/
inductive LoggerCtor
  | plain
  | level (level : LogLevel)
  | func (level : LogLevel) (func : Option Bytes)
  | sys (toAbort : Bool) (errno : Int32)

/-- A record, with all that its text depends on. -/
structure LogRecord where
  zone : TimeZone
  time : Timestamp
  tid : Int32
  -- The C string that `strerror_tl` answers
  strerror : Int32 → Bytes
  ctor : LoggerCtor
  file : SourceFile
  line : Int32
  items : List LogItem

namespace LogRecord

def level (r : LogRecord) : LogLevel :=
  match r.ctor with
  | .plain => .INFO
  | .level level | .func level _ => level
  | .sys toAbort _ => if toAbort then .FATAL else .ERROR

def savedErrno (r : LogRecord) : Int32 :=
  match r.ctor with
  | .sys _ errno => errno
  | _ => 0

/-- `t_tidString`. -/
def tidString (r : LogRecord) : Bytes := snprintf 32 (blankPadded 5 r.tid.toInt ++ ascii " ")

/-- The constructor of `Impl`. -/
def impl (r : LogRecord) (th : LogThread) (s : LogStream) : Except Fault (LogThread × LogStream) := do
  let (th, s) ← formatTime r.zone th r.time s
  let s ← s.putT r.tidString r.tidString.length
  let s ← s.putT (LogLevelName r.level) 6
  let s ← (if r.savedErrno ≠ 0 then
    s.putAll [.cString (some (r.strerror r.savedErrno)), .cString (some (ascii " (errno=")), .int r.savedErrno,
      .cString (some (ascii ") "))]
    else pure s)
  pure (th, s)

/-- `impl_.stream_ << func << ' '` of the third constructor. -/
def putFunc (r : LogRecord) (s : LogStream) : Except Fault LogStream :=
  match r.ctor with
  | .func _ func => s.putAll [.cString func, .char (chr ' ')]
  | _ => pure s

/-- Up to the end of the full expression: the constructor, and the operands. -/
def stream (r : LogRecord) (th : LogThread) (s : LogStream) : Except Fault (LogThread × LogStream) := do
  let (th, s) ← r.impl th s
  let s ← r.putFunc s
  let s ← r.items.foldlM LogStream.putItem s
  pure (th, s)

def finish (r : LogRecord) (s : LogStream) : Except Fault LogStream := do
  let s ← s.put (.cString (some (ascii " - ")))
  let s ← s.putSourceFile r.file
  s.putAll [.char (chr ':'), .int r.line, .char (chr '\n')]

/-- The destructor, with what it hands to `g_output`. -/
def message (r : LogRecord) (th : LogThread) (s : LogStream) : Except Fault (LogThread × Bytes) := do
  let (th, s) ← r.stream th s
  let s ← r.finish s
  pure (th, s.toStringPiece)

end LogRecord

end Zhengqi
