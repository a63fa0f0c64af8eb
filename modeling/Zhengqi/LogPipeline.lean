import Zhengqi.AsyncLogging
import Zhengqi.LogFile

/-!
# From AsyncLogging to the log files

`threadFunc` of `utility/AsyncLogging.cpp` with the `LogFile` that it writes to: whatever it passes to
`output.append` goes into the current file, which may roll behind every call.
-/

namespace Zhengqi

/-- What the next step passes to `output.append`. -/
def AsyncLogging.appends (w : AsyncLogging) : AsyncLogging.Label → Option Bytes
  | .threadFunc now =>
    let buffersToWrite := w.thread.buffersToWrite
    match w.thread.pc with
    | .drop => if 25 < buffersToWrite.length then some (dropped now buffersToWrite.length) else none
    | .write i =>
      match buffersToWrite[i]? with
      | some (some b) => some b.data
      | _ => none
    | _ => none
  | .append _ | .stop => none

structure LogPipeline where
  log : AsyncLogging := {}
  file : LogFile

namespace LogPipeline

variable (cfg : LogFileConfig) (clock : Nat → Int)

def start : LogPipeline := { file := LogFile.ctor cfg clock }

def step (s : LogPipeline) (l : AsyncLogging.Label) : Except Fault LogPipeline := do
  let log ← s.log.step l
  let file ← match s.log.appends l with
    | some logline => LogFile.append cfg clock s.file logline
    | none => pure s.file
  pure { log, file }

/-- The files in the order of their opening. -/
def files (s : LogPipeline) : List AppendFile := s.file.closed ++ s.file.file.toList

end LogPipeline

end Zhengqi
