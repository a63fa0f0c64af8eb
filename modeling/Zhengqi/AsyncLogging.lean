import Zhengqi.Fault
import Zhengqi.LogStream
import Zhengqi.Text

/-!
# AsyncLogging

`utility/AsyncLogging.cpp`, as its threads see it: a call of `append` is one critical section,
and `threadFunc` goes from one step to the next, with its own critical section in one step or,
when it waits for the condition, in two. The calls of `append` come in the order in which they
take the lock.
-/

namespace Zhengqi

/-- A `std::unique_ptr<Buffer>`. -/
abbrev BufferPtr := Option (FixedBuffer kLargeBuffer)

def BufferPtr.deref : BufferPtr → Except Fault (FixedBuffer kLargeBuffer)
  | some b => .ok b
  | none => .error .nullPointer

namespace AsyncLogging

/-- What `threadFunc` does next. -/
inductive Pc
  -- The condition of the loop, and the assertions behind it
  | loop
  -- The critical section, from its begin or from the end of the wait
  | lock | wait
  | drop
  | write (i : Nat)
  | resize | refill1 | refill2 | clear
  | done
  deriving DecidableEq, Repr

/-- The local variables of `threadFunc`. -/
structure Locals where
  pc : Pc := .loop
  newBuffer1 : BufferPtr := some .empty
  newBuffer2 : BufferPtr := some .empty
  buffersToWrite : List BufferPtr := []

end AsyncLogging

structure AsyncLogging where
  running : Bool := true
  currentBuffer : BufferPtr := some .empty
  nextBuffer : BufferPtr := some .empty
  buffers : List BufferPtr := []
  thread : AsyncLogging.Locals := {}
  -- What was passed to `output.append`
  output : Bytes := []

namespace AsyncLogging

def append (w : AsyncLogging) (logline : Bytes) : Except Fault AsyncLogging := do
  let current ← w.currentBuffer.deref
  if logline.length < current.avail then
    pure { w with currentBuffer := some (current.append logline) }
  else
    let buffers := w.buffers ++ [w.currentBuffer]
    -- `nextBuffer_` is moved from, and where it is null a buffer is made
    let next := w.nextBuffer.getD .empty
    pure { w with buffers, currentBuffer := some (next.append logline), nextBuffer := none }

/-- The critical section of `threadFunc`, behind the wait. -/
def take (w : AsyncLogging) : AsyncLogging :=
  let t := w.thread
  let (nextBuffer, newBuffer2) := if w.nextBuffer.isNone then (t.newBuffer2, none) else (w.nextBuffer, t.newBuffer2)
  { w with
    currentBuffer := t.newBuffer1
    nextBuffer
    buffers := t.buffersToWrite
    thread := { pc := .drop, newBuffer1 := none, newBuffer2, buffersToWrite := w.buffers ++ [w.currentBuffer] } }

/-- `assert(p && p->length() == 0)`. -/
def assertEmpty (p : BufferPtr) : Except Fault Unit :=
  match p with
  | some b => check (b.length = 0) .threadFunc
  | none => .error .threadFunc

def dropped (now : Bytes) (size : Nat) : Bytes :=
  snprintf 256 (ascii "Dropped log message at " ++ now ++ ascii ", " ++ decimal (size - 2) ++ ascii " larger buffers\n")

/-- How `newBuffer1` and `newBuffer2` are filled again. -/
def refill (p : BufferPtr) (buffersToWrite : List BufferPtr) : Except Fault (BufferPtr × List BufferPtr) :=
  if p.isNone then do
    check (buffersToWrite ≠ []) .threadFunc
    let b ← BufferPtr.deref (buffersToWrite.getLast?.getD none)
    pure (some b.reset, buffersToWrite.dropLast)
  else pure (p, buffersToWrite)

/-- The next step of `threadFunc`; `now` is the time, in case it has to be printed. -/
def threadFunc (w : AsyncLogging) (now : Bytes) : Except Fault AsyncLogging :=
  let t := w.thread
  match t.pc with
  | .loop =>
    if w.running then do
      assertEmpty t.newBuffer1
      assertEmpty t.newBuffer2
      check (t.buffersToWrite = []) .threadFunc
      pure { w with thread := { t with pc := .lock } }
    else pure { w with thread := { t with pc := .done } }
  | .lock => if w.buffers = [] then pure { w with thread := { t with pc := .wait } } else pure w.take
  | .wait => pure w.take
  | .drop => do
    check (t.buffersToWrite ≠ []) .threadFunc
    if 25 < t.buffersToWrite.length then
      pure { w with
        output := w.output ++ dropped now t.buffersToWrite.length
        thread := { t with buffersToWrite := t.buffersToWrite.take 2, pc := .write 0 } }
    else pure { w with thread := { t with pc := .write 0 } }
  | .write i =>
    match t.buffersToWrite[i]? with
    | some p => do
      let b ← p.deref
      pure { w with output := w.output ++ b.data, thread := { t with pc := .write (i + 1) } }
    | none => pure { w with thread := { t with pc := .resize } }
  | .resize =>
    let buffersToWrite := if 2 < t.buffersToWrite.length then t.buffersToWrite.take 2 else t.buffersToWrite
    pure { w with thread := { t with buffersToWrite, pc := .refill1 } }
  | .refill1 => do
    let (newBuffer1, buffersToWrite) ← refill t.newBuffer1 t.buffersToWrite
    pure { w with thread := { t with newBuffer1, buffersToWrite, pc := .refill2 } }
  | .refill2 => do
    let (newBuffer2, buffersToWrite) ← refill t.newBuffer2 t.buffersToWrite
    pure { w with thread := { t with newBuffer2, buffersToWrite, pc := .clear } }
  | .clear => pure { w with thread := { t with buffersToWrite := [], pc := .loop } }
  | .done => pure w

inductive Label
  | append (logline : Bytes)
  | stop
  | threadFunc (now : Bytes)
  deriving DecidableEq, Repr

def step (w : AsyncLogging) : Label → Except Fault AsyncLogging
  | .append logline => w.append logline
  | .stop => pure { w with running := false }
  | .threadFunc now => w.threadFunc now

end AsyncLogging

end Zhengqi
