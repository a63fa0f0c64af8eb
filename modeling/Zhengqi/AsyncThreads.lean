import Zhengqi.AsyncLogging

/-!
# AsyncLogging with its mutex

In `AsyncLogging` a critical section is one step. Here the sections of `append` and `threadFunc` go
statement by statement, with whatever other threads do between two of them, and the object is
there from its constructor on: `start` makes the thread, and waits until `threadFunc` counts
`latch_` down.
-/

namespace Zhengqi

namespace AsyncLogging

/-- The statement of `append` that comes next, behind the lock. -/
inductive AppendPc
  | test | copy | push | next | unlock
  deriving DecidableEq, Repr

/-- The same in the critical section of `threadFunc`. -/
inductive TakePc
  | test | push | current | swap | next | unlock
  deriving DecidableEq, Repr

def appendStmt (logline : Bytes) (w : AsyncLogging) : AppendPc → Except Fault (AsyncLogging × Option AppendPc)
  | .test => do
    let current ← w.currentBuffer.deref
    pure (w, some (if logline.length < current.avail then .copy else .push))
  -- In both branches; `cond_.notify()` has no effect here, since a wait may end at any time
  | .copy => do
    let current ← w.currentBuffer.deref
    pure ({ w with currentBuffer := some (current.append logline) }, some .unlock)
  -- A pointer that is moved from is null
  | .push => pure ({ w with buffers := w.buffers ++ [w.currentBuffer], currentBuffer := none }, some .next)
  | .next =>
    if w.nextBuffer.isSome then pure ({ w with currentBuffer := w.nextBuffer, nextBuffer := none }, some .copy)
    else pure ({ w with currentBuffer := some .empty }, some .copy)
  | .unlock => pure (w, none)

def takeStmt (w : AsyncLogging) : TakePc → Except Fault (AsyncLogging × Option TakePc)
  | .test =>
    -- `cond_.waitForSeconds` releases the mutex
    if w.buffers = [] then pure ({ w with thread := { w.thread with pc := .wait } }, none)
    else pure (w, some .push)
  | .push => pure ({ w with buffers := w.buffers ++ [w.currentBuffer], currentBuffer := none }, some .current)
  | .current =>
    pure ({ w with currentBuffer := w.thread.newBuffer1, thread := { w.thread with newBuffer1 := none } }, some .swap)
  | .swap =>
    pure ({ w with buffers := w.thread.buffersToWrite, thread := { w.thread with buffersToWrite := w.buffers } },
      some .next)
  | .next =>
    if w.nextBuffer.isNone then
      pure ({ w with nextBuffer := w.thread.newBuffer2, thread := { w.thread with newBuffer2 := none } }, some .unlock)
    else pure (w, some .unlock)
  | .unlock => pure ({ w with thread := { w.thread with pc := .drop } }, none)

/-- Who holds `mutex_`, and does what next. -/
inductive Holder
  | append (logline : Bytes) (pc : AppendPc)
  | threadFunc (pc : TakePc)
  deriving DecidableEq, Repr

/-- How far `start` has come. -/
inductive Stage
  | constructed
  -- Behind `running_ = true`
  | running
  -- Behind `thread_.start()`; then `threadFunc` has counted `latch_` down
  | created | counted
  | returned
  deriving DecidableEq, Repr

/-- `threadFunc` is in its loop, or behind it. -/
def Stage.begun : Stage → Bool
  | .constructed | .running | .created => false
  | .counted | .returned => true

structure Threads where
  stage : Stage := .constructed
  log : AsyncLogging := { running := false }
  mutex : Option Holder := none

namespace Threads

inductive Label
  -- The owner, in `start` and then in `stop`
  | start | stop
  -- A thread calls `append`, and gets the mutex
  | append (logline : Bytes)
  -- The next statement of the thread that holds the mutex
  | next
  -- The next step of `threadFunc` outside of its critical section
  | threadFunc (now : Bytes)
  deriving DecidableEq, Repr

/-- While the mutex is held, nobody else gets it. -/
def lock (s : Threads) (h : Holder) : Threads := if s.mutex.isNone then { s with mutex := some h } else s

def start (s : Threads) : Threads :=
  match s.stage with
  | .constructed => { s with stage := .running, log := { s.log with running := true } }
  | .running => { s with stage := .created }
  -- `latch_.wait()`
  | .created => s
  | .counted | .returned => { s with stage := .returned }

/-- The owner calls `stop` when `start` has returned. -/
def stop (s : Threads) : Threads :=
  if s.stage = .returned then { s with log := { s.log with running := false } } else s

def next (s : Threads) : Except Fault Threads :=
  match s.mutex with
  | none => pure s
  | some (.append logline pc) => do
    let (log, pc) ← s.log.appendStmt logline pc
    pure { s with log, mutex := pc.map (.append logline) }
  | some (.threadFunc pc) => do
    let (log, pc) ← s.log.takeStmt pc
    pure { s with log, mutex := pc.map .threadFunc }

/-- The loop of `threadFunc`. -/
def loop (s : Threads) (now : Bytes) : Except Fault Threads :=
  match s.log.thread.pc with
  | .lock => pure (s.lock (.threadFunc .test))
  -- The wait is over, by a notification or by the time, and asks for the mutex again
  | .wait => pure (s.lock (.threadFunc .push))
  | _ => do
    let log ← s.log.threadFunc now
    pure { s with log }

def threadFunc (s : Threads) (now : Bytes) : Except Fault Threads :=
  match s.stage with
  | .constructed | .running => pure s
  | .created => do
    check (s.log.running = true) .threadFunc
    pure { s with stage := .counted, log := { s.log with thread := {} } }
  | .counted | .returned => s.loop now

def step (s : Threads) : Label → Except Fault Threads
  | .start => pure s.start
  | .stop => pure s.stop
  | .append logline => pure (s.lock (.append logline .test))
  | .next => s.next
  | .threadFunc now => s.threadFunc now

end Threads

end AsyncLogging

end Zhengqi
