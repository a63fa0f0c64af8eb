import Zhengqi.Fault

/-!
# EventLoop

`networking/EventLoop.cpp`: the queue of functors, the wake-up descriptor and the
loop. The thread of the loop and the other threads take turns in any order; a critical
section of `mutex_` is one step. What the functors and the handlers of channels do is
seen only through the calls they make, so the model is the same for every type of
functors.
-/

namespace Zhengqi

/-- Where the thread of the loop is. -/
inductive LoopPhase (φ : Type)
  -- Not in `loop()`
  | outside
  -- At the condition of `while`: for the first time in this call of `loop()`, or again
  | test (again : Bool)
  -- In `poller_->poll`
  | poll
  -- In the handlers of the active channels; whether that of `wakeupFd_` is still to come
  | handleEvent (wakeup : Bool)
  -- In `doPendingFunctors`, before `swap`
  | swap
  -- The functors that are left of the batch, and whether one of it has been started
  | functors (running : Bool) (rest : List φ)
  deriving DecidableEq, Repr

structure EventLoop (φ : Type) where
  threadId : Nat
  looping : Bool := false
  quit : Bool := false
  callingPendingFunctors : Bool := false
  -- The counter of the eventfd
  wakeupFd : Nat := 0
  pendingFunctors : List φ := []
  phase : LoopPhase φ := .outside
  -- The threads that are in `queueInLoop`, and in `quit`, just before `wakeup()`
  queueing : List Nat := []
  quitting : List Nat := []
  -- The functors in the order of the critical sections of `queueInLoop`; those of the queue that have been called
  enqueued : List φ := []
  executed : List φ := []
  deriving DecidableEq, Repr

inductive LoopLabel (φ : Type)
  | queueInLoop (thread : Nat) (cb : φ)
  | quit (thread : Nat)
  -- The `wakeup()` of a thread that is in one of the two calls above
  | wakeup (thread : Nat)
  | loop
  -- The next statement of `loop()`; `wakeup` is whether `poll` reports `wakeupFd_` when it is readable
  | advance (wakeup : Bool)
  deriving DecidableEq, Repr

def LoopPhase.inLoop {φ : Type} : LoopPhase φ → Bool
  | .outside => false
  | _ => true

/-- The thread of the loop runs a handler, a functor, or code outside `loop()`. -/
def LoopPhase.userCode {φ : Type} : LoopPhase φ → Bool
  | .outside | .handleEvent _ | .functors true _ => true
  | _ => false

/-- What is left of the batch that `doPendingFunctors` has taken. -/
def LoopPhase.batch {φ : Type} : LoopPhase φ → List φ
  | .functors _ rest => rest
  | _ => []

namespace EventLoop

variable {φ : Type}

def isInLoopThread (s : EventLoop φ) (thread : Nat) : Bool := thread = s.threadId

/-- The thread can make a call: it is not in the middle of one, and the loop's own makes it
from user code. -/
def calls (s : EventLoop φ) (thread : Nat) : Bool :=
  thread ∉ s.queueing && thread ∉ s.quitting && (!s.isInLoopThread thread || s.phase.userCode)

def queueInLoop (s : EventLoop φ) (thread : Nat) (cb : φ) : EventLoop φ :=
  { s with
    pendingFunctors := s.pendingFunctors ++ [cb], enqueued := s.enqueued ++ [cb]
    queueing :=
      if !s.isInLoopThread thread || s.callingPendingFunctors then s.queueing ++ [thread] else s.queueing }

def setQuit (s : EventLoop φ) (thread : Nat) : EventLoop φ :=
  { s with
    quit := true
    quitting := if !s.isInLoopThread thread then s.quitting ++ [thread] else s.quitting }

def wakeup (s : EventLoop φ) (thread : Nat) : EventLoop φ :=
  { s with
    wakeupFd := s.wakeupFd + 1
    queueing := s.queueing.filter (· ≠ thread), quitting := s.quitting.filter (· ≠ thread) }

/-- `loop()` up to its `while`. -/
def loop (s : EventLoop φ) : Except Fault (EventLoop φ) := do
  check (s.looping = false) .loop
  pure { s with looping := true, quit := false, phase := .test false }

def test (s : EventLoop φ) : EventLoop φ :=
  if s.quit then { s with looping := false, phase := .outside } else { s with phase := .poll }

def poll (s : EventLoop φ) (wakeup : Bool) : EventLoop φ :=
  { s with phase := .handleEvent (wakeup && 0 < s.wakeupFd) }

/-- The callback of `wakeupChannel_`; a `read` takes the whole counter. -/
def handleRead (s : EventLoop φ) : EventLoop φ := { s with wakeupFd := 0, phase := .handleEvent false }

def doPendingFunctors (s : EventLoop φ) : EventLoop φ := { s with callingPendingFunctors := true, phase := .swap }

def swap (s : EventLoop φ) : EventLoop φ :=
  { s with pendingFunctors := [], phase := .functors false s.pendingFunctors }

def runFunctor (s : EventLoop φ) (cb : φ) (rest : List φ) : EventLoop φ :=
  { s with executed := s.executed ++ [cb], phase := .functors true rest }

def endFunctors (s : EventLoop φ) : EventLoop φ := { s with callingPendingFunctors := false, phase := .test true }

def advance (s : EventLoop φ) (wakeup : Bool) : EventLoop φ :=
  match s.phase with
  | .outside => s
  | .test _ => s.test
  | .poll => s.poll wakeup
  | .handleEvent true => s.handleRead
  | .handleEvent false => s.doPendingFunctors
  | .swap => s.swap
  | .functors _ (cb :: rest) => s.runFunctor cb rest
  | .functors _ [] => s.endFunctors

def step (s : EventLoop φ) : LoopLabel φ → Except Fault (EventLoop φ)
  | .queueInLoop thread cb => pure (if s.calls thread then s.queueInLoop thread cb else s)
  | .quit thread => pure (if s.calls thread then s.setQuit thread else s)
  | .wakeup thread => pure (if thread ∈ s.queueing ∨ thread ∈ s.quitting then s.wakeup thread else s)
  | .loop => if s.phase.inLoop then pure s else s.loop
  -- The thread of the loop is not done with a call of its own
  | .advance wakeup => pure (if s.threadId ∈ s.queueing then s else s.advance wakeup)

/-- A wake-up has been written, or another thread has queued its functor and is about to write one. -/
def announced (s : EventLoop φ) : Bool := 0 < s.wakeupFd || s.queueing.any (· ≠ s.threadId)

/-- `loop()` enters its first `poll` with functors in the queue that nobody has announced. -/
def silent (s : EventLoop φ) : LoopLabel φ → Bool
  | .advance _ => s.phase matches .test false && !s.quit && !s.pendingFunctors.isEmpty && !s.announced
  | _ => false

end EventLoop

end Zhengqi
