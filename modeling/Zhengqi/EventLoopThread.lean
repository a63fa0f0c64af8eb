import Zhengqi.EventLoop

/-!
# EventLoopThread

`networking/EventLoopThread.cpp`: the owner's `startLoop` and destructor on one side,
`threadFunc` on the other. The loop is an object on the stack of `threadFunc`; whoever has
its address may call it while it exists.
-/

namespace Zhengqi

/-- Where the owner is. -/
inductive OwnerPhase
  | constructed
  -- In `startLoop`, after `thread_.start()`
  | waiting
  -- `startLoop` has returned
  | started
  -- In the destructor: before `loop_->quit()`, and before `thread_.join()`
  | quitting | joining
  | destroyed
  deriving DecidableEq, Repr

/-- Where `threadFunc` is. -/
inductive ThreadPhase
  | notStarted
  -- In `callback_`, before `loop_` is set
  | callback
  -- Before, in and after `loop.loop()`
  | published | looping | returned
  | exited
  deriving DecidableEq, Repr

structure EventLoopThread (φ : Type) where
  ownerId : Nat
  owner : OwnerPhase := .constructed
  thread : ThreadPhase := .notStarted
  loop : EventLoop φ
  -- Whether `loop_` points to the loop
  loop_ : Bool := false
  deriving DecidableEq, Repr

inductive ThreadLabel (φ : Type)
  -- The owner
  | startLoop | startLoopReturns | dtor | dtorQuit | join
  -- `threadFunc`
  | publish | enterLoop | clear
  -- A step in `loop.loop()`, or a call by some thread
  | loop (l : LoopLabel φ)
  deriving DecidableEq, Repr

def ThreadPhase.alive : ThreadPhase → Bool
  | .notStarted | .exited => false
  | _ => true

/-- `loop.loop()` has been called. -/
def ThreadPhase.entered : ThreadPhase → Bool
  | .looping | .returned | .exited => true
  | _ => false

namespace EventLoopThread

variable {φ : Type}

/-- The loop exists, and a call on it by the new thread itself is made in `callback_` or in `loop()`. -/
def calls (s : EventLoopThread φ) (thread : Nat) : Bool :=
  s.thread.alive && s.loop.calls thread &&
    (!s.loop.isInLoopThread thread || s.thread = .callback || s.thread = .looping)

def startLoop (s : EventLoopThread φ) : EventLoopThread φ :=
  if s.owner = .constructed then { s with owner := .waiting, thread := .callback } else s

def startLoopReturns (s : EventLoopThread φ) : EventLoopThread φ :=
  if s.owner = .waiting && s.loop_ then { s with owner := .started } else s

def dtor (s : EventLoopThread φ) : EventLoopThread φ :=
  if s.owner = .constructed || s.owner = .started then
    { s with owner := if s.loop_ then .quitting else .destroyed }
  else s

def dtorQuit (s : EventLoopThread φ) : Except Fault (EventLoopThread φ) := do
  -- `loop_` is read again
  check (s.loop_ = true) .useAfterFree
  pure { s with owner := .joining, loop := s.loop.setQuit s.ownerId }

def join (s : EventLoopThread φ) : EventLoopThread φ :=
  if s.owner = .joining && s.ownerId ∉ s.loop.quitting && s.thread = .exited then { s with owner := .destroyed } else s

def publish (s : EventLoopThread φ) : EventLoopThread φ :=
  if s.thread = .callback then { s with thread := .published, loop_ := true } else s

def enterLoop (s : EventLoopThread φ) : Except Fault (EventLoopThread φ) := do
  let loop ← s.loop.loop
  pure { s with loop, thread := .looping }

def clear (s : EventLoopThread φ) : EventLoopThread φ :=
  if s.thread = .returned then { s with thread := .exited, loop_ := false } else s

def advance (s : EventLoopThread φ) (wakeup : Bool) : Except Fault (EventLoopThread φ) := do
  let loop ← s.loop.step (.advance wakeup)
  pure { s with loop, thread := if loop.phase.inLoop then .looping else .returned }

def call (s : EventLoopThread φ) (l : LoopLabel φ) : Except Fault (EventLoopThread φ) := do
  let loop ← s.loop.step l
  pure { s with loop }

def step (s : EventLoopThread φ) : ThreadLabel φ → Except Fault (EventLoopThread φ)
  | .startLoop => pure s.startLoop
  | .startLoopReturns => pure s.startLoopReturns
  | .dtor => pure s.dtor
  | .dtorQuit => if s.owner = .quitting && s.loop.calls s.ownerId then s.dtorQuit else pure s
  | .join => pure s.join
  | .publish => pure s.publish
  | .enterLoop => if s.thread = .published then s.enterLoop else pure s
  | .clear => pure s.clear
  | .loop .loop => pure s
  | .loop (.advance wakeup) => if s.thread = .looping then s.advance wakeup else pure s
  | .loop (.wakeup thread) => if s.thread.alive then s.call (.wakeup thread) else pure s
  | .loop (.quit thread) => if s.calls thread then s.call (.quit thread) else pure s
  | .loop (.queueInLoop thread cb) => if s.calls thread then s.call (.queueInLoop thread cb) else pure s

/-- The step executes `EventLoop::quit()`, up to its wake-up. -/
def quits (s : EventLoopThread φ) : ThreadLabel φ → Bool
  | .loop (.quit thread) => s.calls thread
  | .dtorQuit => s.owner = .quitting && s.loop.calls s.ownerId && s.loop_
  | _ => false

end EventLoopThread

end Zhengqi
