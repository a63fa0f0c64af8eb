import Zhengqi.CountDownLatch

/-!
# Threads

`utility/Thread.cpp`. The thread that owns a `Thread` calls `start` and `join` and destroys it; the new thread runs
`runInThread`, which reaches the `Thread` through the pointers `tid_` and `latch_`. Both go a statement at a time,
and in `latch_` one statement of the latch at a time.
-/

namespace Zhengqi

/-- Where the owner is: in `latch_.wait()`, or in `pthread_join`. -/
inductive OwnerPc
  | outside | waiting | joining
  deriving DecidableEq, Repr

/-- What `runInThread` comes to next. -/
inductive ChildPc
  | unborn | writeTid | callCountDown | countDown | func | finished
  deriving DecidableEq, Repr

inductive ThreadFault
  | useAfterFree
  | latch (f : LatchFault)
  -- `assert(!started_)` and `assert(tid_ > 0)` of `start`, and the assertions of `join`
  | start | tid | join
  deriving DecidableEq, Repr

structure Thread where
  started : Bool := false
  joined : Bool := false
  tid : Nat := 0
  latch : CountDownLatch
  alive : Bool := true
  owner : OwnerPc := .outside
  child : ChildPc := .unborn

namespace Thread

inductive Label
  -- `pthread_create` succeeds or fails
  | start (created : Bool)
  -- A statement of the owner or of the new thread in `latch_`, or a spurious wake-up of the owner
  | next (child : Bool) | wake
  | startReturns
  | child
  | join | joinReturns
  | destroy
  deriving DecidableEq, Repr

/-- A thread object whose thread is to be `tid`. -/
def new (tid : Nat) : Thread where
  latch := .start 1 fun t => if t = tid then 1 else 0

variable (owner tid : Nat)

def possible (th : Thread) : Label → Bool
  | .start _ | .join | .destroy => th.alive && th.owner = .outside
  | .next false => th.owner = .waiting
  | .next true => th.child = .countDown
  | .wake => th.owner = .waiting
  | .startReturns => th.owner = .waiting && th.latch.pc owner = .out
  | .child => th.child ≠ .unborn && th.child ≠ .finished && (th.child ≠ .countDown || th.latch.pc tid = .out)
  | .joinReturns => th.owner = .joining && th.child = .finished

def latchStep (th : Thread) (l : CountDownLatch.Label) : Except ThreadFault Thread :=
  match th.latch.step {owner, tid} l with
  | .ok latch => pure { th with latch }
  | .error f => .error (.latch f)

def start (th : Thread) (created : Bool) : Except ThreadFault Thread :=
  if th.started then .error .start
  else if created then
    { th with started := true, owner := .waiting, child := .writeTid }.latchStep owner tid (.call owner .wait)
  else pure { th with started := false }

/-- `runInThread` -/
def runInThread (th : Thread) : Except ThreadFault Thread :=
  match th.child with
  | .writeTid => if th.alive then pure { th with tid, child := .callCountDown } else .error .useAfterFree
  | .callCountDown =>
    if th.alive then { th with child := .countDown }.latchStep owner tid (.call tid .countDown)
    else .error .useAfterFree
  | .countDown => pure { th with child := .func }
  | .func => pure { th with child := .finished }
  | .unborn | .finished => pure th

def join (th : Thread) : Except ThreadFault Thread :=
  if th.started = true ∧ th.joined = false then pure { th with joined := true, owner := .joining } else .error .join

/-- The destructors of the members follow `~Thread`. -/
def destroy (th : Thread) : Except ThreadFault Thread :=
  match th.latch.act .destroy with
  | .ok latch => pure { th with latch, alive := false }
  | .error f => .error (.latch f)

def act (th : Thread) : Label → Except ThreadFault Thread
  | .start created => th.start owner tid created
  | .next false => th.latchStep owner tid (.next owner)
  | .next true => th.latchStep owner tid (.next tid)
  | .wake => th.latchStep owner tid (.wake owner)
  | .startReturns => if 0 < th.tid then pure { th with owner := .outside } else .error .tid
  | .child => th.runInThread owner tid
  | .join => th.join
  | .joinReturns => pure { th with owner := .outside }
  | .destroy => th.destroy

def step (th : Thread) (l : Label) : Except ThreadFault Thread :=
  if th.possible owner tid l then th.act owner tid l else pure th

end Thread

end Zhengqi
