import Zhengqi.Lib.Run
import Mathlib.Algebra.BigOperators.Group.Finset.Basic
import Mathlib.Logic.Function.Basic

/-!
# Latches

`utility/MutexLock.h`, `Condition.h` and `CountDownLatch.cpp`, one statement at a time. Any number of threads
call `wait` and `countDown` of one latch, which is destroyed after a `wait` has returned. Threads are named by
their `tid`, which is not 0.
-/

namespace Zhengqi

structure MutexLock where
  -- The thread that has locked `mutex_`
  owner : Option Nat := none
  holder : Nat := 0
  deriving DecidableEq

namespace MutexLock

def isLockedByThisThread (m : MutexLock) (tid : Nat) : Bool := m.holder = tid

def assignHolder (m : MutexLock) (tid : Nat) : MutexLock := { m with holder := tid }

def unassignHolder (m : MutexLock) : MutexLock := { m with holder := 0 }

end MutexLock

inductive LatchCall
  | wait | countDown
  deriving DecidableEq, Repr

/-- The statement that a thread comes to next. -/
inductive LatchPc
  | out
  -- `MutexLockGuard lock(mutex_)`
  | lock (c : LatchCall) | assign (c : LatchCall)
  -- `while (count_ > 0)`, and `condition_.wait()`: `blocked` and `wakened` are in `pthread_cond_wait`
  | test | unassignGuard | condWait | blocked | wakened | assignGuard
  -- `countDown`
  | decrement | notifyAll
  -- `~MutexLockGuard`
  | unassign (c : LatchCall) | unlock (c : LatchCall)
  deriving DecidableEq, Repr

inductive LatchFault
  | useAfterFree
  -- `assert(holder_ == 0)` of `~MutexLock`
  | destroyed
  deriving DecidableEq, Repr

structure CountDownLatch where
  mutex : MutexLock := {}
  count : Int
  pc : Nat → LatchPc := fun _ => .out
  -- How often each thread has still to count down
  left : Nat → Nat
  -- The threads whose `wait` has returned
  returned : List Nat := []
  alive : Bool := true

namespace LatchPc

/-- Between the statements that take and leave `mutex_`. -/
def holds : LatchPc → Bool
  | .out | .lock _ | .blocked | .wakened => false
  | _ => true

/-- Between the statements that set and clear `holder_`. -/
def inside : LatchPc → Bool
  | .test | .unassignGuard | .decrement | .notifyAll | .unassign _ => true
  | _ => false

def inWait : LatchPc → Bool
  | .lock c | .assign c | .unassign c | .unlock c => c = .wait
  | .test | .unassignGuard | .condWait | .blocked | .wakened | .assignGuard => true
  | _ => false

end LatchPc

namespace CountDownLatch

inductive Label
  | call (t : Nat) (c : LatchCall)
  | next (t : Nat)
  -- A spurious wake-up
  | wake (t : Nat)
  | destroy
  deriving DecidableEq, Repr

def goto (l : CountDownLatch) (t : Nat) (p : LatchPc) : CountDownLatch := { l with pc := Function.update l.pc t p }

/-- The next statement of a thread; a thread that cannot go on stays where it is. -/
def next (l : CountDownLatch) (t : Nat) : CountDownLatch :=
  match l.pc t with
  | .out | .blocked => l
  | .lock c =>
    if l.mutex.owner = none then { l.goto t (.assign c) with mutex := { l.mutex with owner := some t } } else l
  | .assign c =>
    { l.goto t (match c with | .wait => .test | .countDown => .decrement) with mutex := l.mutex.assignHolder t }
  | .test => if 0 < l.count then l.goto t .unassignGuard else l.goto t (.unassign .wait)
  | .unassignGuard => { l.goto t .condWait with mutex := l.mutex.unassignHolder }
  | .condWait => { l.goto t .blocked with mutex := { l.mutex with owner := none } }
  | .wakened =>
    if l.mutex.owner = none then { l.goto t .assignGuard with mutex := { l.mutex with owner := some t } } else l
  | .assignGuard => { l.goto t .test with mutex := l.mutex.assignHolder t }
  | .decrement =>
    { l.goto t (if l.count - 1 = 0 then .notifyAll else .unassign .countDown) with
      count := l.count - 1, left := Function.update l.left t (l.left t - 1) }
  | .notifyAll =>
    { l with pc := Function.update (fun u => if l.pc u = .blocked then .wakened else l.pc u) t (.unassign .countDown) }
  | .unassign c => { l.goto t (.unlock c) with mutex := l.mutex.unassignHolder }
  | .unlock c =>
    { l.goto t .out with
      mutex := { l.mutex with owner := none }, returned := if c = .wait then l.returned ++ [t] else l.returned }

/-- A latch may be destroyed when a `wait` has returned and none is going on. -/
def possible (threads : Finset Nat) (l : CountDownLatch) : Label → Bool
  | .call t c => t ∈ threads && l.pc t = .out && l.alive && (c = .wait || 0 < l.left t)
  | .next t => t ∈ threads && l.pc t ≠ .out
  | .wake t => t ∈ threads && l.pc t = .blocked
  | .destroy => l.alive && l.returned ≠ [] && decide (∀ t ∈ threads, (l.pc t).inWait = false)

def act (l : CountDownLatch) : Label → Except LatchFault CountDownLatch
  | .call t c => pure (l.goto t (.lock c))
  | .next t => if l.alive then pure (l.next t) else .error .useAfterFree
  | .wake t => if l.alive then pure (l.goto t .wakened) else .error .useAfterFree
  | .destroy => if l.mutex.holder = 0 then pure { l with alive := false } else .error .destroyed

def step (threads : Finset Nat) (l : CountDownLatch) (lb : Label) : Except LatchFault CountDownLatch :=
  if l.possible threads lb then l.act lb else pure l

/-- The constructor, with the calls of `countDown` that the threads are to make. -/
def start (count : Int) (calls : Nat → Nat) : CountDownLatch where
  count
  left := calls

end CountDownLatch

end Zhengqi
