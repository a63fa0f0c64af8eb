import Zhengqi.Fault
import Zhengqi.Lib.Monitor

/-!
# ThreadPool

`utility/ThreadPool.cpp`, after `start` with at least one thread. A step is a critical section of
`run`, `take` or `stop`, or a step of `runInThread` outside of them.
-/

namespace Zhengqi

open Monitor

variable {α : Type}

/-- A producer waits with its task. -/
structure ThreadPool (α : Type) where
  maxQueueSize : Nat
  running : Bool := true
  queue : List α := []
  notEmpty : Condition Nat := {}
  notFull : Condition (Nat × α) := {}

namespace ThreadPool

/-- A thread waits, or its call returns with the task that was moved, if any. -/
inductive Outcome (α : Type)
  | waits
  | returns (task : Option α)

def Outcome.task : Outcome α → Option α
  | .waits => none
  | .returns task => task

def isFull (pool : ThreadPool α) : Bool :=
  decide (0 < pool.maxQueueSize) && decide (pool.maxQueueSize ≤ pool.queue.length)

/-- `run` by a thread that has the lock. -/
def run (pool : ThreadPool α) (p : Nat) (task : α) (pick : Nat → Bool) : Except Fault (ThreadPool α × Outcome α) :=
  if pool.isFull && pool.running then pure ({ pool with notFull := pool.notFull.wait (p, task) }, .waits)
  else if pool.running = false then pure (pool, .returns none)
  else do
    check (pool.isFull = false) .run
    pure ({ pool with queue := pool.queue ++ [task], notEmpty := pool.notEmpty.notify pick }, .returns (some task))

/-- `take` by a thread that has the lock. -/
def take (pool : ThreadPool α) (i : Nat) (pick : Nat × α → Bool) : ThreadPool α × Outcome α :=
  match pool.queue with
  | [] =>
    if pool.running then ({ pool with notEmpty := pool.notEmpty.wait i }, .waits) else (pool, .returns none)
  | task :: rest =>
    ({ pool with
        queue := rest
        notFull := if 0 < pool.maxQueueSize then pool.notFull.notify pick else pool.notFull }, .returns (some task))

def stop (pool : ThreadPool α) : ThreadPool α :=
  { pool with running := false, notEmpty := pool.notEmpty.notifyAll, notFull := pool.notFull.notifyAll }

/-- Where a thread is in `runInThread`. -/
inductive Phase
  | test
  | take
  | waits
  | task
  | done
  deriving DecidableEq

def Outcome.phase : Outcome α → Phase
  | .waits => .waits
  | .returns (some _) => .task
  | .returns none => .test

inductive Label (α : Type)
  | test (i : Nat)
  | take (i : Nat) (pick : Nat × α → Bool)
  | resumeTake (i : Nat) (pick : Nat × α → Bool)
  | wakeTake (i : Nat)
  | finish (i : Nat)
  | run (p : Nat) (task : α) (pick : Nat → Bool)
  | resumeRun (p : Nat) (pick : Nat → Bool)
  | wakeRun (p : Nat)
  | stop

/-- The pool with its threads, and the tasks that were accepted and taken. -/
structure System (α : Type) where
  pool : ThreadPool α
  threads : List Phase
  accepted : List α := []
  taken : List α := []

namespace System

def take (s : System α) (pool : ThreadPool α) (i : Nat) (pick : Nat × α → Bool) : System α :=
  let (pool, out) := pool.take i pick
  { s with pool, threads := s.threads.set i out.phase, taken := s.taken ++ out.task.toList }

def run (s : System α) (pool : ThreadPool α) (p : Nat) (task : α) (pick : Nat → Bool) : Except Fault (System α) := do
  let (pool, out) ← pool.run p task pick
  pure { s with pool, accepted := s.accepted ++ out.task.toList }

def step (s : System α) : Label α → Except Fault (System α)
  | .test i =>
    if s.threads[i]? = some .test then
      pure { s with threads := s.threads.set i (if s.pool.running then .take else .done) }
    else pure s
  | .take i pick => if s.threads[i]? = some .take then pure (s.take s.pool i pick) else pure s
  | .resumeTake i pick =>
    match s.pool.notEmpty.resume (· == i) with
    | some (i, notEmpty) => pure (s.take { s.pool with notEmpty } i pick)
    | none => pure s
  | .wakeTake i => pure { s with pool := { s.pool with notEmpty := s.pool.notEmpty.wake (· == i) } }
  | .finish i => if s.threads[i]? = some .task then pure { s with threads := s.threads.set i .test } else pure s
  | .run p task pick => if s.pool.notFull.members.any (·.1 == p) then pure s else s.run s.pool p task pick
  | .resumeRun p pick =>
    match s.pool.notFull.resume (·.1 == p) with
    | some ((p, task), notFull) => s.run { s.pool with notFull } p task pick
    | none => pure s
  | .wakeRun p => pure { s with pool := { s.pool with notFull := s.pool.notFull.wake (·.1 == p) } }
  | .stop => pure { s with pool := s.pool.stop }

def init (n maxQueueSize : Nat) : System α := { pool := { maxQueueSize }, threads := List.replicate n .test }

end System

end ThreadPool

end Zhengqi
