import Zhengqi.Fault
import Zhengqi.Lib.Monitor

/-!
# BoundedBlockingQueue

`utility/BoundedBlockingQueue.h`. A step is a critical section: a thread enters `put` or `take`, or
comes back from the `wait` of one of them.
-/

namespace Zhengqi

open Monitor

variable {α : Type}

/-- A producer waits with the value it puts. -/
structure BoundedBlockingQueue (α : Type) where
  capacity : Nat
  queue : List α := []
  notEmpty : Condition Nat := {}
  notFull : Condition (Nat × α) := {}

namespace BoundedBlockingQueue

def full (q : BoundedBlockingQueue α) : Bool := q.queue.length = q.capacity

/-- The loop of `put`, by a thread that has the lock. -/
def put (q : BoundedBlockingQueue α) (t : Nat) (x : α) (pick : Nat → Bool) : Except Fault (BoundedBlockingQueue α) :=
  if q.full then pure { q with notFull := q.notFull.wait (t, x) }
  else do
    check (q.full = false) .put
    pure { q with queue := q.queue ++ [x], notEmpty := q.notEmpty.notify pick }

/-- The loop of `take`, with the value that it returns. -/
def take (q : BoundedBlockingQueue α) (t : Nat) (pick : Nat × α → Bool) :
    Except Fault (BoundedBlockingQueue α × Option α) :=
  match q.queue with
  | [] => pure ({ q with notEmpty := q.notEmpty.wait t }, none)
  | front :: rest => do
    check (q.queue ≠ []) .take
    pure ({ q with queue := rest, notFull := q.notFull.notify pick }, some front)

def inside (q : BoundedBlockingQueue α) (t : Nat) : Bool :=
  q.notEmpty.members.any (· == t) || q.notFull.members.any (·.1 == t)

/-- What a scheduler can do. A notification is given the waiters it reaches. -/
inductive Label (α : Type)
  | put (t : Nat) (x : α) (pick : Nat → Bool)
  | take (t : Nat) (pick : Nat × α → Bool)
  | resumePut (t : Nat) (pick : Nat → Bool)
  | resumeTake (t : Nat) (pick : Nat × α → Bool)
  | wakePut (t : Nat)
  | wakeTake (t : Nat)

/-- The queue, and the values that the calls of `take` returned, in lock order. -/
structure System (α : Type) where
  q : BoundedBlockingQueue α
  takes : List α := []

namespace System

def put (s : System α) (q : BoundedBlockingQueue α) (t : Nat) (x : α) (pick : Nat → Bool) :
    Except Fault (System α) := do
  let q ← q.put t x pick
  pure { s with q }

def take (s : System α) (q : BoundedBlockingQueue α) (t : Nat) (pick : Nat × α → Bool) : Except Fault (System α) := do
  let (q, x) ← q.take t pick
  pure { s with q, takes := s.takes ++ x.toList }

def step (s : System α) : Label α → Except Fault (System α)
  | .put t x pick => if s.q.inside t then pure s else s.put s.q t x pick
  | .take t pick => if s.q.inside t then pure s else s.take s.q t pick
  | .resumePut t pick =>
    match s.q.notFull.resume (·.1 == t) with
    | some ((t, x), notFull) => s.put { s.q with notFull } t x pick
    | none => pure s
  | .resumeTake t pick =>
    match s.q.notEmpty.resume (· == t) with
    | some (t, notEmpty) => s.take { s.q with notEmpty } t pick
    | none => pure s
  | .wakePut t => pure { s with q := { s.q with notFull := s.q.notFull.wake (·.1 == t) } }
  | .wakeTake t => pure { s with q := { s.q with notEmpty := s.q.notEmpty.wake (· == t) } }

def init (capacity : Nat) : System α := { q := { capacity } }

end System

end BoundedBlockingQueue

end Zhengqi
