import Zhengqi.Fault
import Zhengqi.Lib.Monitor

/-!
# BlockingQueue

`utility/BlockingQueue.h`, with a critical section as a step: any threads call `put`, `take` and `drain`, and come
back from the `wait` of `take`.
-/

namespace Zhengqi

open Monitor

/-- The queue, and the values that the calls of `take` and `drain` returned, in the order of the critical sections. -/
structure BlockingQueue (α : Type) where
  queue : List α := []
  notEmpty : Condition Nat := {}
  takes : List α := []

namespace BlockingQueue

variable {α : Type}

/-- Both overloads. `pick` are the waiters that the notification reaches. -/
def put (q : BlockingQueue α) (x : α) (pick : Nat → Bool) : BlockingQueue α :=
  { q with queue := q.queue ++ [x], notEmpty := q.notEmpty.notify pick }

/-- The loop of `take`, by a thread that has the lock. -/
def take (q : BlockingQueue α) (t : Nat) : Except Fault (BlockingQueue α) :=
  match q.queue with
  | [] => pure { q with notEmpty := q.notEmpty.wait t }
  | front :: rest => do
    check (q.queue ≠ []) .take
    pure { q with queue := rest, takes := q.takes ++ [front] }

def drain (q : BlockingQueue α) : BlockingQueue α := { q with queue := [], takes := q.takes ++ q.queue }

inductive Label (α : Type)
  | put (x : α) (pick : Nat → Bool)
  | take (t : Nat)
  | resume (t : Nat)
  | wake (t : Nat)
  | drain

/-- A thread that is inside `take` does not call it. -/
def step (q : BlockingQueue α) : Label α → Except Fault (BlockingQueue α)
  | .put x pick => pure (q.put x pick)
  | .take t => if t ∈ q.notEmpty.members then pure q else q.take t
  | .resume t =>
    match q.notEmpty.resume (· == t) with
    | some (t, notEmpty) => { q with notEmpty }.take t
    | none => pure q
  | .wake t => pure { q with notEmpty := q.notEmpty.wake (· == t) }
  | .drain => pure q.drain

end BlockingQueue

end Zhengqi
