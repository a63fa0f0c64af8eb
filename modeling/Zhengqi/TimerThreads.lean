import Zhengqi.TimerQueue

/-!
# addTimer in other threads

`TimerQueue::addTimer` in a thread that is not the loop's creates the timer, puts
`addTimerInLoop` into the loop's queue, and then reads `timer->sequence()` for the
`TimerId` it returns. The three steps interleave with those of other calls and with the
steps of the loop's thread.
-/

namespace Zhengqi

/-- A call of `addTimer` that has not returned. -/
structure AddTimer where
  timer : Addr
  -- Of the timer that the call has created
  sequence : Nat
  repeats : Bool
  -- Whether `addTimerInLoop` has been put into the queue
  queued : Bool := false

structure Returned where
  created : ActiveTimer
  timerId : ActiveTimer

structure TimerThreads where
  queue : TimerQueue := {}
  calls : List AddTimer := []
  returned : List Returned := []

inductive ThreadStep
  | create (p : Addr) (when : Timestamp) (interval : Interval)
  -- The calls are told apart by the number of the timer they have created
  | enqueue (sequence : Nat)
  | readSequence (sequence : Nat)
  | loop (op : TimerOp)

namespace TimerThreads

/-- A `TimerId` that some code can pass to `cancel`. -/
def knows (s : TimerThreads) (id : ActiveTimer) : Bool := id = ⟨0, 0⟩ || s.returned.any (·.timerId = id)

/-- The call that is about to read its timer's number. -/
def reader (s : TimerThreads) (sequence : Nat) : Option AddTimer :=
  s.calls.find? fun c => c.sequence = sequence && c.queued

def loop (s : TimerThreads) (op : TimerOp) : Except Fault TimerThreads := do
  let queue ← s.queue.step op
  pure { s with queue }

/-- `addTimer` in the loop's thread. -/
def addTimer (s : TimerThreads) (p : Addr) (when : Timestamp) (interval : Interval) (now : Timestamp) :
    Except Fault TimerThreads := do
  let queue ← s.queue.step (.addTimer p when interval now)
  let t ← queue.deref p
  pure { s with queue, returned := s.returned ++ [⟨⟨p, s.queue.numCreated + 1⟩, ⟨p, t.sequence⟩⟩] }

def create (s : TimerThreads) (p : Addr) (when : Timestamp) (interval : Interval) : Except Fault TimerThreads := do
  let queue ← s.queue.step (.newTimer p when interval)
  pure { s with
    queue
    calls := s.calls ++ [{ timer := p, sequence := queue.numCreated, repeats := interval.positive }] }

def enqueue (s : TimerThreads) (sequence : Nat) : TimerThreads :=
  { s with calls := s.calls.map fun c => if c.sequence = sequence then { c with queued := true } else c }

def readSequence (s : TimerThreads) (c : AddTimer) : Except Fault TimerThreads := do
  let t ← s.queue.deref c.timer
  pure { s with
    calls := s.calls.filter (·.sequence ≠ c.sequence)
    returned := s.returned ++ [⟨⟨c.timer, c.sequence⟩, ⟨c.timer, t.sequence⟩⟩] }

def step (s : TimerThreads) : ThreadStep → Except Fault TimerThreads
  | .create p when interval => if s.queue.allocates p then s.create p when interval else pure s
  | .enqueue sequence => pure (s.enqueue sequence)
  | .readSequence sequence => (s.reader sequence).elim (pure s) s.readSequence
  | .loop (.newTimer ..) => pure s
  | .loop (.addTimer p when interval now) =>
    if s.queue.allocates p then s.addTimer p when interval now else pure s
  | .loop (.addTimerInLoop p now) =>
    if s.calls.any (fun c => c.timer = p && !c.queued) then pure s else s.loop (.addTimerInLoop p now)
  | .loop (.cancelInLoop id) => if s.knows id then s.loop (.cancelInLoop id) else pure s
  | .loop op => s.loop op

/-- The `handleRead` that ran the timer's callback has returned. -/
def finished (q : TimerQueue) (sequence : Nat) : Bool :=
  q.fired.any fun f => f.sequence = sequence && (q.running.isNone || f.batch < q.batches)

/-- The step reads the number of a timer that does not repeat, after the `handleRead` that
ran its callback has returned. -/
def late (s : TimerThreads) : ThreadStep → Bool
  | .readSequence sequence => (s.reader sequence).any fun c => !c.repeats && finished s.queue sequence
  | _ => false

end TimerThreads

end Zhengqi
