import Zhengqi.Fault
import Zhengqi.Lib.OrdSet
import Zhengqi.Timestamp
import Mathlib.Algebra.Group.Nat.Defs
import Mathlib.Data.Prod.Lex
import Mathlib.Logic.Function.Basic

/-!
# TimerQueue

`networking/TimerQueue.cpp` and `networking/Timer.h`. Timers are objects in a
heap whose addresses may be used again. `handleRead` is cut at the callbacks it
makes, so that the calls of the user's code come between its parts; the locals
that live across them are the `Batch`.
-/

namespace Zhengqi

abbrev Addr := Nat

def UINTPTR_MAX : Addr := 2 ^ 64 - 1

/-- A number of seconds, as the code reads it: whether it is positive, and the
microseconds that `addTime` truncates it to. -/
structure Interval where
  positive : Bool
  micros : Int
  micros_nonneg : positive = true → 0 ≤ micros

structure Timer where
  expiration : Timestamp
  interval : Interval
  sequence : Nat

namespace Timer

def repeats (t : Timer) : Bool := t.interval.positive

def restart (t : Timer) (now : Timestamp) : Timer :=
  if t.repeats then { t with expiration := now + t.interval.micros } else { t with expiration := 0 }

end Timer

/-- An element of `timers_`, a pair ordered by time first. -/
structure Entry where
  expiration : Timestamp
  timer : Addr

/-- An element of `activeTimers_`, and the contents of a `TimerId`. -/
structure ActiveTimer where
  timer : Addr
  sequence : Nat

instance : LinearOrder Entry :=
  LinearOrder.lift' (fun e => toLex (e.expiration, e.timer)) fun a b h => by cases a; cases b; simpa using h

instance : LinearOrder ActiveTimer :=
  LinearOrder.lift' (fun e => toLex (e.timer, e.sequence)) fun a b h => by cases a; cases b; simpa using h

def howMuchTimeFromNow (when now : Timestamp) : Timespec :=
  let microseconds := if when - now < 100 then 100 else when - now
  ⟨microseconds.tdiv kMicroSecondsPerSecond, microseconds.tmod kMicroSecondsPerSecond * 1000⟩

structure Arming where
  now : Timestamp
  value : Timespec
  deriving DecidableEq, Repr

/-- A `delete`, with what the sets held of the timer at that moment. -/
structure Deletion where
  sequence : Nat
  inTimers : Bool
  inActive : Bool
  -- Made by `cancelInLoop`
  byCancel : Bool
  deriving DecidableEq, Repr

structure Firing where
  sequence : Nat
  expiration : Timestamp
  now : Timestamp
  batch : Nat
  deriving DecidableEq, Repr

/-- `now` and `expired` of a `handleRead` that is running callbacks, and those
entries whose callback has not started. -/
structure Batch where
  now : Timestamp
  expired : List Entry
  rest : List Entry

structure TimerQueue where
  timers : OrdSet Entry := .empty
  activeTimers : OrdSet ActiveTimer := .empty
  callingExpiredTimers : Bool := false
  cancelingTimers : OrdSet ActiveTimer := .empty
  -- The timers that have not been deleted
  heap : Addr → Option Timer := fun _ => none
  -- `Timer::s_numCreated_`
  numCreated : Nat := 0
  -- Timers whose `addTimerInLoop` is still a functor in the loop's queue
  inflight : List Addr := []
  running : Option Batch := none
  -- what has happened so far
  batches : Nat := 0
  created : List ActiveTimer := []
  deleted : List Deletion := []
  fired : List Firing := []
  armings : List Arming := []

namespace TimerQueue

def deref (q : TimerQueue) (p : Addr) : Except Fault Timer :=
  match q.heap p with
  | some t => .ok t
  | none => .error .useAfterFree

def resetTimerfd (q : TimerQueue) (expiration now : Timestamp) : TimerQueue :=
  { q with armings := q.armings ++ [⟨now, howMuchTimeFromNow expiration now⟩] }

def create (q : TimerQueue) (p : Addr) (when : Timestamp) (interval : Interval) : TimerQueue :=
  { q with
    heap := Function.update q.heap p (some ⟨when, interval, q.numCreated + 1⟩)
    numCreated := q.numCreated + 1
    created := q.created ++ [⟨p, q.numCreated + 1⟩] }

def delete (q : TimerQueue) (p : Addr) (byCancel : Bool) : Except Fault TimerQueue := do
  let t ← q.deref p
  pure { q with
    heap := Function.update q.heap p none
    deleted := q.deleted ++
      [⟨t.sequence, q.timers.toList.any (·.timer = p), q.activeTimers.toList.any (·.timer = p), byCancel⟩] }

def earliestChanged (q : TimerQueue) (when : Timestamp) : Bool :=
  match q.timers.first with
  | none => true
  | some e => when < e.expiration

def insert (q : TimerQueue) (p : Addr) : Except Fault (TimerQueue × Bool) := do
  check (q.timers.size = q.activeTimers.size) .timerInsert
  let t ← q.deref p
  let earliestChanged := q.earliestChanged t.expiration
  check (⟨t.expiration, p⟩ ∉ q.timers) .timerInsert
  check (⟨p, t.sequence⟩ ∉ q.activeTimers) .timerInsert
  pure ({ q with
    timers := q.timers.insert ⟨t.expiration, p⟩
    activeTimers := q.activeTimers.insert ⟨p, t.sequence⟩ }, earliestChanged)

def addTimerInLoop (q : TimerQueue) (p : Addr) (now : Timestamp) : Except Fault TimerQueue := do
  let (q, earliestChanged) ← q.insert p
  if earliestChanged then
    let t ← q.deref p
    pure (q.resetTimerfd t.expiration now)
  else pure q

/-- The entry of `activeTimers_` is erased after the timer has been deleted. -/
def cancelInLoop (q : TimerQueue) (id : ActiveTimer) : Except Fault TimerQueue := do
  check (q.timers.size = q.activeTimers.size) .cancelInLoop
  if id ∈ q.activeTimers then
    let t ← q.deref id.timer
    check (⟨t.expiration, id.timer⟩ ∈ q.timers) .cancelInLoop
    let q ← delete { q with timers := q.timers.erase ⟨t.expiration, id.timer⟩ } id.timer true
    pure { q with activeTimers := q.activeTimers.erase id }
  else pure q

def eraseActive : TimerQueue → List Entry → Except Fault TimerQueue
  | q, [] => pure q
  | q, e :: es => do
    let t ← q.deref e.timer
    check (⟨e.timer, t.sequence⟩ ∈ q.activeTimers) .getExpired
    eraseActive { q with activeTimers := q.activeTimers.erase ⟨e.timer, t.sequence⟩ } es

def getExpired (q : TimerQueue) (now : Timestamp) : Except Fault (TimerQueue × List Entry) := do
  check (q.timers.size = q.activeTimers.size) .getExpired
  let sentry : Entry := ⟨now, UINTPTR_MAX⟩
  let expired := q.timers.below sentry
  let timers := q.timers.above sentry
  check (timers.first.elim true (fun e => decide (now < e.expiration)) = true) .getExpired
  let q ← eraseActive { q with timers } expired
  check (q.timers.size = q.activeTimers.size) .getExpired
  pure (q, expired)

def resetEntry (q : TimerQueue) (now : Timestamp) (e : Entry) : Except Fault TimerQueue := do
  let t ← q.deref e.timer
  if t.repeats = true ∧ ⟨e.timer, t.sequence⟩ ∉ q.cancelingTimers then
    let (q, _) ← insert { q with heap := Function.update q.heap e.timer (some (t.restart now)) } e.timer
    pure q
  else q.delete e.timer false

def resetEntries (now : Timestamp) : TimerQueue → List Entry → Except Fault TimerQueue
  | q, [] => pure q
  | q, e :: es => do
    let q ← q.resetEntry now e
    resetEntries now q es

def reset (q : TimerQueue) (expired : List Entry) (now clock : Timestamp) : Except Fault TimerQueue := do
  let q ← resetEntries now q expired
  match q.timers.first with
  | none => pure q
  | some e => do
    let t ← q.deref e.timer
    if 0 < t.expiration then pure (q.resetTimerfd t.expiration clock) else pure q

/-- `handleRead` up to its loop. -/
def handleRead (q : TimerQueue) (now : Timestamp) : Except Fault TimerQueue := do
  let (q, expired) ← q.getExpired now
  pure { q with
    callingExpiredTimers := true, cancelingTimers := .empty
    running := some ⟨now, expired, expired⟩, batches := q.batches + 1 }

def runNext (q : TimerQueue) : Except Fault TimerQueue :=
  match q.running with
  | some ⟨now, expired, e :: rest⟩ => do
    let t ← q.deref e.timer
    pure { q with
      running := some ⟨now, expired, rest⟩
      fired := q.fired ++ [⟨t.sequence, e.expiration, now, q.batches⟩] }
  | _ => pure q

/-- `handleRead` from its loop on. -/
def finishRead (q : TimerQueue) (clock : Timestamp) : Except Fault TimerQueue :=
  match q.running with
  | some ⟨now, expired, []⟩ => reset { q with callingExpiredTimers := false, running := none } expired now clock
  | _ => pure q

end TimerQueue

/-! ## Runs -/

/-- What can happen next. `newTimer` and `addTimerInLoop` are the two halves of an
`addTimer` that is called in another thread. -/
inductive TimerOp
  | addTimer (p : Addr) (when : Timestamp) (interval : Interval) (now : Timestamp)
  | newTimer (p : Addr) (when : Timestamp) (interval : Interval)
  | addTimerInLoop (p : Addr) (now : Timestamp)
  | cancelInLoop (id : ActiveTimer)
  | handleRead (now : Timestamp)
  | runNext
  | finishRead (clock : Timestamp)

namespace TimerQueue

/-- What `new` can answer: the address of no live timer, and neither null nor the
address in the sentry of `getExpired`. -/
def allocates (q : TimerQueue) (p : Addr) : Bool := (q.heap p).isNone && 0 < p && p < UINTPTR_MAX

def step (q : TimerQueue) : TimerOp → Except Fault TimerQueue
  | .addTimer p when interval now =>
    if q.allocates p then (q.create p when interval).addTimerInLoop p now else pure q
  | .newTimer p when interval =>
    if q.allocates p then pure { q.create p when interval with inflight := p :: q.inflight } else pure q
  | .addTimerInLoop p now =>
    if p ∈ q.inflight then addTimerInLoop { q with inflight := q.inflight.erase p } p now else pure q
  | .cancelInLoop id => q.cancelInLoop id
  | .handleRead now => if q.running.isNone then q.handleRead now else pure q
  | .runNext => q.runNext
  | .finishRead clock => q.finishRead clock

end TimerQueue

end Zhengqi
