import Mathlib.Algebra.Group.Int.Defs
import Zhengqi.TimerQueue

/-!
# The timerfd of a timer queue

`timerfd_settime` and `read` on the descriptor that `resetTimerfd` arms. One clock
serves `Timestamp::now()` and the descriptor: an operation falls on an instant, and
no operation falls on an earlier one than the last.
-/

namespace Zhengqi

/-- The instant at which the descriptor becomes readable. -/
def Arming.deadline (a : Arming) : Timestamp := a.now + (a.value.tvSec * kMicroSecondsPerSecond + a.value.tvNsec / 1000)

/-- What `timerfd_settime` accepts and does not take for a request to disarm. -/
structure Timespec.Arms (t : Timespec) : Prop where
  tvSec : 0 ≤ t.tvSec
  tvNsec : 0 ≤ t.tvNsec ∧ t.tvNsec < 10 ^ 9
  atLeast : 100 * 1000 ≤ t.tvSec * 10 ^ 9 + t.tvNsec

/-- The last reading of `gettimeofday`, which counts from 1970. -/
structure Clock where
  now : Timestamp
  epoch : 0 < now

def Clock.tick (c : Clock) (t : Timestamp) : Clock := if h : c.now ≤ t then ⟨t, c.epoch.trans_le h⟩ else c

/-- The reading of the clock in an operation that has one. -/
def TimerOp.instant : TimerOp → Option Timestamp
  | .addTimer _ _ _ now | .addTimerInLoop _ now | .handleRead now | .finishRead now => some now
  | .newTimer .. | .cancelInLoop _ | .runNext => none

structure TimedQueue where
  queue : TimerQueue := {}
  clock : Clock
  -- The last arming; it has expired, and the descriptor is readable, from its deadline on
  timerfd : Option Arming := none

/-- A `read` takes an expiration, and leaves the descriptor disarmed. -/
def readTimerfd (timerfd : Option Arming) (now : Timestamp) : Option Arming :=
  timerfd.filter fun a => now < a.deadline

/-- `timerfd_settime` replaces what the descriptor was armed with. -/
def timerfdSettime (timerfd : Option Arming) (before after : List Arming) : Option Arming :=
  if before.length < after.length then after.getLast? else timerfd

namespace TimedQueue

def timerfdRead (s : TimedQueue) : TimerOp → Option Arming
  | .handleRead now => if s.queue.running.isNone then readTimerfd s.timerfd now else s.timerfd
  | _ => s.timerfd

def step (s : TimedQueue) (op : TimerOp) : Except Fault TimedQueue :=
  if op.instant.all (s.clock.now ≤ ·) then do
    let queue ← s.queue.step op
    pure { queue
           clock := op.instant.elim s.clock s.clock.tick
           timerfd := timerfdSettime (s.timerfdRead op) s.queue.armings queue.armings }
  else pure s

end TimedQueue

end Zhengqi
