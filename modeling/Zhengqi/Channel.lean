import Zhengqi.Fault

/-!
# Channel and Poller

`networking/Channel.h`, `networking/Channel.cpp` and the interface of
`networking/Poller.h`. The bit masks of `poll(2)` are sets of flags. A channel
changes its interest through the poller of its loop, which is a class here as it
is a virtual base class in the source.
-/

namespace Zhengqi

structure Events where
  pollin : Bool := false
  pollpri : Bool := false
  pollout : Bool := false
  pollerr : Bool := false
  pollhup : Bool := false
  pollnval : Bool := false
  pollrdhup : Bool := false
  deriving DecidableEq, Repr

namespace Events

def union (a b : Events) : Events where
  pollin := a.pollin || b.pollin
  pollpri := a.pollpri || b.pollpri
  pollout := a.pollout || b.pollout
  pollerr := a.pollerr || b.pollerr
  pollhup := a.pollhup || b.pollhup
  pollnval := a.pollnval || b.pollnval
  pollrdhup := a.pollrdhup || b.pollrdhup

def inter (a b : Events) : Events where
  pollin := a.pollin && b.pollin
  pollpri := a.pollpri && b.pollpri
  pollout := a.pollout && b.pollout
  pollerr := a.pollerr && b.pollerr
  pollhup := a.pollhup && b.pollhup
  pollnval := a.pollnval && b.pollnval
  pollrdhup := a.pollrdhup && b.pollrdhup

def diff (a b : Events) : Events where
  pollin := a.pollin && !b.pollin
  pollpri := a.pollpri && !b.pollpri
  pollout := a.pollout && !b.pollout
  pollerr := a.pollerr && !b.pollerr
  pollhup := a.pollhup && !b.pollhup
  pollnval := a.pollnval && !b.pollnval
  pollrdhup := a.pollrdhup && !b.pollrdhup

end Events

def kNoneEvent : Events := {}

def kReadEvent : Events := { pollin := true, pollpri := true }

def kWriteEvent : Events := { pollout := true }

/-- The fields of a `Channel`; `addr` is the address of the object. -/
structure Channel where
  addr : Nat
  fd : Int
  events : Events := kNoneEvent
  revents : Events := kNoneEvent
  index : Int := -1
  addedToLoop : Bool := false
  deriving DecidableEq, Repr

/-- The poller of a loop. The operations may write the channel's `index_`;
`registered` is what the kernel watches on a descriptor. -/
class Poller (P : Type) where
  updateChannel : P → Channel → Except Fault (P × Channel)
  removeChannel : P → Channel → Except Fault (P × Channel)
  registered : P → Int → Option Events

namespace Channel

def isNoneEvent (c : Channel) : Bool := c.events = kNoneEvent

def isWriting (c : Channel) : Bool := c.events.inter kWriteEvent ≠ kNoneEvent

def isReading (c : Channel) : Bool := c.events.inter kReadEvent ≠ kNoneEvent

section
variable {P : Type} [Poller P] (p : P) (c : Channel)

def update : Except Fault (P × Channel) := Poller.updateChannel p { c with addedToLoop := true }

def remove : Except Fault (P × Channel) := do
  check (c.isNoneEvent = true) .channelRemove
  Poller.removeChannel p { c with addedToLoop := false }

def enableReading : Except Fault (P × Channel) := update p { c with events := c.events.union kReadEvent }

def disableReading : Except Fault (P × Channel) := update p { c with events := c.events.diff kReadEvent }

def enableWriting : Except Fault (P × Channel) := update p { c with events := c.events.union kWriteEvent }

def disableWriting : Except Fault (P × Channel) := update p { c with events := c.events.diff kWriteEvent }

def disableAll : Except Fault (P × Channel) := update p { c with events := kNoneEvent }

end

end Channel

/-- A poller keeps every field of the channel but `index_` and has assertions of
its own. -/
class LawfulPoller (P : Type) [Poller P] : Prop where
  updateChannel_frame {p q : P} {c d : Channel} : Poller.updateChannel p c = .ok (q, d) →
    d = { c with index := d.index }
  removeChannel_frame {p q : P} {c d : Channel} : Poller.removeChannel p c = .ok (q, d) →
    d = { c with index := d.index }
  updateChannel_stops (p : P) (c : Channel) : Run.Stops (·.lifeCycle = false) (Poller.updateChannel p c)
  removeChannel_stops (p : P) (c : Channel) : Run.Stops (·.lifeCycle = false) (Poller.removeChannel p c)

end Zhengqi
