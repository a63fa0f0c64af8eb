import Zhengqi.Channel
import Mathlib.Logic.Function.Basic

/-!
# The channels of a loop

The `Channel` objects by their addresses, with the poller of their loop. A poller may write
the `index_` of channels other than the one it is called for. `Watch.call` takes the calls
of the poller one by one, `Watch.step` the operations of `Channel`.
-/

namespace Zhengqi

abbrev Channels := Nat → Channel

class ChannelPoller (P : Type) where
  updateChannel : P → Channels → Nat → Except Fault (P × Channels)
  removeChannel : P → Channels → Nat → Except Fault (P × Channels)

/-- A poller that writes no other channel. -/
instance {P : Type} [Poller P] : ChannelPoller P where
  updateChannel p channels addr := do
    let (p, c) ← Poller.updateChannel p (channels addr)
    pure (p, Function.update channels addr c)
  removeChannel p channels addr := do
    let (p, c) ← Poller.removeChannel p (channels addr)
    pure (p, Function.update channels addr c)

structure Watch (P : Type) where
  poller : P
  channels : Channels
  -- The events that a channel had at its last `updateChannel`
  updated : Nat → Events

/-- A call of the poller, or a write to `events_` before one. -/
inductive PollerCall
  | setEvents (addr : Nat) (events : Events)
  | updateChannel (addr : Nat)
  | removeChannel (addr : Nat)
  deriving DecidableEq, Repr

inductive ChannelOp
  | enableReading | disableReading | enableWriting | disableWriting | disableAll | remove
  deriving DecidableEq, Repr

/-- What the operation makes of `events_`. -/
def ChannelOp.events : ChannelOp → Events → Events
  | .enableReading, ev => ev.union kReadEvent
  | .disableReading, ev => ev.diff kReadEvent
  | .enableWriting, ev => ev.union kWriteEvent
  | .disableWriting, ev => ev.diff kWriteEvent
  | .disableAll, _ => kNoneEvent
  | .remove, ev => ev

/-- The channel as the operation hands it to the poller. -/
def Channel.prepared (c : Channel) (op : ChannelOp) : Channel :=
  { c with events := op.events c.events, addedToLoop := op ≠ .remove }

/-- The operation of a single channel. -/
def ChannelOp.run {P : Type} [Poller P] : ChannelOp → P → Channel → Except Fault (P × Channel)
  | .enableReading => Channel.enableReading
  | .disableReading => Channel.disableReading
  | .enableWriting => Channel.enableWriting
  | .disableWriting => Channel.disableWriting
  | .disableAll => Channel.disableAll
  | .remove => Channel.remove

namespace Watch

variable {P : Type}

def start (poller : P) (fds : Nat → Int) : Watch P where
  poller := poller
  channels := fun addr => { addr, fd := fds addr }
  updated := fun _ => kNoneEvent

def setChannel (w : Watch P) (c : Channel) (addr : Nat) : Watch P :=
  { w with channels := Function.update w.channels addr c }

/-- The `events_` of the channels. -/
def masks (w : Watch P) (addr : Nat) : Events := (w.channels addr).events

/-- What a call leaves that writes the poller and one channel. -/
def written (w : Watch P) (poller : P) (addr : Nat) (c : Channel) : Watch P where
  poller := poller
  channels := Function.update w.channels addr c
  updated := Function.update w.updated addr c.events

theorem written_setChannel (w : Watch P) (poller : P) (addr : Nat) (c d : Channel) :
    (w.setChannel c addr).written poller addr d = w.written poller addr d := by
  simp [written, setChannel]

theorem masks_written (w : Watch P) (poller : P) (addr : Nat) (c : Channel) :
    (w.written poller addr c).masks = Function.update w.masks addr c.events := by
  funext b
  by_cases hb : b = addr
  · subst hb
    simp [masks, written]
  · simp [masks, written, hb]

variable [ChannelPoller P]

def call (w : Watch P) : PollerCall → Except Fault (Watch P)
  | .setEvents addr events => pure (w.setChannel { w.channels addr with events } addr)
  | .updateChannel addr => do
    let (poller, channels) ← ChannelPoller.updateChannel w.poller w.channels addr
    pure { poller, channels, updated := Function.update w.updated addr (w.channels addr).events }
  | .removeChannel addr => do
    let (poller, channels) ← ChannelPoller.removeChannel w.poller w.channels addr
    pure { w with poller, channels }

def step (w : Watch P) : Nat × ChannelOp → Except Fault (Watch P)
  | (addr, .remove) => do
    check ((w.channels addr).isNoneEvent = true) .channelRemove
    (w.setChannel { w.channels addr with addedToLoop := false } addr).call (.removeChannel addr)
  | (addr, op) =>
    let events := op.events (w.channels addr).events
    (w.setChannel { w.channels addr with events, addedToLoop := true } addr).call (.updateChannel addr)

variable {w : Watch P} {addr : Nat} {poller : P} {channels : Channels}

theorem call_updateChannel (h : ChannelPoller.updateChannel w.poller w.channels addr = .ok (poller, channels)) :
    w.call (.updateChannel addr) =
      .ok { poller, channels, updated := Function.update w.updated addr (w.channels addr).events } := by
  rw [call, h]
  rfl

theorem call_removeChannel (h : ChannelPoller.removeChannel w.poller w.channels addr = .ok (poller, channels)) :
    w.call (.removeChannel addr) = .ok { w with poller, channels } := by
  rw [call, h]
  rfl

theorem step_of_ne (w : Watch P) (addr : Nat) {op : ChannelOp} (hop : op ≠ .remove) :
    w.step (addr, op) = (w.setChannel ((w.channels addr).prepared op) addr).call (.updateChannel addr) := by
  cases op with
  | remove => exact absurd rfl hop
  | _ => rfl

theorem step_remove (w : Watch P) (addr : Nat) : w.step (addr, .remove) =
    check ((w.channels addr).isNoneEvent = true) .channelRemove >>= fun _ =>
      (w.setChannel ((w.channels addr).prepared .remove) addr).call (.removeChannel addr) := rfl

end Watch

/-- On a table the operations do what they do to a single channel. -/
theorem Watch.step_run {P : Type} [Poller P] (w : Watch P) (addr : Nat) (op : ChannelOp) :
    (w.step (addr, op)).map (fun v => (v.poller, v.channels)) =
      (op.run w.poller (w.channels addr)).map fun x => (x.1, Function.update w.channels addr x.2) := by
  have hset : ∀ c d, Function.update (Function.update w.channels addr c) addr d =
      Function.update w.channels addr d := by
    intro c d
    rw [Function.update_idem]
  cases op with
  | remove =>
    simp only [step, ChannelOp.run, Channel.remove]
    by_cases hn : (w.channels addr).isNoneEvent = true
    · simp only [hn, check_of, Run.ok_bind, call, setChannel, ChannelPoller.removeChannel, Function.update_self]
      cases Poller.removeChannel w.poller { w.channels addr with addedToLoop := false } with
      | error f => rfl
      | ok x => simp [Except.map, hset]
    · simp [hn, Except.map]
  | _ =>
    simp only [step, ChannelOp.run, Channel.enableReading, Channel.disableReading, Channel.enableWriting,
      Channel.disableWriting, Channel.disableAll, Channel.update, ChannelOp.events, call, setChannel,
      ChannelPoller.updateChannel, Function.update_self]
    cases Poller.updateChannel w.poller _ with
    | error f => rfl
    | ok x => simp [Except.map, hset]

end Zhengqi
