import Zhengqi.ChannelTable

/-!
# EPollPoller

`networking/poller/EPollPoller.cpp` over a kernel interest list: a map from
descriptors to the registered events and the channel stored beside them.
-/

namespace Zhengqi

inductive EpollOp
  | add | mod | del
  deriving DecidableEq, Repr

abbrev EpollSet := Int → Option (Events × Nat)

/-- `epoll_ctl(2)`: an ADD of a registered descriptor and a MOD or DEL of an
absent one fail. -/
def epollCtl (e : EpollSet) (op : EpollOp) (fd : Int) (ev : Events) (addr : Nat) : Option EpollSet :=
  match op, e fd with
  | .add, none => some (Function.update e fd (some (ev, addr)))
  | .mod, some _ => some (Function.update e fd (some (ev, addr)))
  | .del, some _ => some (Function.update e fd none)
  | _, _ => none

/-- What `epoll_wait` stores of an event: `data.ptr` is the address of the channel. -/
structure EpollEvent where
  ptr : Nat
  events : Events
  deriving DecidableEq, Repr

structure EPollPoller where
  -- `channels_`
  channels : Int → Option Nat
  epoll : EpollSet
  -- The failed DELs
  failures : Nat := 0

namespace EPollPoller

def kNew : Int := -1

def kAdded : Int := 1

def kDeleted : Int := 2

def empty : EPollPoller := { channels := fun _ => none, epoll := fun _ => none }

/-- A failed DEL is only logged; any other failure is fatal. -/
def update (p : EPollPoller) (op : EpollOp) (c : Channel) : Except Fault EPollPoller :=
  match epollCtl p.epoll op c.fd c.events c.addr with
  | some e => pure { p with epoll := e }
  | none => if op = .del then pure { p with failures := p.failures + 1 } else .error .epollCtl

def updateChannel (p : EPollPoller) (c : Channel) : Except Fault (EPollPoller × Channel) :=
  if c.index = kNew ∨ c.index = kDeleted then do
    let p ← (if c.index = kNew then do
        check (p.channels c.fd = none) .updateChannel
        pure { p with channels := Function.update p.channels c.fd (some c.addr) }
      else do
        check (p.channels c.fd ≠ none) .updateChannel
        check (p.channels c.fd = some c.addr) .updateChannel
        pure p)
    let c := { c with index := kAdded }
    let p ← p.update .add c
    pure (p, c)
  else do
    check (p.channels c.fd ≠ none) .updateChannel
    check (p.channels c.fd = some c.addr) .updateChannel
    check (c.index = kAdded) .updateChannel
    if c.isNoneEvent then
      let p ← p.update .del c
      pure (p, { c with index := kDeleted })
    else
      let p ← p.update .mod c
      pure (p, c)

def removeChannel (p : EPollPoller) (c : Channel) : Except Fault (EPollPoller × Channel) := do
  check (p.channels c.fd ≠ none) .removeChannel
  check (p.channels c.fd = some c.addr) .removeChannel
  check (c.isNoneEvent = true) .removeChannel
  check (c.index = kAdded ∨ c.index = kDeleted) .removeChannel
  let p : EPollPoller := { p with channels := Function.update p.channels c.fd none }
  let p ← (if c.index = kAdded then p.update .del c else pure p)
  pure (p, { c with index := kNew })

def activate (p : EPollPoller) (x : List Nat × Channels) (e : EpollEvent) : Except Fault (List Nat × Channels) := do
  let (activeChannels, channels) := x
  let fd := (channels e.ptr).fd
  check (p.channels fd ≠ none) .fillActiveChannels
  check (p.channels fd = some e.ptr) .fillActiveChannels
  pure (activeChannels ++ [e.ptr], Function.update channels e.ptr { channels e.ptr with revents := e.events })

-- `events` is `events_`
def fillActiveChannels (p : EPollPoller) (channels : Channels) (events : List EpollEvent) (numEvents : Nat)
    (activeChannels : List Nat) : Except Fault (List Nat × Channels) := do
  check (numEvents ≤ events.length) .fillActiveChannels
  (events.take numEvents).foldlM p.activate (activeChannels, channels)

instance : Poller EPollPoller := ⟨updateChannel, removeChannel, fun p fd => (p.epoll fd).map (·.1)⟩

end EPollPoller

end Zhengqi
