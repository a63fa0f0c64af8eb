import Zhengqi.ChannelTable

/-!
# PollPoller

`networking/poller/PollPoller.cpp`. The slots of `pollfds_` are handed to `poll(2)`, which
ignores those with a negative descriptor.
-/

namespace Zhengqi

structure PollFd where
  fd : Int
  events : Events
  revents : Events := kNoneEvent
  deriving DecidableEq, Repr

/-- A `std::map` from descriptors to the addresses of channels. -/
abbrev ChannelMap := List (Int × Nat)

namespace ChannelMap

def find (m : ChannelMap) (fd : Int) : Option Nat := (m.find? (·.1 = fd)).map (·.2)

def erase (m : ChannelMap) (fd : Int) : ChannelMap := m.filter (·.1 ≠ fd)

def set (m : ChannelMap) (fd : Int) (addr : Nat) : ChannelMap := m.erase fd ++ [(fd, addr)]

end ChannelMap

structure PollPoller where
  -- `channels_`
  channels : ChannelMap := []
  pollfds : List PollFd := []

/-- `-fd - 1`, for a slot to be ignored, and back. -/
def ignore (fd : Int) : Int := -fd - 1

/-- The descriptor of the channel that the slot is for. -/
def PollFd.channelFd (pfd : PollFd) : Int := if pfd.fd < 0 then ignore pfd.fd else pfd.fd

namespace PollPoller

def updateChannel (p : PollPoller) (channels : Channels) (addr : Nat) : Except Fault (PollPoller × Channels) :=
  let c := channels addr
  if c.index < 0 then do
    check (p.channels.find c.fd = none) .updateChannel
    let pollfds := p.pollfds ++ [{ fd := c.fd, events := c.events }]
    let idx : Nat := pollfds.length - 1
    pure ({ channels := p.channels.set c.fd addr, pollfds }, Function.update channels addr { c with index := idx })
  else do
    check (p.channels.find c.fd ≠ none) .updateChannel
    check (p.channels.find c.fd = some addr) .updateChannel
    let idx := c.index
    match p.pollfds[idx.toNat]? with
    | none => .error .updateChannel
    | some pfd =>
      check (pfd.fd = c.fd ∨ pfd.fd = ignore c.fd) .updateChannel
      let pfd : PollFd := { fd := if c.isNoneEvent then ignore c.fd else c.fd, events := c.events }
      pure ({ p with pollfds := p.pollfds.set idx.toNat pfd }, channels)

def removeChannel (p : PollPoller) (channels : Channels) (addr : Nat) : Except Fault (PollPoller × Channels) := do
  let c := channels addr
  check (p.channels.find c.fd ≠ none) .removeChannel
  check (p.channels.find c.fd = some addr) .removeChannel
  check (c.isNoneEvent = true) .removeChannel
  let idx := c.index
  check (0 ≤ idx) .removeChannel
  match p.pollfds[idx.toNat]?, p.pollfds.getLast? with
  | some pfd, some back =>
    check (pfd.fd = ignore c.fd ∧ pfd.events = c.events) .removeChannel
    let n := (p.channels.filter (·.1 = c.fd)).length
    check (n = 1) .channelErase
    let m := p.channels.erase c.fd
    if idx.toNat = p.pollfds.length - 1 then pure ({ channels := m, pollfds := p.pollfds.dropLast }, channels)
    else
      -- `iter_swap` with the last slot
      let pollfds := (p.pollfds.set idx.toNat back).set (p.pollfds.length - 1) pfd
      match m.find back.channelFd with
      | none => .error .nullPointer
      | some b =>
        pure ({ channels := m, pollfds := pollfds.dropLast },
          Function.update channels b { channels b with index := idx })
  | _, _ => .error .removeChannel

/-- The loop of `fillActiveChannels`. -/
def fill (p : PollPoller) : List PollFd → Nat → List Nat × Channels → Except Fault (List Nat × Channels)
  | [], _, x => pure x
  | _ :: _, 0, x => pure x
  | pfd :: pfds, numEvents + 1, (activeChannels, channels) =>
    if pfd.revents ≠ kNoneEvent then
      match p.channels.find pfd.fd with
      | none => .error .fillActiveChannels
      | some addr => do
        check ((channels addr).fd = pfd.fd) .fillActiveChannels
        fill p pfds numEvents (activeChannels ++ [addr],
          Function.update channels addr { channels addr with revents := pfd.revents })
    else fill p pfds (numEvents + 1) (activeChannels, channels)

def fillActiveChannels (p : PollPoller) (channels : Channels) (numEvents : Nat) (activeChannels : List Nat) :
    Except Fault (List Nat × Channels) := p.fill p.pollfds numEvents (activeChannels, channels)

instance : ChannelPoller PollPoller := ⟨updateChannel, removeChannel⟩

end PollPoller

end Zhengqi
