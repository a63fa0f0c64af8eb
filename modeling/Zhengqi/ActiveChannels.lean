import Zhengqi.EPollPoller

/-!
# The active channels of a loop

`EventLoop::loop` in `networking/EventLoop.cpp` with the `Channel` objects that it calls. The loop goes through
the channels that the poller reported; the code that runs in their handlers, when an owner is destroyed behind
one of them, and in the functors makes channels, changes their interest, removes them from the loop and destroys
them, in any order and in any number.
-/

namespace Zhengqi

/-- A fault, or an assertion of `~Channel`. -/
inductive ChannelFault
  | fault (f : Fault)
  | dtor
  deriving DecidableEq, Repr

inductive ActivePhase
  -- Outside of `loop()`, or in `doPendingFunctors`
  | functors
  -- In the `for` over `activeChannels_`, with the channels that are left
  | next (rest : List Nat)
  -- In `handleEventWithGuard` of `currentActiveChannel`
  | handler (rest : List Nat)
  -- At the end of `handleEvent`, where `guard` is released and may destroy the owner of the channel
  | release (rest : List Nat)
  deriving DecidableEq, Repr

structure ActiveLoop where
  watch : Watch EPollPoller
  -- Whether there is a channel at an address, and its `eventHandling_`
  alive : Nat → Bool := fun _ => false
  channelHandling : Nat → Bool := fun _ => false
  eventHandling : Bool := false
  activeChannels : List Nat := []
  currentActiveChannel : Option Nat := none
  phase : ActivePhase := .functors

namespace ActiveLoop

inductive Label
  | newChannel (addr : Nat) (fd : Int)
  | op (addr : Nat) (op : ChannelOp)
  | destroy (addr : Nat)
  -- The descriptors that `epoll_wait` reports
  | poll (events : List (Int × Events))
  -- The next channel; `guard` is false when it is tied to an object that is gone
  | handleEvent (guard : Bool)
  | handlerReturns | released | endEvents
  deriving DecidableEq, Repr

/-- Whether a handler, a destructor or a functor runs. -/
def userCode (s : ActiveLoop) : Bool :=
  match s.phase with
  | .next _ => false
  | _ => true

def newChannel (s : ActiveLoop) (addr : Nat) (fd : Int) : ActiveLoop := { s with
  watch := s.watch.setChannel { addr, fd } addr
  alive := Function.update s.alive addr true
  channelHandling := Function.update s.channelHandling addr false }

def removeChannel (s : ActiveLoop) (addr : Nat) : Except Fault ActiveLoop := do
  check (s.eventHandling = false ∨ s.currentActiveChannel = some addr ∨ addr ∉ s.activeChannels) .removeChannel
  let watch ← s.watch.call (.removeChannel addr)
  pure { s with watch }

/-- `Channel::remove` -/
def remove (s : ActiveLoop) (addr : Nat) : Except Fault ActiveLoop := do
  check ((s.watch.channels addr).isNoneEvent = true) .channelRemove
  removeChannel { s with watch := s.watch.setChannel ((s.watch.channels addr).prepared .remove) addr } addr

def op (s : ActiveLoop) (addr : Nat) (op : ChannelOp) : Except Fault ActiveLoop :=
  if op = .remove then s.remove addr
  else do
    let watch ← s.watch.step (addr, op)
    pure { s with watch }

def hasChannel (s : ActiveLoop) (addr : Nat) : Bool :=
  s.watch.poller.channels (s.watch.channels addr).fd = some addr

/-- `~Channel` -/
def destroy (s : ActiveLoop) (addr : Nat) : Except ChannelFault ActiveLoop :=
  if s.channelHandling addr || (s.watch.channels addr).addedToLoop || s.hasChannel addr then .error .dtor
  else pure { s with alive := Function.update s.alive addr false }

/-- What `epoll_wait` stores for the descriptors. -/
def stored (s : ActiveLoop) (events : List (Int × Events)) : List EpollEvent :=
  events.filterMap fun (fd, revents) => (s.watch.poller.epoll fd).map fun x => ⟨x.2, revents⟩

def activate (s : ActiveLoop) (x : List Nat × Channels) (e : EpollEvent) : Except Fault (List Nat × Channels) := do
  -- `channel->fd()`
  check (s.alive e.ptr = true) .useAfterFree
  s.watch.poller.activate x e

def poll (s : ActiveLoop) (events : List (Int × Events)) : Except Fault ActiveLoop := do
  let (activeChannels, channels) ← (s.stored events).foldlM s.activate ([], s.watch.channels)
  pure { s with
    watch := { s.watch with channels }, activeChannels, eventHandling := true, phase := .next activeChannels }

def handleEvent (s : ActiveLoop) (addr : Nat) (rest : List Nat) (guard : Bool) : Except Fault ActiveLoop := do
  check (s.alive addr = true) .useAfterFree
  let s := { s with currentActiveChannel := some addr }
  pure (if guard then
    { s with channelHandling := Function.update s.channelHandling addr true, phase := .handler rest }
  else { s with phase := .next rest })

/-- The last statement of `handleEventWithGuard`. -/
def handlerReturns (s : ActiveLoop) (addr : Nat) (rest : List Nat) : Except Fault ActiveLoop := do
  check (s.alive addr = true) .useAfterFree
  pure { s with channelHandling := Function.update s.channelHandling addr false, phase := .release rest }

def step (s : ActiveLoop) : Label → Except ChannelFault ActiveLoop
  | .newChannel addr fd => pure (if s.userCode && !s.alive addr then s.newChannel addr fd else s)
  | .op addr op => if s.userCode && s.alive addr then (s.op addr op).mapError .fault else pure s
  | .destroy addr => if s.userCode && s.alive addr then s.destroy addr else pure s
  | .poll events =>
    if s.phase = .functors ∧ (events.map (·.1)).Nodup ∧ ∀ e ∈ events, s.watch.poller.epoll e.1 ≠ none then
      (s.poll events).mapError .fault
    else pure s
  | .handleEvent guard =>
    match s.phase with
    | .next (addr :: rest) => (s.handleEvent addr rest guard).mapError .fault
    | _ => pure s
  | .handlerReturns =>
    match s.phase, s.currentActiveChannel with
    | .handler rest, some addr => (s.handlerReturns addr rest).mapError .fault
    | _, _ => pure s
  | .released =>
    match s.phase with
    | .release rest => pure { s with phase := .next rest }
    | _ => pure s
  | .endEvents => pure (
    if s.phase = .next [] then { s with currentActiveChannel := none, eventHandling := false, phase := .functors }
    else s)

def start (fds : Nat → Int) : ActiveLoop := { watch := .start .empty fds }

end ActiveLoop

end Zhengqi
