import Zhengqi.Lib.Run

/-!
# Resolver

`networking-examples/cdns/Resolver.cpp` in its loop. Of c-ares the model has what a call of it may do: before it
returns it answers queries, opens sockets and closes them, and the callback of a query may call `resolve` again,
which calls c-ares once more. What `ares_timeout` answers when the call has returned comes with the label.
-/

namespace Zhengqi

inductive ResolverFault
  | onTimer | onSockCreate | onSockStateChange
  -- The assertions of `EventLoop::removeChannel` and of `~Channel`
  | removeChannel | channelDtor
  | useAfterFree
  deriving DecidableEq, Repr

/-- A call of c-ares that has not returned, by the function that made it. -/
inductive AresCall
  | resolve
  | onRead (sockfd : Nat)
  | onTimer
  deriving DecidableEq, Repr

structure Resolver where
  timerActive : Bool := false
  -- The keys of `channels_`
  channels : List Nat := []
  -- The queries that c-ares has not answered, and its sockets
  queries : List Nat := []
  sockets : List Nat := []
  -- The timers of the loop that call `onTimer`
  timers : Nat := 0
  -- `eventHandling_` and `activeChannels_` of the loop, with the channels of the resolver it has still to call
  eventHandling : Bool := false
  activeChannels : List Nat := []
  rest : List Nat := []
  -- The innermost one first
  calls : List AresCall := []
  deriving DecidableEq, Repr

namespace Resolver

def onSockCreate (r : Resolver) (sockfd : Nat) : Except ResolverFault Resolver :=
  if sockfd ∈ r.channels then .error .onSockCreate else .ok { r with channels := sockfd :: r.channels }

def onSockStateChange (r : Resolver) (sockfd : Nat) (read : Bool) : Except ResolverFault Resolver :=
  if sockfd ∉ r.channels then .error .onSockStateChange
  else if read then .ok r
  -- `currentActiveChannel_` is the channel whose `onRead` has not returned
  else if r.eventHandling = true ∧ .onRead sockfd ∉ r.calls ∧ sockfd ∈ r.activeChannels then .error .removeChannel
  -- The channel goes with its entry, and it may not be in its handler
  else if .onRead sockfd ∈ r.calls then .error .channelDtor
  else .ok { r with channels := r.channels.erase sockfd }

/-- What follows the call of c-ares in `resolve`. -/
def resolve (r : Resolver) : Resolver :=
  if r.timerActive then r else { r with timers := r.timers + 1, timerActive := true }

/-- What follows the call of c-ares in `onTimer`; `getSeconds` is negative for a null pointer. -/
def onTimer (r : Resolver) (timeout : Bool) : Resolver :=
  if timeout then { r with timers := r.timers + 1 } else { r with timerActive := false }

inductive Label
  | resolve (query : Nat)
  -- In a call of c-ares
  | answer (query : Nat)
  | sockCreate (sockfd : Nat)
  | sockState (sockfd : Nat) (read : Bool)
  -- It returns, and `ares_timeout` then has an answer or a null pointer
  | returns (timeout : Bool)
  -- The loop
  | poll (active : List Nat)
  | handleEvent | runTimer | endEvents
  deriving DecidableEq, Repr

def step (r : Resolver) : Label → Except ResolverFault Resolver
  | .resolve query => .ok { r with queries := query :: r.queries, calls := .resolve :: r.calls }
  | .answer query => .ok (if r.calls = [] then r else { r with queries := r.queries.erase query })
  | .sockCreate sockfd =>
    if r.calls ≠ [] ∧ sockfd ∉ r.sockets then onSockCreate { r with sockets := sockfd :: r.sockets } sockfd else .ok r
  | .sockState sockfd read =>
    if r.calls ≠ [] ∧ sockfd ∈ r.sockets then
      onSockStateChange { r with sockets := if read then r.sockets else r.sockets.erase sockfd } sockfd read
    else .ok r
  | .returns timeout =>
    match r.calls with
    | [] => .ok r
    | .resolve :: calls => .ok (resolve { r with calls })
    | .onTimer :: calls => .ok (onTimer { r with calls } timeout)
    -- Back in `handleEventWithGuard`
    | .onRead sockfd :: calls => if sockfd ∈ r.channels then .ok { r with calls } else .error .useAfterFree
  | .poll active =>
    .ok (if r.calls = [] ∧ r.eventHandling = false ∧ ∀ fd ∈ active, fd ∈ r.channels then
      { r with eventHandling := true, activeChannels := active, rest := active } else r)
  | .handleEvent =>
    match r.rest with
    | [] => .ok r
    | sockfd :: rest =>
      if r.calls = [] then
        if sockfd ∈ r.channels then .ok { r with rest, calls := [.onRead sockfd] } else .error .useAfterFree
      else .ok r
  | .runTimer =>
    if r.calls = [] ∧ r.eventHandling = true ∧ 0 < r.timers then
      if r.timerActive then .ok { r with timers := r.timers - 1, calls := [.onTimer] } else .error .onTimer
    else .ok r
  | .endEvents => .ok (if r.calls = [] ∧ r.rest = [] then { r with eventHandling := false } else r)

end Resolver

end Zhengqi
