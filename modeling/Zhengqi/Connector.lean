import Zhengqi.Fault

/-!
# Connector

`networking/Connector.cpp`, called in its loop's thread. The functors it queues and
its retry timers are kept here; `sockets` are the descriptors it has opened and
neither closed nor handed to `newConnectionCallback_`.
-/

namespace Zhengqi

/-- `errno` after `::connect`, `zero` for a call that succeeds. -/
inductive ConnectErrno
  | zero | EINPROGRESS | EINTR | EISCONN
  | EAGAIN | EADDRINUSE | EADDRNOTAVAIL | ECONNREFUSED | ENETUNREACH
  | EACCES | EPERM | EAFNOSUPPORT | EALREADY | EBADF | EFAULT | ENOTSOCK
  | other (code : Nat)
  deriving DecidableEq, Repr

/-- What the kernel answers if the connector makes a socket. -/
structure Attempt where
  sockfd : Nat
  savedErrno : ConnectErrno
  deriving DecidableEq, Repr

inductive ConnectorFunctor
  | stopInLoop | resetChannel
  deriving DecidableEq, Repr

namespace Connector

inductive States
  | kDisconnected | kConnecting | kConnected
  deriving DecidableEq, Repr

def kMaxRetryDelayMs : Nat := 30 * 1000

def kInitRetryDelayMs : Nat := 500

end Connector

structure Connector where
  -- `connect_`
  wanted : Bool := false
  state : Connector.States := .kDisconnected
  -- The descriptor of `channel_`
  channel : Option Nat := none
  retryDelayMs : Nat := Connector.kInitRetryDelayMs
  sockets : List Nat := []
  -- The descriptors closed since the owner has last looked
  closed : List Nat := []
  pendingFunctors : List ConnectorFunctor := []
  -- The delays of the `runAfter` calls that have not fired
  timers : List Nat := []

namespace Connector

def close (c : Connector) (sockfd : Nat) : Connector :=
  { c with sockets := c.sockets.erase sockfd, closed := sockfd :: c.closed }

def retry (c : Connector) (sockfd : Nat) : Connector :=
  let c := { c.close sockfd with state := .kDisconnected }
  if c.wanted then
    { c with timers := c.timers ++ [c.retryDelayMs], retryDelayMs := min (c.retryDelayMs * 2) kMaxRetryDelayMs }
  else c

def connecting (c : Connector) (sockfd : Nat) : Except Fault Connector := do
  check (c.channel = none) .connecting
  pure { c with state := .kConnecting, channel := some sockfd }

-- `sockfd` is what `createNonblockingOrDie` answers
def connect (c : Connector) (sockfd : Nat) (savedErrno : ConnectErrno) : Except Fault Connector :=
  let c := { c with sockets := sockfd :: c.sockets }
  match savedErrno with
  | .zero | .EINPROGRESS | .EINTR | .EISCONN => c.connecting sockfd
  | .EAGAIN | .EADDRINUSE | .EADDRNOTAVAIL | .ECONNREFUSED | .ENETUNREACH => pure (c.retry sockfd)
  | .EACCES | .EPERM | .EAFNOSUPPORT | .EALREADY | .EBADF | .EFAULT | .ENOTSOCK => pure (c.close sockfd)
  | .other _ => pure (c.close sockfd)

def startInLoop (c : Connector) (sockfd : Nat) (savedErrno : ConnectErrno) : Except Fault Connector := do
  check (c.state = .kDisconnected) .startInLoop
  if c.wanted then c.connect sockfd savedErrno else pure c

def start (c : Connector) (sockfd : Nat) (savedErrno : ConnectErrno) : Except Fault Connector :=
  startInLoop { c with wanted := true } sockfd savedErrno

def restart (c : Connector) (sockfd : Nat) (savedErrno : ConnectErrno) : Except Fault Connector :=
  startInLoop { c with state := .kDisconnected, retryDelayMs := kInitRetryDelayMs, wanted := true } sockfd savedErrno

def stop (c : Connector) : Connector :=
  { c with wanted := false, pendingFunctors := c.pendingFunctors ++ [.stopInLoop] }

/-- With the descriptor it returns; `channel_` is null only after `resetChannel`. -/
def removeAndResetChannel (c : Connector) : Except Fault (Nat × Connector) :=
  match c.channel with
  | some sockfd => .ok (sockfd, { c with pendingFunctors := c.pendingFunctors ++ [.resetChannel] })
  | none => .error .useAfterFree

def stopInLoop (c : Connector) : Except Fault Connector :=
  if c.state = .kConnecting then do
    let (sockfd, c) ← removeAndResetChannel { c with state := .kDisconnected }
    pure (c.retry sockfd)
  else pure c

def resetChannel (c : Connector) : Connector := { c with channel := none }

/-- With the descriptor that is handed to `newConnectionCallback_`, if one is. -/
def handleWrite (c : Connector) (err isSelfConnect : Bool) : Except Fault (Option Nat × Connector) :=
  if c.state = .kConnecting then do
    let (sockfd, c) ← c.removeAndResetChannel
    if err then pure (none, c.retry sockfd)
    else if isSelfConnect then pure (none, c.retry sockfd)
    else
      let c := { c with state := .kConnected }
      if c.wanted then pure (some sockfd, { c with sockets := c.sockets.erase sockfd })
      else pure (none, c.close sockfd)
  else do
    check (c.state = .kDisconnected) .handleWrite
    pure (none, c)

def handleError (c : Connector) : Except Fault Connector :=
  if c.state = .kConnecting then do
    let (sockfd, c) ← c.removeAndResetChannel
    pure (c.retry sockfd)
  else pure c

def runFunctor (c : Connector) : Except Fault Connector :=
  match c.pendingFunctors with
  | [] => pure c
  | .stopInLoop :: fs => stopInLoop { c with pendingFunctors := fs }
  | .resetChannel :: fs => pure (resetChannel { c with pendingFunctors := fs })

def runTimer (c : Connector) (i : Nat) (sockfd : Nat) (savedErrno : ConnectErrno) : Except Fault Connector :=
  if i < c.timers.length then startInLoop { c with timers := c.timers.eraseIdx i } sockfd savedErrno else pure c

/-- The three ways in which `connect` goes on. -/
theorem connect_cases (c : Connector) (sockfd : Nat) (savedErrno : ConnectErrno) :
    c.connect sockfd savedErrno = connecting { c with sockets := sockfd :: c.sockets } sockfd ∨
    c.connect sockfd savedErrno = .ok (retry { c with sockets := sockfd :: c.sockets } sockfd) ∨
    c.connect sockfd savedErrno = .ok (close { c with sockets := sockfd :: c.sockets } sockfd) := by
  cases savedErrno with
  | zero | EINPROGRESS | EINTR | EISCONN => exact .inl rfl
  | EAGAIN | EADDRINUSE | EADDRNOTAVAIL | ECONNREFUSED | ENETUNREACH => exact .inr (.inl rfl)
  | _ => exact .inr (.inr rfl)

end Connector

end Zhengqi
