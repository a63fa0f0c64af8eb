import Zhengqi.TcpConnection

/-!
# Connections and their owners

A `TcpConnection` as its owners see it: the descriptor it was given, its loop and
its `state_`. The objects are held by `TcpConnectionPtr`s, and an object is destroyed
when the last of them goes.
-/

namespace Zhengqi

structure Connection where
  id : Nat
  name : Bytes
  sockfd : Nat
  -- The loop it lives on; loop `0` is the one of its owner
  loop : Nat
  state : StateE := .kConnecting
  deriving DecidableEq, Repr

namespace Connection

def isOpen (state : StateE) : Bool := state = .kConnected || state = .kDisconnecting

def connectEstablished (state : StateE) : Except Fault StateE := do
  check (state = .kConnecting) .connectEstablished
  pure .kConnected

def handleClose (state : StateE) : Except Fault StateE := do
  check (isOpen state = true) .handleClose
  pure .kDisconnected

def connectDestroyed (state : StateE) : StateE := if state = .kConnected then .kDisconnected else state

def shutdown (state : StateE) : StateE := if state = .kConnected then .kDisconnecting else state

end Connection

/-- `Socket::~Socket() {}`, on the descriptors that are open. -/
def Socket.destroy (descriptors : List Nat) (_sockfd : Nat) : List Nat := descriptors

/-- The objects, and the descriptors that were handed to one and have not been closed. -/
structure Connections where
  descriptors : List Nat := []
  alive : List Connection := []
  destroyed : List Connection := []

namespace Connections

def create (t : Connections) (name : Bytes) (sockfd loop : Nat) : Nat × Connections :=
  let id := t.alive.length + t.destroyed.length
  (id, { t with descriptors := sockfd :: t.descriptors, alive := t.alive ++ [{ id, name, sockfd, loop }] })

def get (t : Connections) (id : Nat) : Except Fault Connection :=
  match t.alive.find? (·.id = id) with
  | some c => .ok c
  | none => .error .useAfterFree

def setState (t : Connections) (id : Nat) (state : StateE) : Connections :=
  { t with alive := t.alive.map fun c => if c.id = id then { c with state } else c }

/-- `TcpConnection::~TcpConnection`, then the destructors of its members. -/
def destroy (t : Connections) (c : Connection) : Except Fault Connections := do
  check (c.state = .kDisconnected) .tcpConnectionDtor
  pure { descriptors := Socket.destroy t.descriptors c.sockfd
         alive := t.alive.erase c
         destroyed := t.destroyed ++ [c] }

def close (t : Connections) (fds : List Nat) : Connections :=
  { t with descriptors := t.descriptors.filter (· ∉ fds) }

/-- The objects that no pointer holds any more are destroyed. -/
def release (t : Connections) (held : List Nat) : Except Fault Connections :=
  (t.alive.filter (·.id ∉ held)).foldlM destroy t

end Connections

end Zhengqi
