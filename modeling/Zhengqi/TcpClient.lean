import Zhengqi.Connection
import Zhengqi.Connector
import Zhengqi.Text

/-!
# TcpClient

`networking/TcpClient.cpp`, called in its loop's thread. The functors of the
connections and those of the connector are run in the order of their own queues.
-/

namespace Zhengqi

inductive ClientFunctor
  | connectDestroyed (conn : Nat)
  | forceCloseInLoop (conn : Nat)
  deriving DecidableEq, Repr

def ClientFunctor.conn : ClientFunctor → Nat
  | .connectDestroyed c | .forceCloseInLoop c => c

structure TcpClient where
  name : Bytes
  connector : Connector := {}
  -- `connect_`
  wanted : Bool := true
  retry : Bool := false
  nextConnId : Nat := 1
  connection : Option Nat := none
  objects : Connections := {}
  pendingFunctors : List ClientFunctor := []
  -- The `TcpConnectionPtr`s that the user's code has kept
  kept : List Nat := []
  destroyed : Bool := false

namespace TcpClient

def queueInLoop (c : TcpClient) (f : ClientFunctor) : TcpClient :=
  { c with pendingFunctors := c.pendingFunctors ++ [f] }

def setState (c : TcpClient) (conn : Nat) (state : StateE) : TcpClient :=
  { c with objects := c.objects.setState conn state }

/-- After a call of the connector: what it has closed is closed for every owner. -/
def setConnector (c : TcpClient) (connector : Connector) : TcpClient :=
  { c with connector := { connector with closed := [] }, objects := c.objects.close connector.closed }

def connect (c : TcpClient) (a : Attempt) : Except Fault TcpClient := do
  let connector ← c.connector.start a.sockfd a.savedErrno
  pure ({ c with wanted := true }.setConnector connector)

def disconnect (c : TcpClient) : Except Fault TcpClient :=
  match c.connection with
  | some conn => do
    let x ← c.objects.get conn
    pure ({ c with wanted := false }.setState conn (Connection.shutdown x.state))
  | none => pure { c with wanted := false }

def stop (c : TcpClient) : TcpClient := { c with wanted := false, connector := c.connector.stop }

def connName (c : TcpClient) (peerAddr : Bytes) : Bytes :=
  c.name ++ snprintf 32 (ascii ":" ++ peerAddr ++ ascii "#" ++ decimal c.nextConnId)

def newConnection (c : TcpClient) (sockfd : Nat) (peerAddr : Bytes) : Except Fault TcpClient := do
  let (conn, objects) := c.objects.create (c.connName peerAddr) sockfd 0
  let c := { c with nextConnId := c.nextConnId + 1, objects, connection := some conn }
  let x ← c.objects.get conn
  let state ← Connection.connectEstablished x.state
  pure (c.setState conn state)

/-- `closeCallback_`; the destructor has replaced it by `detail::removeConnection`. -/
def removeConnection (c : TcpClient) (conn : Nat) (a : Attempt) : Except Fault TcpClient :=
  if c.destroyed then pure (c.queueInLoop (.connectDestroyed conn))
  else do
    check (c.connection = some conn) .removeConnection
    let c := { c with connection := none }.queueInLoop (.connectDestroyed conn)
    if c.retry && c.wanted then
      let connector ← c.connector.restart a.sockfd a.savedErrno
      pure (c.setConnector connector)
    else pure c

def handleClose (c : TcpClient) (conn : Nat) (a : Attempt) : Except Fault TcpClient := do
  let x ← c.objects.get conn
  let state ← Connection.handleClose x.state
  (c.setState conn state).removeConnection conn a

def forceClose (c : TcpClient) (conn : Nat) : Except Fault TcpClient := do
  let x ← c.objects.get conn
  if Connection.isOpen x.state then
    pure ((c.setState conn .kDisconnecting).queueInLoop (.forceCloseInLoop conn))
  else pure c

def shutdown (c : TcpClient) (conn : Nat) : Except Fault TcpClient := do
  let x ← c.objects.get conn
  pure (c.setState conn (Connection.shutdown x.state))

def runFunctor (c : TcpClient) (a : Attempt) : Except Fault TcpClient :=
  match c.pendingFunctors with
  | [] => pure c
  | .connectDestroyed conn :: fs => do
    let x ← c.objects.get conn
    pure ({ c with pendingFunctors := fs }.setState conn (Connection.connectDestroyed x.state))
  | .forceCloseInLoop conn :: fs => do
    let x ← c.objects.get conn
    let c := { c with pendingFunctors := fs }
    if Connection.isOpen x.state then c.handleClose conn a else pure c

def held (c : TcpClient) : List Nat := c.connection.toList ++ c.pendingFunctors.map (·.conn) ++ c.kept

/-- `TcpClient::~TcpClient`; `connection_` goes with the object. -/
def dtor (c : TcpClient) : Except Fault TcpClient :=
  match c.connection with
  | some conn => do
    let unique := c.held.count conn = 1
    let c := { c with destroyed := true }
    let c ← (if unique then c.forceClose conn else pure c)
    pure { c with connection := none }
  | none => pure { c with destroyed := true, connector := c.connector.stop }

/-! ## Runs -/

inductive Label
  | connect (a : Attempt)
  | disconnect | stop | enableRetry
  -- The connector's channel is writable, with `SO_ERROR` and the peer's address
  | handleWrite (err isSelfConnect : Bool) (peerAddr : Bytes)
  | handleError
  | runConnectorFunctor
  | runTimer (i : Nat) (a : Attempt)
  | runFunctor (a : Attempt)
  | handleClose (conn : Nat) (a : Attempt)
  | shutdown (conn : Nat)
  | forceClose (conn : Nat)
  | keep (conn : Nat)
  | drop (conn : Nat)
  | dtor
  deriving DecidableEq, Repr

def knows (c : TcpClient) (conn : Nat) : Bool := c.objects.alive.any (·.id = conn)

/-- A descriptor that the kernel can answer: one that is not open. -/
def fresh (c : TcpClient) (a : Attempt) : Bool := a.sockfd ∉ c.objects.descriptors && a.sockfd ∉ c.connector.sockets

/-- The calls of the user end with the client's destruction, the events do not. -/
def act (c : TcpClient) : Label → Except Fault TcpClient
  | .connect a => if !c.destroyed && c.fresh a then c.connect a else pure c
  | .disconnect => if !c.destroyed then c.disconnect else pure c
  | .stop => if !c.destroyed then pure c.stop else pure c
  | .enableRetry => if !c.destroyed then pure { c with retry := true } else pure c
  | .handleWrite err isSelfConnect peerAddr =>
    if c.connector.channel.isSome then do
      let (sockfd, connector) ← c.connector.handleWrite err isSelfConnect
      let c := c.setConnector connector
      match sockfd with
      | some sockfd => do
        check (c.destroyed = false) .useAfterFree
        c.newConnection sockfd peerAddr
      | none => pure c
    else pure c
  | .handleError =>
    if c.connector.channel.isSome then do
      let connector ← c.connector.handleError
      pure (c.setConnector connector)
    else pure c
  | .runConnectorFunctor => do
    let connector ← c.connector.runFunctor
    pure (c.setConnector connector)
  | .runTimer i a =>
    if c.fresh a then do
      let connector ← c.connector.runTimer i a.sockfd a.savedErrno
      pure (c.setConnector connector)
    else pure c
  | .runFunctor a => if c.fresh a then c.runFunctor a else pure c
  | .handleClose conn a => if c.knows conn && c.fresh a then c.handleClose conn a else pure c
  | .shutdown conn => if c.knows conn then c.shutdown conn else pure c
  | .forceClose conn => if c.knows conn then c.forceClose conn else pure c
  | .keep conn => if c.knows conn then pure { c with kept := c.kept ++ [conn] } else pure c
  | .drop conn => pure { c with kept := c.kept.erase conn }
  | .dtor => if !c.destroyed then c.dtor else pure c

def step (c : TcpClient) (l : Label) : Except Fault TcpClient := do
  let c ← c.act l
  let objects ← c.objects.release c.held
  pure { c with objects }

end TcpClient

end Zhengqi
