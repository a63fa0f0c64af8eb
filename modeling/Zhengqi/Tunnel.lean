import Zhengqi.BufferStorage
import Zhengqi.ConnectionLoop
import Mathlib.Logic.Function.Basic

/-!
# Tunnel

`networking-examples/socks4a/tunnel.h`, with the callbacks that `balancer.cpp` sets on the accepted
connection. The connections of a tunnel live on one loop: `serverConn_`, which a `TcpServer` accepted, and
the one that the `TcpClient` of the tunnel made. Each is a `World` on its own, and the two share the
poller, the functors and the iteration. `serverConn_` is never null.
-/

namespace Zhengqi

inductive ServerClient
  | kServer | kClient
  deriving DecidableEq, Repr

def ServerClient.other : ServerClient → ServerClient
  | .kServer => .kClient
  | .kClient => .kServer

/-- A connection, what was seen of it, and its owner. -/
structure Peer where
  conn : TcpConnection
  effects : List Effect := []
  -- The bytes that `readv` has delivered
  received : Bytes := []
  sameLoop : Bool := true
  removals : Nat := 0
  owned : Bool := true

structure Tunnel (P : Type) where
  peer : ServerClient → Peer
  poller : P
  pendingFunctors : List (ServerClient × Functor) := []
  phase : Phase := .handleEvents
  todo : List (ServerClient × Task) := []
  -- Whether `clientConn_` is set, and whether `serverConn_` has a context
  clientConn : Bool := false
  context : Bool := false
  -- Whether the map of tunnels, and whether the callbacks of `client_` hold the tunnel
  registered : Bool := true
  bound : Bool := true

/-- What `readv` delivers to `readFd`. -/
def Buffer.delivered (b : Buffer) : ReadResult → Bytes
  | .data arrived => arrived.take b.offered
  | .error _ => []

namespace Tunnel

variable {P : Type}

def kHighWaterMark : Nat := 1024 * 1024

def conn (t : Tunnel P) (s : ServerClient) : TcpConnection := (t.peer s).conn

def setPeer (t : Tunnel P) (s : ServerClient) (p : Peer) : Tunnel P := { t with peer := Function.update t.peer s p }

def setConn (t : Tunnel P) (s : ServerClient) (c : TcpConnection) : Tunnel P := t.setPeer s { t.peer s with conn := c }

def world (t : Tunnel P) (s : ServerClient) : World P where
  conn := t.conn s
  poller := t.poller
  phase := t.phase
  effects := (t.peer s).effects
  sameLoop := (t.peer s).sameLoop
  removals := (t.peer s).removals
  owned := (t.peer s).owned

/-- What is left of the body of a function comes before the tasks of the iteration. -/
def put (t : Tunnel P) (s : ServerClient) (w : World P) : Tunnel P :=
  { t.setPeer s { t.peer s with
      conn := w.conn, effects := w.effects, sameLoop := w.sameLoop, removals := w.removals, owned := w.owned } with
    poller := w.poller
    pendingFunctors := t.pendingFunctors ++ w.pendingFunctors.map (s, ·)
    todo := w.todo.map (s, ·) ++ t.todo }

/-- A member function of one of the connections. -/
def on (t : Tunnel P) (s : ServerClient) (f : World P → Except Fault (World P)) : Except Fault (Tunnel P) := do
  let w ← f (t.world s)
  pure (t.put s w)

def setHighWaterMarkCallback (t : Tunnel P) (s : ServerClient) : Tunnel P :=
  t.setConn s { t.conn s with highWaterMarkCallback := true, highWaterMark := kHighWaterMark }

def setWriteCompleteCallback (t : Tunnel P) (s : ServerClient) (set : Bool) : Tunnel P :=
  t.setConn s { t.conn s with writeCompleteCallback := set }

/-- `clientConn_->` -/
def deref (t : Tunnel P) : Except Fault Unit := check (t.clientConn = true) .nullPointer

def teardown (t : Tunnel P) : Except Fault (Tunnel P) := do
  let t ← on { t with bound := false, context := false } .kServer fun w => pure w.shutdown
  pure { t with clientConn := false }

section
variable [Poller P]

def startRead (t : Tunnel P) (s : ServerClient) : Except Fault (Tunnel P) := t.on s (·.runInLoop World.startReadInLoop)

def stopRead (t : Tunnel P) (s : ServerClient) : Except Fault (Tunnel P) := t.on s (·.runInLoop World.stopReadInLoop)

/-- `send(Buffer *)` of the input of the other connection. -/
def send (t : Tunnel P) (s : ServerClient) (r : WriteResult) : Except Fault (Tunnel P) := do
  let buf := (t.conn s.other).inputBuffer
  let u ← t.on s (·.sendBuffer buf.readable r)
  if (t.conn s).state = .kConnected then pure (u.setConn s.other { u.conn s.other with inputBuffer := buf.retrieveAll })
  else pure u

def onClientConnection (t : Tunnel P) (r : WriteResult) : Except Fault (Tunnel P) :=
  if (t.conn .kClient).state = .kConnected then do
    let t := t.setHighWaterMarkCallback .kClient
    let t ← startRead { t with context := true } .kServer
    let t := { t with clientConn := true }
    if 0 < (t.conn .kServer).inputBuffer.readableBytes then t.send .kClient r else pure t
  else t.teardown

def onClientMessage (t : Tunnel P) (r : WriteResult) : Except Fault (Tunnel P) := t.send .kServer r

def onHighWaterMark (t : Tunnel P) : ServerClient → Except Fault (Tunnel P)
  | .kServer =>
    if 0 < (t.conn .kServer).outputBuffer.readableBytes then do
      t.deref
      let t ← t.stopRead .kClient
      pure (t.setWriteCompleteCallback .kServer true)
    else pure t
  | .kClient => do
    t.deref
    if 0 < (t.conn .kClient).outputBuffer.readableBytes then do
      let t ← t.stopRead .kServer
      pure (t.setWriteCompleteCallback .kClient true)
    else pure t

def onWriteComplete (t : Tunnel P) : ServerClient → Except Fault (Tunnel P)
  | .kServer => do
    t.deref
    let t ← t.startRead .kClient
    pure (t.setWriteCompleteCallback .kServer false)
  | .kClient => do
    let t ← t.startRead .kServer
    t.deref
    pure (t.setWriteCompleteCallback .kClient false)

/-- `client_.disconnect()` -/
def disconnect (t : Tunnel P) : Except Fault (Tunnel P) :=
  if (t.peer .kClient).owned then t.on .kClient fun w => pure w.shutdown else pure t

/-- `onServerConnection` of `balancer.cpp`, when the connection goes down. -/
def onServerDown (t : Tunnel P) : Except Fault (Tunnel P) := do
  -- `tunnels[conn->name()]->`, behind an assertion that the tunnel is there
  check (t.registered = true) .nullPointer
  let t ← t.disconnect
  pure { t with registered := false }

/-- `onServerMessage` of `balancer.cpp`. -/
def onServerMessage (t : Tunnel P) (r : WriteResult) : Except Fault (Tunnel P) :=
  if t.context then t.send .kClient r else pure t

/-- Whether `wkTunnel.lock()` finds the tunnel. Where nothing else holds it, `locked` says whether a
connection does. -/
def lock (t : Tunnel P) (locked : Bool) : Bool := t.registered || t.bound || locked

/-- The callbacks of the connections. -/
def callback (s : ServerClient) (r : WriteResult) (locked : Bool) (t : Tunnel P) : Effect → Except Fault (Tunnel P)
  | .connectionCallback _ =>
    match s with
    | .kServer => t.onServerDown
    | .kClient => t.onClientConnection r
  | .messageCallback =>
    match s with
    | .kServer => t.onServerMessage r
    | .kClient => t.onClientMessage r
  | .highWaterMarkCallback _ => if t.lock locked then t.onHighWaterMark s else pure t
  | .writeCompleteCallback => if t.lock locked then t.onWriteComplete s else pure t
  | _ => pure t

/-! ## The loop -/

inductive Label
  | poll (first : ServerClient) (revents : ServerClient → Events)
  | task (wr : WriteResult) (rr : ReadResult) (locked : Bool)
  | doPendingFunctors | endIteration
  -- The loop of the server takes its functor
  | removeConnectionInLoop

/-- `TcpClient::removeConnection`, without `retry_`. -/
def removeConnection (w : World P) : Except Fault (World P) := do
  let w := w.log .closeCallback
  check (w.owned = true) .removeConnection
  pure ({ w with owned := false }.queueInLoop .connectDestroyed)

/-- A task of a connection, up to the callback that it makes. -/
def body (s : ServerClient) (wr : WriteResult) (rr : ReadResult) (task : Task) (w : World P) : Except Fault (World P) :=
  if s = .kClient ∧ task = .closeCallback then removeConnection w else w.runTask wr rr task

def runTask (t : Tunnel P) (s : ServerClient) (wr : WriteResult) (rr : ReadResult) (locked : Bool) (task : Task) :
    Except Fault (Tunnel P) := do
  let delivered := if task = .handleRead then (t.conn s).inputBuffer.delivered rr else []
  let u ← t.on s (body s wr rr task)
  let u := u.setPeer s { u.peer s with received := (u.peer s).received ++ delivered }
  -- Every callback is the last thing that a task does
  ((u.peer s).effects.drop (t.peer s).effects.length).foldlM (callback s wr locked) u

def possible (t : Tunnel P) : Label → Bool
  | .poll _ revents => t.phase = .poll && t.todo = [] &&
      (reportable (Poller.registered t.poller (t.conn .kServer).channel.fd) (revents .kServer) &&
        reportable (Poller.registered t.poller (t.conn .kClient).channel.fd) (revents .kClient))
  | .task .. => true
  | .doPendingFunctors => t.phase = .handleEvents && t.todo = []
  | .endIteration => t.phase = .functors && t.todo = []
  | .removeConnectionInLoop => 0 < (t.peer .kServer).removals

def act (t : Tunnel P) : Label → Except Fault (Tunnel P)
  | .poll first revents => pure { t with
      phase := .handleEvents
      todo := (handleEventWithGuard (revents first)).map (first, ·) ++
        (handleEventWithGuard (revents first.other)).map (first.other, ·) }
  | .task wr rr locked =>
    match t.todo with
    | [] => pure t
    | (s, task) :: todo => { t with todo }.runTask s wr rr locked task
  | .doPendingFunctors => pure { t with
      phase := .functors, todo := t.pendingFunctors.map fun (s, f) => (s, .functor f), pendingFunctors := [] }
  | .endIteration => pure { t with phase := .poll }
  | .removeConnectionInLoop =>
    t.on .kServer fun w => { w with removals := w.removals - 1 }.removeConnectionInLoop

def step (t : Tunnel P) (l : Label) : Except Fault (Tunnel P) := if t.possible l then t.act l else pure t

/-! ## The start -/

/-- `onServerConnection` of `balancer.cpp`, when a connection comes up: it is not read until the backend
is connected, and the tunnel gets its callback. -/
def accept (p : P) (addr : Nat) (sockfd : Int) (sameLoop : Bool) : Except Fault (World P) := do
  let w ← World.newConnection p addr sockfd .functors sameLoop
  let w ← w.runInLoop World.stopReadInLoop
  pure { w with conn := { w.conn with highWaterMarkCallback := true, highWaterMark := kHighWaterMark } }

/-- The `newConnection` of `client_`, from an event handler of the loop. Without events on its channel nothing
has happened to the accepted connection. -/
def newConnection (w : World P) (addr : Nat) (sockfd : Int) (r : WriteResult) : Except Fault (Tunnel P) := do
  let v ← World.newConnection w.poller addr sockfd .handleEvents true
  let t : Tunnel P := {
    peer := fun
      | .kServer => { conn := w.conn, effects := w.effects, sameLoop := w.sameLoop }
      | .kClient => { conn := v.conn, effects := v.effects }
    poller := v.poller }
  t.onClientConnection r

end

end Tunnel

end Zhengqi
