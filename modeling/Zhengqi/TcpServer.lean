import Zhengqi.Connection
import Zhengqi.Text
import Mathlib.Data.List.Sort
import Mathlib.Logic.Function.Basic

/-!
# TcpServer

`networking/TcpServer.cpp` with `Acceptor::handleRead` and
`EventLoopThreadPool::getNextLoop`. Loop `0` is the base loop, the others are those of
the pool's threads; each has a queue of functors, and `runInLoop` runs a functor at
once in the loop's own thread.
-/

namespace Zhengqi

inductive ServerFunctor
  | connectEstablished (conn : Nat)
  | removeConnectionInLoop (conn : Nat)
  | connectDestroyed (conn : Nat)
  | forceCloseInLoop (conn : Nat)
  deriving DecidableEq, Repr

/-- The connection whose `TcpConnectionPtr` the functor holds. -/
def ServerFunctor.conn : ServerFunctor → Nat
  | .connectEstablished c | .removeConnectionInLoop c | .connectDestroyed c | .forceCloseInLoop c => c

structure TcpServer where
  name : Bytes
  ipPort : Bytes
  numThreads : Nat
  nextConnId : Nat := 1
  -- `next_` of the thread pool
  next : Nat := 0
  connections : List (Bytes × Nat) := []
  objects : Connections := {}
  queues : Nat → List ServerFunctor := fun _ => []
  -- The `TcpConnectionPtr`s that the user's code has kept
  kept : List Nat := []
  destroyed : Bool := false

namespace TcpServer

def queueInLoop (s : TcpServer) (loop : Nat) (f : ServerFunctor) : TcpServer :=
  { s with queues := Function.update s.queues loop (s.queues loop ++ [f]) }

def setState (s : TcpServer) (conn : Nat) (state : StateE) : TcpServer :=
  { s with objects := s.objects.setState conn state }

def connectEstablished (s : TcpServer) (conn : Nat) : Except Fault TcpServer := do
  let c ← s.objects.get conn
  let state ← Connection.connectEstablished c.state
  pure (s.setState conn state)

def connectDestroyed (s : TcpServer) (conn : Nat) : Except Fault TcpServer := do
  let c ← s.objects.get conn
  pure (s.setState conn (Connection.connectDestroyed c.state))

def getNextLoop (s : TcpServer) : Nat × TcpServer :=
  if s.numThreads = 0 then (0, s)
  else (s.next + 1, { s with next := if s.numThreads ≤ s.next + 1 then 0 else s.next + 1 })

def connName (s : TcpServer) : Bytes :=
  s.name ++ snprintf 64 (ascii "-" ++ s.ipPort ++ ascii "#" ++ decimal s.nextConnId)

def newConnection (s : TcpServer) (sockfd : Nat) : Except Fault TcpServer :=
  let ioLoop := s.getNextLoop.1
  let connName := s.connName
  let (conn, objects) := s.objects.create connName sockfd ioLoop
  let connections := s.connections.filter (·.1 ≠ connName) ++ [(connName, conn)]
  let s : TcpServer := { s.getNextLoop.2 with nextConnId := s.nextConnId + 1, objects, connections }
  if ioLoop = 0 then s.connectEstablished conn else pure (s.queueInLoop ioLoop (.connectEstablished conn))

/-- Bound to the server, which may be gone when the functor runs. -/
def removeConnectionInLoop (s : TcpServer) (conn : Nat) : Except Fault TcpServer := do
  check (s.destroyed = false) .useAfterFree
  let c ← s.objects.get conn
  let n := (s.connections.filter (·.1 = c.name)).length
  check (n = 1) .removeConnectionInLoop
  pure ({ s with connections := s.connections.filter (·.1 ≠ c.name) }.queueInLoop c.loop (.connectDestroyed conn))

def removeConnection (s : TcpServer) (loop conn : Nat) : Except Fault TcpServer := do
  check (s.destroyed = false) .useAfterFree
  if loop = 0 then s.removeConnectionInLoop conn else pure (s.queueInLoop 0 (.removeConnectionInLoop conn))

def handleClose (s : TcpServer) (conn : Nat) : Except Fault TcpServer := do
  let c ← s.objects.get conn
  let state ← Connection.handleClose c.state
  (s.setState conn state).removeConnection c.loop conn

def forceClose (s : TcpServer) (conn : Nat) : Except Fault TcpServer := do
  let c ← s.objects.get conn
  if Connection.isOpen c.state then
    pure ((s.setState conn .kDisconnecting).queueInLoop c.loop (.forceCloseInLoop conn))
  else pure s

def forceCloseInLoop (s : TcpServer) (conn : Nat) : Except Fault TcpServer := do
  let c ← s.objects.get conn
  if Connection.isOpen c.state then s.handleClose conn else pure s

def shutdown (s : TcpServer) (conn : Nat) : Except Fault TcpServer := do
  let c ← s.objects.get conn
  pure (s.setState conn (Connection.shutdown c.state))

def runFunctor (s : TcpServer) (loop : Nat) : Except Fault TcpServer :=
  match s.queues loop with
  | [] => pure s
  | f :: fs =>
    let s := { s with queues := Function.update s.queues loop fs }
    match f with
    | .connectEstablished conn => s.connectEstablished conn
    | .removeConnectionInLoop conn => s.removeConnectionInLoop conn
    | .connectDestroyed conn => s.connectDestroyed conn
    | .forceCloseInLoop conn => s.forceCloseInLoop conn

def destroyConnection (s : TcpServer) (conn : Nat) : Except Fault TcpServer := do
  let c ← s.objects.get conn
  if c.loop = 0 then s.connectDestroyed conn else pure (s.queueInLoop c.loop (.connectDestroyed conn))

/-- `connections_` in the order of the map, by the names. -/
def inOrder (s : TcpServer) : List Nat := (s.connections.insertionSort (·.1 ≤ ·.1)).map (·.2)

/-- The body of `TcpServer::~TcpServer`, with no other thread in between and a thread pool that is kept elsewhere;
`ServerPool` has it statement by statement, with the end of `threadPool_` after it. -/
def dtor (s : TcpServer) : Except Fault TcpServer :=
  s.inOrder.foldlM destroyConnection { s with connections := [], destroyed := true }

/-! ## Runs -/

inductive Label
  -- A connection is accepted, with a descriptor that is not open
  | accept (connfd : Nat)
  -- `accept` fails; with `EMFILE` the connection is accepted with the idle descriptor and closed
  | acceptFails
  | runFunctor (loop : Nat)
  -- The peer has closed the connection
  | handleClose (conn : Nat)
  | shutdown (conn : Nat)
  | forceClose (conn : Nat)
  -- The user's code keeps a `TcpConnectionPtr`, or gives one up
  | keep (conn : Nat)
  | drop (conn : Nat)
  | dtor
  deriving DecidableEq, Repr

def knows (s : TcpServer) (conn : Nat) : Bool := s.objects.alive.any (·.id = conn)

def act (s : TcpServer) : Label → Except Fault TcpServer
  | .accept connfd =>
    if s.destroyed = false ∧ connfd ∉ s.objects.descriptors then s.newConnection connfd else pure s
  | .acceptFails => pure s
  | .runFunctor loop => s.runFunctor loop
  | .handleClose conn => if s.knows conn then s.handleClose conn else pure s
  | .shutdown conn => if s.knows conn then s.shutdown conn else pure s
  | .forceClose conn => if s.knows conn then s.forceClose conn else pure s
  | .keep conn => if s.knows conn then pure { s with kept := s.kept ++ [conn] } else pure s
  | .drop conn => pure { s with kept := s.kept.erase conn }
  | .dtor => if s.destroyed = false then s.dtor else pure s

/-- The connections that a `TcpConnectionPtr` holds. -/
def held (s : TcpServer) : List Nat :=
  s.connections.map (·.2) ++ ((List.range (s.numThreads + 1)).flatMap fun loop => (s.queues loop).map (·.conn)) ++
    s.kept

def step (s : TcpServer) (l : Label) : Except Fault TcpServer := do
  let s ← s.act l
  let objects ← s.objects.release s.held
  pure { s with objects }

end TcpServer

end Zhengqi
