import Zhengqi.Buffer
import Zhengqi.Channel

/-!
# TcpConnection

`networking/TcpConnection.cpp`, for calls made in the loop thread, where
`runInLoop` calls its argument directly. A connection lives in a `World`: its
fields, the poller and the functor queue of its loop, and the part of the
current iteration that is still to run. User code runs inside the callbacks. A
function that goes on after a callback leaves the rest of its body as a `Task`,
so that the calls the user makes there come before it.
-/

namespace Zhengqi

inductive StateE
  | kDisconnected | kConnecting | kConnected | kDisconnecting
  deriving DecidableEq, Repr

structure TcpConnection where
  state : StateE := .kConnecting
  reading : Bool := true
  channel : Channel
  inputBuffer : Buffer
  outputBuffer : Buffer
  highWaterMark : Nat := 64 * 1024 * 1024
  -- Whether `writeCompleteCallback_` is set
  writeCompleteCallback : Bool := false
  highWaterMarkCallback : Bool := false

def TcpConnection.ctor (addr : Nat) (sockfd : Int) : Except Fault TcpConnection := do
  let inputBuffer ← Buffer.ctor Buffer.kInitialSize
  let outputBuffer ← Buffer.ctor Buffer.kInitialSize
  pure { channel := { addr, fd := sockfd }, inputBuffer, outputBuffer }

inductive Functor
  | forceCloseInLoop | connectDestroyed | writeComplete
  | highWaterMark (len : Nat)
  deriving DecidableEq, Repr

/-- Code of the current iteration that has not run yet. -/
inductive Task
  -- the callbacks of Channel::handleEventWithGuard
  | handleClose | handleError | handleRead | handleWrite
  -- `handleClose` after `connectionCallback_` has returned
  | closeCallback
  -- `connectDestroyed` after `connectionCallback_` has returned
  | channelRemove
  | functor (f : Functor)
  deriving DecidableEq, Repr

/-- What can be seen from outside: the system calls on the socket, the callbacks
and the entries of `sendInLoop`, `shutdown` and `connectDestroyed`. -/
inductive Effect
  | sendInLoop (data : Bytes)
  | write (data : Bytes) (r : WriteResult)
  -- `shutdown()` moved the connection to `kDisconnecting`
  | shutdown
  -- `socket_->shutdownWrite()`, with the bytes in `outputBuffer_` at that moment
  | shutdownWrite (unsent : Bytes)
  | connectionCallback (up : Bool)
  | messageCallback | writeCompleteCallback
  | highWaterMarkCallback (len : Nat)
  | closeCallback | connectDestroyed
  deriving DecidableEq, Repr

inductive Phase
  | poll | handleEvents | functors
  deriving DecidableEq, Repr

structure World (P : Type) where
  conn : TcpConnection
  poller : P
  pendingFunctors : List Functor := []
  phase : Phase := .poll
  todo : List Task := []
  effects : List Effect := []
  -- Whether the server's loop is the connection's loop
  sameLoop : Bool := true
  -- `removeConnectionInLoop` functors waiting in the server's loop
  removals : Nat := 0
  -- Whether `connections_` of the server holds the connection
  owned : Bool := true

/-- The answer to a `write` of `len` bytes, as `sendInLoop` reads it. -/
structure Wrote where
  nwrote : Nat
  remaining : Nat
  faultError : Bool

def WriteResult.wrote (len : Nat) : WriteResult → Wrote
  | .room n => ⟨min n len, len - min n len, false⟩
  | .error e => ⟨0, len, e.isFault⟩

def WriteResult.taken (data : Bytes) : WriteResult → Bytes
  | .room n => data.take n
  | .error _ => []

namespace World

variable {P : Type} [Poller P]

def log (w : World P) (e : Effect) : World P := { w with effects := w.effects ++ [e] }

def queueInLoop (w : World P) (f : Functor) : World P := { w with pendingFunctors := w.pendingFunctors ++ [f] }

def setState (w : World P) (s : StateE) : World P := { w with conn := { w.conn with state := s } }

def onChannel (w : World P) (f : P → Channel → Except Fault (P × Channel)) : Except Fault (World P) := do
  let (p, c) ← f w.poller w.conn.channel
  pure { w with poller := p, conn := { w.conn with channel := c } }

def writeDirect (w : World P) (data : Bytes) (r : WriteResult) : World P × Wrote :=
  let a := r.wrote data.length
  let w := w.log (.write data r)
  match r with
  | .room _ =>
    if a.remaining = 0 ∧ w.conn.writeCompleteCallback = true then (w.queueInLoop .writeComplete, a) else (w, a)
  | .error _ => (w, a)

def appendOutput (w : World P) (rest : Bytes) : Except Fault (World P) := do
  let oldLen := w.conn.outputBuffer.readableBytes
  let w := if w.conn.highWaterMark ≤ oldLen + rest.length ∧ oldLen < w.conn.highWaterMark ∧
      w.conn.highWaterMarkCallback = true then w.queueInLoop (.highWaterMark (oldLen + rest.length)) else w
  let b ← w.conn.outputBuffer.append rest
  let w := { w with conn := { w.conn with outputBuffer := b } }
  if w.conn.channel.isWriting then pure w else w.onChannel Channel.enableWriting

def tryWrite (w : World P) (data : Bytes) (r : WriteResult) : World P × Wrote :=
  if w.conn.channel.isWriting = false ∧ w.conn.outputBuffer.readableBytes = 0 then w.writeDirect data r
  else (w, ⟨0, data.length, false⟩)

/-- `state_ == kDisconnected` is only logged, the function goes on. -/
def sendInLoop (w : World P) (data : Bytes) (r : WriteResult) : Except Fault (World P) := do
  let (w, a) := (w.log (.sendInLoop data)).tryWrite data r
  check (a.remaining ≤ data.length) .sendInLoop
  if a.faultError = false ∧ 0 < a.remaining then w.appendOutput ((data.drop a.nwrote).take a.remaining)
  else pure w

def runInLoop (w : World P) (cb : World P → Except Fault (World P)) : Except Fault (World P) := cb w

/-- `send(const StringPiece &)`. -/
def sendPiece (w : World P) (message : Bytes) (r : WriteResult) : Except Fault (World P) :=
  if w.conn.state = .kConnected then w.sendInLoop message r
  else w.runInLoop fun w => w.sendInLoop message r

/-- `send(Buffer *)`. -/
def sendBuffer (w : World P) (message : Bytes) (r : WriteResult) : Except Fault (World P) :=
  if w.conn.state = .kConnected then w.sendInLoop message r else pure w

def shutdownInLoop (w : World P) : World P :=
  if w.conn.channel.isWriting = false then w.log (.shutdownWrite w.conn.outputBuffer.readable) else w

def shutdown (w : World P) : World P :=
  if w.conn.state = .kConnected then ((w.setState .kDisconnecting).log .shutdown).shutdownInLoop else w

def forceClose (w : World P) : World P :=
  if w.conn.state = .kConnected ∨ w.conn.state = .kDisconnecting then
    (w.setState .kDisconnecting).queueInLoop .forceCloseInLoop
  else w

/-- The timer it starts calls `forceClose` later, as a call of its own. -/
def forceCloseWithDelay (w : World P) : World P :=
  if w.conn.state = .kConnected ∨ w.conn.state = .kDisconnecting then w.setState .kDisconnecting else w

def startReadInLoop (w : World P) : Except Fault (World P) :=
  if w.conn.reading = false ∨ w.conn.channel.isReading = false then do
    let w ← w.onChannel Channel.enableReading
    pure { w with conn := { w.conn with reading := true } }
  else pure w

def stopReadInLoop (w : World P) : Except Fault (World P) :=
  if w.conn.reading = true ∨ w.conn.channel.isReading = true then do
    let w ← w.onChannel Channel.disableReading
    pure { w with conn := { w.conn with reading := false } }
  else pure w

def connectEstablished (w : World P) : Except Fault (World P) := do
  check (w.conn.state = .kConnecting) .connectEstablished
  let w ← (w.setState .kConnected).onChannel Channel.enableReading
  pure (w.log (.connectionCallback true))

/-- `TcpServer::newConnection`, up to the return of `connectEstablished`, which
runs while the loop handles events or pending functors. -/
def newConnection (p : P) (addr : Nat) (sockfd : Int) (phase : Phase) (sameLoop : Bool) : Except Fault (World P) := do
  let conn ← TcpConnection.ctor addr sockfd
  connectEstablished { conn, poller := p, phase, sameLoop }

def connectDestroyed (w : World P) : Except Fault (World P) := do
  let w := w.log .connectDestroyed
  if w.conn.state = .kConnected then
    let w ← (w.setState .kDisconnected).onChannel Channel.disableAll
    pure { w.log (.connectionCallback false) with todo := .channelRemove :: w.todo }
  else w.onChannel Channel.remove

def handleClose (w : World P) : Except Fault (World P) := do
  check (w.conn.state = .kConnected ∨ w.conn.state = .kDisconnecting) .handleClose
  let w ← (w.setState .kDisconnected).onChannel Channel.disableAll
  pure { w.log (.connectionCallback false) with todo := .closeCallback :: w.todo }

def removeConnectionInLoop (w : World P) : Except Fault (World P) := do
  check (w.owned = true) .removeConnectionInLoop
  pure ({ w with owned := false }.queueInLoop .connectDestroyed)

/-- `TcpServer::removeConnection`, the `closeCallback_` of a connection. -/
def closeCallback (w : World P) : Except Fault (World P) :=
  let w := w.log .closeCallback
  if w.sameLoop then w.removeConnectionInLoop else pure { w with removals := w.removals + 1 }

/-- `handleError` only logs. -/
def handleRead (w : World P) (r : ReadResult) : Except Fault (World P) := do
  let (n, b) ← w.conn.inputBuffer.readFd r
  let w := { w with conn := { w.conn with inputBuffer := b } }
  if 0 < n then pure (w.log .messageCallback)
  else if n = 0 then w.handleClose
  else pure w

def outputDrained (w : World P) : Except Fault (World P) := do
  let w ← w.onChannel Channel.disableWriting
  let w := if w.conn.writeCompleteCallback then w.queueInLoop .writeComplete else w
  if w.conn.state = .kDisconnecting then pure w.shutdownInLoop else pure w

def handleWrite (w : World P) (r : WriteResult) : Except Fault (World P) := do
  if w.conn.channel.isWriting then
    let data := w.conn.outputBuffer.readable
    let w := w.log (.write data r)
    if 0 < (r.wrote data.length).nwrote then
      let b ← w.conn.outputBuffer.retrieve (r.wrote data.length).nwrote
      let w := { w with conn := { w.conn with outputBuffer := b } }
      if b.readableBytes = 0 then w.outputDrained else pure w
    else pure w
  else pure w

def forceCloseInLoop (w : World P) : Except Fault (World P) :=
  if w.conn.state = .kConnected ∨ w.conn.state = .kDisconnecting then w.handleClose else pure w

def runFunctor (w : World P) : Functor → Except Fault (World P)
  | .forceCloseInLoop => w.forceCloseInLoop
  | .connectDestroyed => w.connectDestroyed
  | .writeComplete => pure (w.log .writeCompleteCallback)
  | .highWaterMark len => pure (w.log (.highWaterMarkCallback len))

end World

end Zhengqi
