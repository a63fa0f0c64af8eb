import Zhengqi.ConnectionLoop
import Zhengqi.EventLoop

/-!
# Sends from any thread

The two overloads of `TcpConnection::send` called by any thread, next to everything the
loop's thread does. A call in another thread goes through the functor queue of the
connection's loop. The functors that the connection itself queues are those of its `World`;
the order between them and the `sendInLoop` functors is left open.
-/

namespace Zhengqi

/-- A call of `send`. -/
structure Message where
  thread : Nat
  data : Bytes
  deriving DecidableEq, Repr

structure Senders (P : Type) where
  -- The queue holds the `sendInLoop` functors
  loop : EventLoop Message
  world : World P
  -- The calls of `send` that are not ignored, in order, and those whose `sendInLoop` has been executed
  called : List Message := []
  executed : List Message := []

inductive SendStep
  | sendPiece (m : Message) (r : WriteResult)
  | sendBuffer (m : Message) (r : WriteResult)
  -- A step of the loop, with the answer to the `write` that a functor may make
  | loop (l : LoopLabel Message) (r : WriteResult)
  | connection (l : Label)
  deriving DecidableEq, Repr

/-- The functor that the step calls. -/
def EventLoop.callee {φ : Type} (s : EventLoop φ) : LoopLabel φ → Option φ
  | .advance _ =>
    if s.threadId ∈ s.queueing then none
    else match s.phase with
      | .functors _ (cb :: _) => some cb
      | _ => none
  | _ => none

def LoopLabel.queues {φ : Type} : LoopLabel φ → Bool
  | .queueInLoop .. => true
  | _ => false

def Label.isSend : Label → Bool
  | .call (.sendPiece ..) | .call (.sendBuffer ..) => true
  | _ => false

namespace Senders

variable {P : Type} [Poller P]

/-- `sendInLoop`, executed in the given thread. -/
def sendInLoop (s : Senders P) (thread : Nat) (m : Message) (r : WriteResult) : Except Fault (Senders P) := do
  check (s.loop.isInLoopThread thread = true) .abortNotInLoopThread
  let world ← s.world.sendInLoop m.data r
  pure { s with world, executed := s.executed ++ [m] }

/-- `loop_->runInLoop` of `sendInLoop`, called in the thread of the message. -/
def runInLoop (s : Senders P) (m : Message) (r : WriteResult) : Except Fault (Senders P) :=
  if s.loop.isInLoopThread m.thread then s.sendInLoop m.thread m r
  else pure { s with loop := s.loop.queueInLoop m.thread m }

def sendPiece (s : Senders P) (m : Message) (r : WriteResult) : Except Fault (Senders P) :=
  let s := { s with called := s.called ++ [m] }
  if s.world.conn.state = .kConnected then s.sendInLoop m.thread m r else s.runInLoop m r

def sendBuffer (s : Senders P) (m : Message) (r : WriteResult) : Except Fault (Senders P) :=
  if s.world.conn.state = .kConnected then
    let s := { s with called := s.called ++ [m] }
    if s.loop.isInLoopThread m.thread then s.sendInLoop m.thread m r else s.runInLoop m r
  else pure s

def loopStep (s : Senders P) (l : LoopLabel Message) (r : WriteResult) : Except Fault (Senders P) := do
  let loop ← s.loop.step l
  (s.loop.callee l).elim (pure { s with loop }) fun m => { s with loop }.sendInLoop s.loop.threadId m r

def connectionStep (s : Senders P) (l : Label) : Except Fault (Senders P) := do
  let world ← s.world.step l
  pure { s with world }

/-- The thread can call `send`, and the kernel may answer so. -/
def sends (s : Senders P) (thread : Nat) (r : WriteResult) : Bool := s.loop.calls thread && s.world.answers r

def step (s : Senders P) : SendStep → Except Fault (Senders P)
  | .sendPiece m r => if s.sends m.thread r then s.sendPiece m r else pure s
  | .sendBuffer m r => if s.sends m.thread r then s.sendBuffer m r else pure s
  -- A functor comes into the queue by a send only
  | .loop l r => if s.world.answers r && !l.queues then s.loopStep l r else pure s
  | .connection l => if l.isSend then pure s else s.connectionStep l

/-- `send(const StringPiece &)` on a connected connection in a thread that is not the loop's. -/
def astray (s : Senders P) : SendStep → Bool
  | .sendPiece m r => s.sends m.thread r && s.world.conn.state = .kConnected && !s.loop.isInLoopThread m.thread
  | _ => false

/-- The message of which the step executes `sendInLoop`, in the loop's thread. -/
def sending (s : Senders P) : SendStep → Option (Message × WriteResult)
  | .sendPiece m r => if s.sends m.thread r && s.loop.isInLoopThread m.thread then some (m, r) else none
  | .sendBuffer m r =>
    if s.sends m.thread r && s.world.conn.state = .kConnected && s.loop.isInLoopThread m.thread then some (m, r)
    else none
  | .loop l r => if s.world.answers r then (s.loop.callee l).map (·, r) else none
  | .connection _ => none

end Senders

end Zhengqi
