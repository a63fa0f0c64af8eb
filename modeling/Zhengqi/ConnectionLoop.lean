import Zhengqi.TcpConnection

/-!
# A connection on its loop

`Channel::handleEvent` and the iterations of `EventLoop::loop`, seen from one
connection owned by a `TcpServer`. A label is one thing that can happen next: a
call of the user, the return of the poller, the next task of the iteration, the
start of `doPendingFunctors`, the end of the iteration, the server's loop taking
its `removeConnectionInLoop` functor, or the destructor of the server. A label
that is not possible in a state leaves it as it is.
-/

namespace Zhengqi

/-- The public member functions; a send carries the kernel's answer to the
`write` it may make. -/
inductive Call
  | sendPiece (message : Bytes) (r : WriteResult)
  | sendBuffer (message : Bytes) (r : WriteResult)
  | shutdown | forceClose | forceCloseWithDelay | startRead | stopRead
  | setWriteCompleteCallback
  | setHighWaterMarkCallback (highWaterMark : Nat)
  deriving DecidableEq, Repr

inductive Label
  | call (c : Call)
  | poll (revents : Events)
  | task (wr : WriteResult) (rr : ReadResult)
  | doPendingFunctors | endIteration
  | removeConnectionInLoop | destroy
  deriving DecidableEq, Repr

def handleEventWithGuard (revents : Events) : List Task :=
  (if revents.pollhup && !revents.pollin then [.handleClose] else []) ++
  (if revents.pollerr || revents.pollnval then [.handleError] else []) ++
  (if revents.pollin || revents.pollpri || revents.pollrdhup then [.handleRead] else []) ++
  (if revents.pollout then [.handleWrite] else [])

/-- What `epoll_wait` may report on a descriptor: any of the registered events
with `EPOLLERR` and `EPOLLHUP`, the latter with `EPOLLIN` where that is
registered. -/
def reportable (registered : Option Events) (revents : Events) : Bool :=
  match registered with
  | none => revents = kNoneEvent
  | some ev => revents.diff (ev.union { pollerr := true, pollhup := true }) = kNoneEvent &&
      (!revents.pollhup || !ev.pollin || revents.pollin)

namespace World

variable {P : Type}

def broken (effects : List Effect) : Bool :=
  effects.any fun
    | .write _ (.error e) => e.isFault
    | _ => false

/-- The kernel takes no byte after a `write` failed with `EPIPE` or `ECONNRESET`. -/
def answers (w : World P) : WriteResult → Bool
  | .room n => n = 0 || !broken w.effects
  | .error _ => true

variable [Poller P]

def possible (w : World P) : Label → Bool
  | .call (.sendPiece _ r) | .call (.sendBuffer _ r) | .task r _ => w.answers r
  | .call _ => true
  | .poll revents => w.phase = .poll && w.todo = [] &&
      reportable (Poller.registered w.poller w.conn.channel.fd) revents
  | .doPendingFunctors => w.phase = .handleEvents && w.todo = []
  | .endIteration => w.phase = .functors && w.todo = []
  | .removeConnectionInLoop => 0 < w.removals
  | .destroy => w.owned

def call (w : World P) : Call → Except Fault (World P)
  | .sendPiece m r => w.sendPiece m r
  | .sendBuffer m r => w.sendBuffer m r
  | .shutdown => pure w.shutdown
  | .forceClose => pure w.forceClose
  | .forceCloseWithDelay => pure w.forceCloseWithDelay
  | .startRead => w.runInLoop startReadInLoop
  | .stopRead => w.runInLoop stopReadInLoop
  | .setWriteCompleteCallback => pure { w with conn := { w.conn with writeCompleteCallback := true } }
  | .setHighWaterMarkCallback highWaterMark => pure { w with
      conn := { w.conn with highWaterMarkCallback := true, highWaterMark } }

def runTask (w : World P) (wr : WriteResult) (rr : ReadResult) : Task → Except Fault (World P)
  | .handleClose => w.handleClose
  | .handleError => pure w
  | .handleRead => w.handleRead rr
  | .handleWrite => w.handleWrite wr
  | .closeCallback => w.closeCallback
  | .channelRemove => w.onChannel Channel.remove
  | .functor f => w.runFunctor f

def destroy (w : World P) : Except Fault (World P) :=
  let w := { w with owned := false }
  if w.sameLoop then w.connectDestroyed else pure (w.queueInLoop .connectDestroyed)

def act (w : World P) : Label → Except Fault (World P)
  | .call c => w.call c
  | .poll revents => pure { w with phase := .handleEvents, todo := handleEventWithGuard revents }
  | .task wr rr =>
    match w.todo with
    | [] => pure w
    | t :: ts => { w with todo := ts }.runTask wr rr t
  | .doPendingFunctors => pure { w with
      phase := .functors, todo := w.pendingFunctors.map .functor, pendingFunctors := [] }
  | .endIteration => pure { w with phase := .poll }
  | .removeConnectionInLoop => { w with removals := w.removals - 1 }.removeConnectionInLoop
  | .destroy => w.destroy

def step (w : World P) (l : Label) : Except Fault (World P) := if w.possible l then w.act l else pure w

end World

end Zhengqi
