import Zhengqi.Channel
import Zhengqi.Connector

/-!
# A connector on its loop

What can happen to a `Connector` in its loop's thread, one label at a time: calls of `start`,
`stop` and `restart`, an event of its channel, a retry timer, the next functor. The sockets it
has made and those it has handed over are recorded.
-/

namespace Zhengqi

structure ConnectorLoop where
  connector : Connector := {}
  -- What `createNonblockingOrDie` has answered
  created : List Nat := []
  -- What `newConnectionCallback_` was called with
  handed : List Nat := []
  -- The connections made of these that have not been closed
  connections : Nat := 0

/-- The channel is in the poller until `removeAndResetChannel`. -/
def Connector.registered (c : Connector) : Bool := c.channel.isSome && .resetChannel ∉ c.pendingFunctors

namespace ConnectorLoop

inductive Label
  | start (a : Attempt)
  | stop
  -- A connection is closed, where there is one, and `restart` is called
  | restart (a : Attempt)
  -- A connection is closed and `restart` is not called
  | connectionClosed
  -- With `SO_ERROR` and whether the socket is connected to itself
  | handleEvent (revents : Events) (err isSelfConnect : Bool)
  | runTimer (i : Nat) (a : Attempt)
  | runFunctor
  deriving DecidableEq, Repr

/-- `Channel::handleEventWithGuard` with the two callbacks that `connecting` sets. -/
def handleEvent (w : ConnectorLoop) (revents : Events) (err isSelfConnect : Bool) : Except Fault ConnectorLoop := do
  let c ← (if revents.pollerr || revents.pollnval then w.connector.handleError else pure w.connector)
  if revents.pollout then do
    let (sockfd, c) ← c.handleWrite err isSelfConnect
    pure { w with
      connector := c
      handed := sockfd.toList ++ w.handed
      connections := w.connections + sockfd.toList.length }
  else pure { w with connector := c }

def step (w : ConnectorLoop) : Label → Except Fault ConnectorLoop
  | .start a => do
    let c ← w.connector.start a.sockfd a.savedErrno
    pure { w with connector := c, created := a.sockfd :: w.created }
  | .stop => pure { w with connector := w.connector.stop }
  | .restart a => do
    let c ← w.connector.restart a.sockfd a.savedErrno
    pure { w with connector := c, created := a.sockfd :: w.created, connections := w.connections - 1 }
  | .connectionClosed => pure { w with connections := w.connections - 1 }
  | .handleEvent revents err isSelfConnect =>
    if w.connector.registered then w.handleEvent revents err isSelfConnect else pure w
  | .runTimer i a => do
    let c ← w.connector.runTimer i a.sockfd a.savedErrno
    let connects := i < w.connector.timers.length ∧ w.connector.wanted = true
    pure { w with connector := c, created := if connects then a.sockfd :: w.created else w.created }
  | .runFunctor => do
    let c ← w.connector.runFunctor
    pure { w with connector := c }

end ConnectorLoop

end Zhengqi
