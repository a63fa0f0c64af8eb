import Zhengqi.TcpServer

/-!
# The life of a connection under its server

A `TcpServer` with a log of the functions that make up the life of a connection, each with
the loop in whose thread it starts.
-/

namespace Zhengqi

inductive LifeStep
  | connectEstablished | handleClose | removeConnectionInLoop | connectDestroyed
  deriving DecidableEq, Repr

def lifeCycle : List LifeStep := [.connectEstablished, .handleClose, .removeConnectionInLoop, .connectDestroyed]

structure Start where
  conn : Nat
  step : LifeStep
  loop : Nat
  deriving DecidableEq, Repr

def startsOf (log : List Start) (conn : Nat) : List LifeStep := (log.filter (·.conn = conn)).map (·.step)

namespace TcpServer

/-- Every connection made so far. -/
def all (s : TcpServer) : List Connection := s.objects.alive ++ s.objects.destroyed

/-- What starts with `handleClose`: its `closeCallback_` goes on at once in the thread of the base loop. -/
def closeStarts (c : Connection) (loop : Nat) : List Start :=
  ⟨c.id, .handleClose, loop⟩ :: if c.loop = 0 then [⟨c.id, .removeConnectionInLoop, loop⟩] else []

def functorStarts (s : TcpServer) (loop : Nat) : ServerFunctor → List Start
  | .connectEstablished conn => [⟨conn, .connectEstablished, loop⟩]
  | .removeConnectionInLoop conn => [⟨conn, .removeConnectionInLoop, loop⟩]
  | .connectDestroyed conn => [⟨conn, .connectDestroyed, loop⟩]
  | .forceCloseInLoop conn =>
    (s.objects.alive.find? (·.id = conn)).elim [] fun c => if Connection.isOpen c.state then closeStarts c loop else []

/-- `~TcpServer` runs `connectDestroyed` itself for a connection on the base loop. -/
def destroyStarts (s : TcpServer) (conn : Nat) : List Start :=
  (s.objects.alive.find? (·.id = conn)).elim [] fun c => if c.loop = 0 then [⟨c.id, .connectDestroyed, 0⟩] else []

/-- What a step starts. The events of a connection are handled in the thread of its loop. -/
def starts (s : TcpServer) : Label → List Start
  | .accept connfd =>
    if (s.destroyed = false ∧ connfd ∉ s.objects.descriptors) ∧ s.getNextLoop.1 = 0 then
      [⟨(s.objects.create s.connName connfd 0).1, .connectEstablished, 0⟩]
    else []
  | .runFunctor loop => (s.queues loop).head?.elim [] (s.functorStarts loop)
  | .handleClose conn => (s.objects.alive.find? (·.id = conn)).elim [] fun c => closeStarts c c.loop
  | .dtor => if s.destroyed = false then s.inOrder.flatMap s.destroyStarts else []
  | _ => []

end TcpServer

structure LoggedServer where
  server : TcpServer
  log : List Start := []

namespace LoggedServer

def step (w : LoggedServer) (l : TcpServer.Label) : Except Fault LoggedServer := do
  let server ← w.server.step l
  pure { server, log := w.log ++ w.server.starts l }

/-- `nextConnId_` numbers fewer than `2 ^ 31` connections, the peer's close reaches a connection
at most once and after `connectEstablished`, and the server is not destroyed. -/
def Orderly (w : LoggedServer) : TcpServer.Label → Prop
  | .accept _ => w.server.nextConnId < 2 ^ 31
  | .handleClose conn => w.server.knows conn = true →
      .connectEstablished ∈ startsOf w.log conn ∧ .handleClose ∉ startsOf w.log conn
  | .dtor => False
  | _ => True

instance (w : LoggedServer) : ∀ l, Decidable (w.Orderly l)
  | .accept _ => inferInstanceAs (Decidable (_ < _))
  | .handleClose _ => inferInstanceAs (Decidable (_ → _))
  | .dtor => .isFalse id
  | .acceptFails | .runFunctor _ | .shutdown _ | .forceClose _ | .keep _ | .drop _ => .isTrue trivial

/-- As `Orderly`, but the server may be destroyed at any moment. Connections are closed by their peers. -/
def Closing (w : LoggedServer) : TcpServer.Label → Prop
  | .accept _ => w.server.nextConnId < 2 ^ 31
  | .handleClose conn => w.server.knows conn = true →
      .connectEstablished ∈ startsOf w.log conn ∧ .handleClose ∉ startsOf w.log conn ∧
        .connectDestroyed ∉ startsOf w.log conn
  | .shutdown _ | .forceClose _ => False
  | _ => True

instance (w : LoggedServer) : ∀ l, Decidable (w.Closing l)
  | .accept _ => inferInstanceAs (Decidable (_ < _))
  | .handleClose _ => inferInstanceAs (Decidable (_ → _))
  | .shutdown _ | .forceClose _ => .isFalse id
  | .acceptFails | .runFunctor _ | .keep _ | .drop _ | .dtor => .isTrue trivial

end LoggedServer

end Zhengqi
