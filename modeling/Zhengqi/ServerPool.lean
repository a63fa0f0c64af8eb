import Zhengqi.ServerLog

/-!
# A server and the threads of its pool

`~TcpServer` runs in the thread of the base loop while the loops of the pool go on. Its body
gives every connection its `connectDestroyed`. Then `threadPool_` goes, unless the user's code
has kept the pointer of `threadPool()`: `~EventLoopThread` makes one loop after the other quit
and joins its thread. A loop looks at `quit_` only between two iterations, and what is in its
queue then is never run.
-/

namespace Zhengqi

/-- Where `~TcpServer` is. -/
inductive Ending
  -- Not called
  | up
  -- In its body, with the connections it has not come to
  | body (rest : List Nat)
  -- In `~EventLoopThread` of a loop, before `quit()`, and in `join()`
  | quit (loop : Nat)
  | join (loop : Nat)
  -- It has returned
  | down
  deriving DecidableEq, Repr

/-- The connections the body has not come to. -/
def Ending.rest : Ending → List Nat
  | .body rest => rest
  | _ => []

/-- The loop whose `quit_` is set next. -/
def Ending.quitting : Ending → Option Nat
  | .quit loop => some loop
  | _ => none

/-- Where the thread of a loop of the pool is, in `EventLoop::loop`. -/
inductive IoPhase
  -- In `poll` or in a handler
  | events
  -- In `doPendingFunctors`, with the number of functors that are left of its batch
  | functors (left : Nat)
  -- `loop()` has returned
  | ended
  deriving DecidableEq, Repr

namespace IoPhase

def hasFunctors : IoPhase → Bool
  | .functors (_ + 1) => true
  | _ => false

def pop : IoPhase → IoPhase
  | .functors (left + 1) => .functors left
  | phase => phase

end IoPhase

structure PooledServer extends LoggedServer where
  ending : Ending := .up
  phase : Nat → IoPhase := fun _ => .events
  -- The pointer of `threadPool()` is kept elsewhere
  shared : Bool := false

inductive PoolLabel
  | server (l : TcpServer.Label)
  -- The `swap` of `doPendingFunctors` in a loop of the pool
  | swap (loop : Nat)
  -- The end of an iteration: the test of `while`
  | iterate (loop : Nat)
  -- The next statement of `~TcpServer`
  | dtor
  deriving DecidableEq, Repr

namespace PooledServer

/-- The thread of the base loop is in no destructor. -/
def baseFree (w : PooledServer) : Bool := w.ending = .up || w.ending = .down

/-- The thread of the loop can call a handler. -/
def handles (w : PooledServer) (loop : Nat) : Bool := if loop = 0 then w.baseFree else w.phase loop = .events

/-- The thread of the loop can run a functor. -/
def runs (w : PooledServer) (loop : Nat) : Bool := if loop = 0 then w.baseFree else (w.phase loop).hasFunctors

def possible (w : PooledServer) : TcpServer.Label → Bool
  | .accept _ | .acceptFails => w.ending = .up
  | .runFunctor loop => w.runs loop
  | .handleClose conn => (w.server.objects.alive.find? (·.id = conn)).any fun c => w.handles c.loop
  | .shutdown _ | .forceClose _ | .keep _ | .drop _ => true
  | .dtor => false

/-- `quit_` of a loop. -/
def quits (w : PooledServer) (loop : Nat) : Bool :=
  loop ≠ 0 && loop ≤ w.server.numThreads && !w.shared &&
    match w.ending with
    | .up | .body _ => false
    | .quit l => loop < l
    | .join l => loop ≤ l
    | .down => true

/-- The pointers that are left hold their objects. -/
def settle (w : PooledServer) (server : TcpServer) (starts : List Start) : Except Fault PooledServer := do
  let objects ← server.objects.release server.held
  pure { w with server := { server with objects }, log := w.log ++ starts }

def setPhase (w : PooledServer) (loop : Nat) (phase : IoPhase) : PooledServer :=
  { w with phase := Function.update w.phase loop phase }

def phaseAfter (w : PooledServer) : TcpServer.Label → Nat → IoPhase
  | .runFunctor loop => Function.update w.phase loop (w.phase loop).pop
  | _ => w.phase

def act (w : PooledServer) (l : TcpServer.Label) : Except Fault PooledServer := do
  let v ← w.toLoggedServer.step l
  pure { w with toLoggedServer := v, phase := w.phaseAfter l }

def swap (w : PooledServer) (loop : Nat) : PooledServer :=
  if w.phase loop = .events then w.setPhase loop (.functors (w.server.queues loop).length) else w

/-- The loop that quits drops its functors with its queue. -/
def iterate (w : PooledServer) (loop : Nat) : Except Fault PooledServer :=
  if w.phase loop = .functors 0 then
    if w.quits loop then
      (w.setPhase loop .ended).settle { w.server with queues := Function.update w.server.queues loop [] } []
    else pure (w.setPhase loop .events)
  else pure w

/-- The destructor of the thread of a loop comes next, or the destructor of the server returns. -/
def next (w : PooledServer) (loop : Nat) : PooledServer :=
  if !w.shared ∧ loop ≤ w.server.numThreads then { w with ending := .quit loop }
  else { w with ending := .down, server := { w.server with destroyed := true } }

def dtor (w : PooledServer) : Except Fault PooledServer :=
  match w.ending with
  | .up => pure { w with ending := .body w.server.inOrder }
  | .body (conn :: rest) => do
    let server ← { w.server with connections := w.server.connections.filter (·.2 ≠ conn) }.destroyConnection conn
    { w with ending := .body rest }.settle server (w.server.destroyStarts conn)
  | .body [] => pure (w.next 1)
  | .quit loop => pure { w with ending := .join loop }
  | .join loop => pure (if w.phase loop = .ended then w.next (loop + 1) else w)
  | .down => pure w

def step (w : PooledServer) : PoolLabel → Except Fault PooledServer
  | .server l => if w.possible l then w.act l else pure w
  | .swap loop => pure (w.swap loop)
  | .iterate loop => w.iterate loop
  | .dtor => w.dtor

/-- See `LoggedServer.Closing`. -/
def Closing (w : PooledServer) : PoolLabel → Prop
  | .server l => w.toLoggedServer.Closing l
  | _ => True

instance (w : PooledServer) : ∀ l, Decidable (w.Closing l)
  | .server l => inferInstanceAs (Decidable (w.toLoggedServer.Closing l))
  | .swap _ | .iterate _ | .dtor => .isTrue trivial

/-- The functors that a loop does not run any more if it is to quit. -/
def behind (w : PooledServer) (loop : Nat) : List ServerFunctor :=
  match w.phase loop with
  | .events => []
  | .functors left => (w.server.queues loop).drop left
  | .ended => w.server.queues loop

/-- No close is handled, and a loop that is made to quit has no `connectDestroyed` of the connections waiting
behind the batch it is in. -/
def Calm (conns : List Nat) (w : PooledServer) : PoolLabel → Prop
  | .server (.handleClose conn) => w.possible (.handleClose conn) = false
  | .dtor => ∀ loop ∈ w.ending.quitting, ∀ conn ∈ conns, .connectDestroyed conn ∉ w.behind loop
  | _ => True

instance (conns : List Nat) (w : PooledServer) : ∀ l, Decidable (w.Calm conns l)
  | .server (.handleClose _) => inferInstanceAs (Decidable (_ = _))
  | .dtor => inferInstanceAs (Decidable (∀ _ ∈ _, _))
  | .swap _ | .iterate _ => .isTrue trivial
  | .server (.accept _) | .server .acceptFails | .server (.runFunctor _) | .server (.shutdown _)
  | .server (.forceClose _) | .server (.keep _) | .server (.drop _) | .server .dtor => .isTrue trivial

/-- `~TcpServer` has returned, and every queue is empty. -/
def finished (w : PooledServer) : Bool :=
  w.ending = .down && (List.range (w.server.numThreads + 1)).all fun loop => (w.server.queues loop).isEmpty

end PooledServer

end Zhengqi
