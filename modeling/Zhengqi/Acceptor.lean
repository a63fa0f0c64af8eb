import Zhengqi.Fault

/-!
# Acceptor

`networking/Acceptor.cpp` with `sockets::accept`, one system call after the other, and the descriptors of its process.
Between two calls the other threads open and close descriptors of their own. A connection is taken from the queue of
the listening socket by the `accept` that answers for it, also where the peer has given it up.
-/

namespace Zhengqi

/-- A connection in the queue of the listening socket. -/
structure Incoming where
  id : Nat
  aborted : Bool := false
  deriving DecidableEq, Repr

/-- The errors of `::accept4` after which `sockets::accept` returns. -/
inductive AcceptErrno
  | EAGAIN | ECONNABORTED | EMFILE
  deriving DecidableEq, Repr

/-- The next call of `handleRead`. -/
inductive AcceptorPc
  | out | accept | closeIdle | acceptIdle | closeAccepted | openNull
  deriving DecidableEq, Repr

structure Acceptor where
  -- The limit of the descriptors, those of the acceptor and those of the rest of the process
  limit : Nat
  own : List Nat := []
  others : List Nat := []
  backlog : List Incoming := []
  -- `idleFd_`, `none` for a negative number
  idleFd : Option Nat := none
  newConnectionCallback : Bool := true
  -- The connections that were passed to the callback, and those that were closed
  handed : List Nat := []
  dropped : List Nat := []
  pc : AcceptorPc := .out
  deriving DecidableEq, Repr

namespace Acceptor

/-! ## System calls -/

/-- The lowest descriptor that is not open. -/
def unused (a : Acceptor) : Option Nat := (List.range a.limit).find? fun fd => fd ∉ a.own ∧ fd ∉ a.others

def close (a : Acceptor) : Option Nat → Except Fault Acceptor
  | none => pure a
  | some fd =>
    if fd ∈ a.own then pure { a with own := a.own.erase fd }
    else do
      -- It would be closed under the hands of its owner
      check (fd ∉ a.others) .useAfterFree
      pure a

def openFile (a : Acceptor) : Option Nat × Acceptor :=
  match a.unused with
  | some fd => (some fd, { a with own := fd :: a.own })
  | none => (none, a)

/-- `::accept4`, which looks for a descriptor before it looks for a connection. -/
def accept4 (a : Acceptor) : Except AcceptErrno (Nat × Nat) × Acceptor :=
  match a.unused with
  | none => (.error .EMFILE, a)
  | some fd =>
    match a.backlog with
    | [] => (.error .EAGAIN, a)
    | c :: backlog =>
      if c.aborted then (.error .ECONNABORTED, { a with backlog })
      else (.ok (fd, c.id), { a with backlog, own := fd :: a.own })

/-! ## handleRead -/

/-- The callback, which takes the descriptor over. -/
def newConnection (a : Acceptor) (fd id : Nat) : Acceptor :=
  { a with own := a.own.erase fd, others := fd :: a.others, handed := a.handed ++ [id] }

def next (a : Acceptor) : Except Fault Acceptor :=
  match a.pc with
  | .out => pure a
  | .accept =>
    match a.accept4 with
    | (.ok (fd, id), a) =>
      if a.newConnectionCallback then pure { a.newConnection fd id with pc := .out }
      else do
        let a ← a.close (some fd)
        pure { a with dropped := a.dropped ++ [id], pc := .out }
    | (.error .EMFILE, a) => pure { a with pc := .closeIdle }
    | (.error _, a) => pure { a with pc := .out }
  | .closeIdle => do
    let a ← a.close a.idleFd
    pure { a with pc := .acceptIdle }
  | .acceptIdle =>
    match a.accept4 with
    | (.ok (fd, id), a) => pure { a with idleFd := some fd, dropped := a.dropped ++ [id], pc := .closeAccepted }
    | (.error _, a) => pure { a with idleFd := none, pc := .closeAccepted }
  | .closeAccepted => do
    let a ← a.close a.idleFd
    pure { a with pc := .openNull }
  | .openNull =>
    let (idleFd, a) := a.openFile
    pure { a with idleFd, pc := .out }

inductive Label
  -- A peer connects
  | connect (c : Incoming)
  -- Another thread opens or closes a descriptor
  | openOther
  | closeOther (fd : Nat)
  -- The listening socket is readable, and the next call of `handleRead`
  | handleRead
  | next
  deriving DecidableEq, Repr

def step (a : Acceptor) : Label → Except Fault Acceptor
  | .connect c => pure { a with backlog := a.backlog ++ [c] }
  | .openOther => pure { a with others := a.unused.toList ++ a.others }
  | .closeOther fd => pure { a with others := a.others.erase fd }
  | .handleRead => if a.pc = .out then pure { a with pc := .accept } else pure a
  | .next => a.next

/-- The constructor, up to its assertion that `idleFd_` is open. -/
def ctor (limit : Nat) (others : List Nat) (newConnectionCallback : Bool) : Acceptor :=
  let (idleFd, a) := openFile { limit, others, newConnectionCallback }
  { a with idleFd }

end Acceptor

end Zhengqi
