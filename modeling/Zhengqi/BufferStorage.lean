import Zhengqi.Buffer

/-!
# Storage of a buffer

`Buffer::shrink`, and `Buffer::readFd` with the memory that it offers to `readv`. `Buffer.readFd` is the
same function for callers that do not look at `*savedErrno`.
-/

namespace Zhengqi

open Slice

namespace Buffer

/-! ## shrink -/

/-- The temporary buffer is swapped with this one, and dies with the old storage. -/
def shrink (b : Buffer) (reserve : Nat) : Except Fault Buffer := do
  let other ← ctor kInitialSize
  let other ← other.ensureWritableBytes (sizeT (b.readableBytes + reserve))
  -- `toStringPiece()` is the readable bytes with their number as an `int`
  other.appendPiece b.readable

/-! ## readFd -/

/-- The arrays that an `iov_base` points into. -/
inductive Area
  | buffer | extraBuf
  deriving DecidableEq, Repr

structure Iovec where
  base : Area
  start : Nat
  len : Nat
  deriving DecidableEq, Repr

/-- The first `iovcnt` elements of `vec`. -/
def iovecs (b : Buffer) : List Iovec :=
  let writable := b.writableBytes
  let vec : List Iovec := [⟨.buffer, b.writerIndex, writable⟩, ⟨.extraBuf, 0, kExtraBuf⟩]
  let iovcnt := if writable < kExtraBuf then 2 else 1
  vec.take iovcnt

/-- How much `readv` may deliver. -/
def offered (b : Buffer) : Nat := b.iovecs.foldr (fun v size => v.len + size) 0

/-- The contents of `buffer_` and of `extraBuf`. -/
structure Memory where
  buffer : Bytes
  extraBuf : Bytes

namespace Memory

def area (m : Memory) : Area → Bytes
  | .buffer => m.buffer
  | .extraBuf => m.extraBuf

def store (m : Memory) (base : Area) (start : Nat) (data : Bytes) : Except Fault Memory := do
  check (start + data.length ≤ (m.area base).length) .outOfBounds
  match base with
  | .buffer => pure { m with buffer := overwrite m.buffer start data }
  | .extraBuf => pure { m with extraBuf := overwrite m.extraBuf start data }

/-- `readv`: the areas are filled in order. -/
def deliver (m : Memory) (data : Bytes) : List Iovec → Except Fault Memory
  | [] => pure m
  | v :: vec => do
    let m ← m.store v.base v.start (data.take v.len)
    m.deliver (data.drop v.len) vec

end Memory

/-- `readFd`, with its answer and what `*savedErrno` is afterwards. `extraBuf` is what the stack holds. -/
def readFdVec (b : Buffer) (extraBuf : Bytes) (savedErrno : Option Errno) :
    ReadResult → Except Fault (Int × Buffer × Option Errno)
  | .error e => pure (-1, b, some e)
  | .data arrived => do
    let writable := b.writableBytes
    let data := arrived.take b.offered
    let n := data.length
    let m ← Memory.deliver ⟨b.buffer, extraBuf⟩ data b.iovecs
    let b : Buffer := { b with buffer := m.buffer }
    if n ≤ writable then
      pure (n, { b with writerIndex := sizeT (b.writerIndex + n) }, savedErrno)
    else do
      let b : Buffer := { b with writerIndex := b.buffer.length }
      let len := n - writable
      check (len ≤ m.extraBuf.length) .outOfBounds
      let b ← b.append (m.extraBuf.take len)
      pure (n, b, savedErrno)

end Buffer

end Zhengqi
