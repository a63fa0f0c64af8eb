import Zhengqi.Fault
import Zhengqi.Lib.Slice
import Zhengqi.Sockets
import Mathlib.Algebra.Group.Int.Defs
import Mathlib.Algebra.Group.Nat.Defs

/-!
# Buffer

`networking/Buffer.h`: a `std::vector<char>` with a reader and a writer cursor.
Cursors and lengths are `size_t`, so sums and differences that the source does
not guard are reduced modulo `2 ^ 64`.
-/

namespace Zhengqi

open Slice

abbrev Byte := UInt8

abbrev Bytes := List Byte

/-- A value computed in `size_t`. -/
def sizeT (n : Nat) : Nat := n % 2 ^ 64

def subT (a b : Nat) : Nat := if b ≤ a then a - b else 2 ^ 64 - (b - a)

structure Buffer where
  buffer : Bytes
  readerIndex : Nat
  writerIndex : Nat
  deriving DecidableEq, Repr

namespace Buffer

def kCheapPrepend : Nat := 8

def kInitialSize : Nat := 1024

/-- `std::vector<char>::max_size()`. -/
def maxSize : Nat := 2 ^ 63 - 1

def resize (v : Bytes) (n : Nat) : Except Fault Bytes :=
  if n ≤ maxSize then .ok (v.take n ++ List.replicate (n - v.length) 0) else .error .lengthError

def readableBytes (b : Buffer) : Nat := subT b.writerIndex b.readerIndex

def writableBytes (b : Buffer) : Nat := subT b.buffer.length b.writerIndex

def prependableBytes (b : Buffer) : Nat := b.readerIndex

/-- The bytes between `peek()` and `beginWrite()`. -/
def readable (b : Buffer) : Bytes := slice b.buffer b.readerIndex b.writerIndex

def ctor (initialSize : Nat) : Except Fault Buffer := do
  let v ← resize [] (sizeT (kCheapPrepend + initialSize))
  let b : Buffer := ⟨v, kCheapPrepend, kCheapPrepend⟩
  check (b.readableBytes = 0) .bufferCtor
  check (b.writableBytes = initialSize) .bufferCtor
  check (b.prependableBytes = kCheapPrepend) .bufferCtor
  pure b

def retrieveAll (b : Buffer) : Buffer := { b with readerIndex := kCheapPrepend, writerIndex := kCheapPrepend }

def retrieve (b : Buffer) (len : Nat) : Except Fault Buffer := do
  check (len ≤ b.readableBytes) .retrieve
  if len < b.readableBytes then pure { b with readerIndex := b.readerIndex + len }
  else pure b.retrieveAll

/-- `stop` is the index in `buffer_` that the pointer `end` points to. -/
def retrieveUntil (b : Buffer) (stop : Nat) : Except Fault Buffer := do
  check (b.readerIndex ≤ stop) .retrieveUntil
  check (stop ≤ b.writerIndex) .retrieveUntil
  b.retrieve (stop - b.readerIndex)

def retrieveAsString (b : Buffer) (len : Nat) : Except Fault (Bytes × Buffer) := do
  check (len ≤ b.readableBytes) .retrieveAsString
  let result := slice b.buffer b.readerIndex (b.readerIndex + len)
  let b ← b.retrieve len
  pure (result, b)

def retrieveAllAsString (b : Buffer) : Except Fault (Bytes × Buffer) := b.retrieveAsString b.readableBytes

def makeSpace (b : Buffer) (len : Nat) : Except Fault Buffer :=
  if sizeT (b.writableBytes + b.prependableBytes) < sizeT (len + kCheapPrepend) then do
    let v ← resize b.buffer (sizeT (b.writerIndex + len))
    pure { b with buffer := v }
  else do
    check (kCheapPrepend < b.readerIndex) .makeSpace
    let readable := b.readableBytes
    -- std::copy to a lower address: the bytes stored are the ones read
    let b : Buffer := {
      buffer := overwrite b.buffer kCheapPrepend b.readable
      readerIndex := kCheapPrepend
      writerIndex := kCheapPrepend + readable }
    check (readable = b.readableBytes) .makeSpaceReadable
    pure b

def ensureWritableBytes (b : Buffer) (len : Nat) : Except Fault Buffer := do
  let b ← (if b.writableBytes < len then b.makeSpace len else pure b)
  check (len ≤ b.writableBytes) .ensureWritableBytes
  pure b

def hasWritten (b : Buffer) (len : Nat) : Except Fault Buffer := do
  check (len ≤ b.writableBytes) .hasWritten
  pure { b with writerIndex := sizeT (b.writerIndex + len) }

/-- Storing `data` from `beginWrite()` on. -/
def fill (b : Buffer) (data : Bytes) : Except Fault Buffer := do
  check (b.writerIndex + data.length ≤ b.buffer.length) .outOfBounds
  pure { b with buffer := overwrite b.buffer b.writerIndex data }

def append (b : Buffer) (data : Bytes) : Except Fault Buffer := do
  let b ← b.ensureWritableBytes data.length
  let b ← b.fill data
  b.hasWritten data.length

/-- `StringPiece::size()` of a piece made from a string. -/
def pieceSize (str : Bytes) : Int := (str.length : Int).bmod (2 ^ 32)

/-- `append(const StringPiece &)`: the size, an `int`, is a `size_t` again. -/
def appendPiece (b : Buffer) (str : Bytes) : Except Fault Buffer :=
  let len := (pieceSize str % 2 ^ 64).toNat
  if len ≤ str.length then b.append (str.take len)
  else do
    let _ ← b.ensureWritableBytes len
    -- std::copy reads on behind the string
    .error .outOfBounds

def unwrite (b : Buffer) (len : Nat) : Except Fault Buffer := do
  check (len ≤ b.readableBytes) .unwrite
  pure { b with writerIndex := b.writerIndex - len }

def prepend (b : Buffer) (data : Bytes) : Except Fault Buffer := do
  check (data.length ≤ b.prependableBytes) .prepend
  let readerIndex := b.readerIndex - data.length
  pure { b with readerIndex, buffer := overwrite b.buffer readerIndex data }

def kCRLF : Bytes := [13, 10]

/-- `std::search` for `kCRLF`, as an offset. -/
def searchCRLF : Bytes → Option Nat
  | [] => none
  | c :: rest => if kCRLF.isPrefixOf (c :: rest) then some 0 else (searchCRLF rest).map (· + 1)

def findCRLF (b : Buffer) : Option Nat := searchCRLF b.readable

def kExtraBuf : Nat := 65536

/-- `readFd`, with the value it returns. `readv` fills the writable bytes first
and the stack buffer `extraBuf` after them; `*savedErrno` is the `errno` of `r`. -/
def readFd (b : Buffer) (r : ReadResult) : Except Fault (Int × Buffer) :=
  let writable := b.writableBytes
  let capacity := if writable < kExtraBuf then writable + kExtraBuf else writable
  match r with
  | .error _ => pure (-1, b)
  | .data arrived => do
    let data := arrived.take capacity
    let b ← b.fill (data.take writable)
    if data.length ≤ writable then
      pure (data.length, { b with writerIndex := sizeT (b.writerIndex + data.length) })
    else
      let b ← append { b with writerIndex := b.buffer.length } (data.drop writable)
      pure (data.length, b)

end Buffer

end Zhengqi
