import Zhengqi.Buffer
import Zhengqi.Lib.Endian

/-!
# Integers in a Buffer

The `Int` functions of `networking/Buffer.h`, with the conversions of `networking/Endian.h` on a
little-endian host. `k` is the `sizeof` of the type; a conversion between a signed type and the unsigned
one of its size keeps the bits.
-/

namespace Zhengqi

open Slice Endian

/-! ## Endian.h -/

def hostToNetwork {k : Nat} (host : BitVec (8 * k)) : BitVec (8 * k) := .ofNat _ (byteSwap k host.toNat)

def networkToHost {k : Nat} (net : BitVec (8 * k)) : BitVec (8 * k) := .ofNat _ (byteSwap k net.toNat)

namespace Buffer

/-! ## The functions of each size -/

def appendInt {k : Nat} (b : Buffer) (x : BitVec (8 * k)) : Except Fault Buffer :=
  let be := hostToNetwork x
  b.append (leBytes k be.toNat)

def prependInt {k : Nat} (b : Buffer) (x : BitVec (8 * k)) : Except Fault Buffer :=
  let be := hostToNetwork x
  b.prepend (leBytes k be.toNat)

def peekInt (k : Nat) (b : Buffer) : Except Fault (BitVec (8 * k)) := do
  check (k ≤ b.readableBytes) .peekInt
  let be : BitVec (8 * k) := .ofNat _ (leNat (slice b.buffer b.readerIndex (b.readerIndex + k)))
  pure (networkToHost be)

def readInt {α : Type} (peek : Buffer → Except Fault α) (retrieve : Buffer → Except Fault Buffer) (b : Buffer) :
    Except Fault (α × Buffer) := do
  let result ← peek b
  let b ← retrieve b
  pure (result, b)

def appendInt64 (b : Buffer) (x : Int64) : Except Fault Buffer := b.appendInt (k := 8) x.toBitVec

def appendInt32 (b : Buffer) (x : Int32) : Except Fault Buffer := b.appendInt (k := 4) x.toBitVec

def appendInt16 (b : Buffer) (x : Int16) : Except Fault Buffer := b.appendInt (k := 2) x.toBitVec

/-- One byte has no order. -/
def appendInt8 (b : Buffer) (x : Int8) : Except Fault Buffer := b.append [x.toUInt8]

def retrieveInt64 (b : Buffer) : Except Fault Buffer := b.retrieve 8

def retrieveInt32 (b : Buffer) : Except Fault Buffer := b.retrieve 4

def retrieveInt16 (b : Buffer) : Except Fault Buffer := b.retrieve 2

def retrieveInt8 (b : Buffer) : Except Fault Buffer := b.retrieve 1

def peekInt64 (b : Buffer) : Except Fault Int64 := do pure (.ofBitVec (← b.peekInt 8))

def peekInt32 (b : Buffer) : Except Fault Int32 := do pure (.ofBitVec (← b.peekInt 4))

def peekInt16 (b : Buffer) : Except Fault Int16 := do pure (.ofBitVec (← b.peekInt 2))

def peekInt8 (b : Buffer) : Except Fault Int8 := do
  check (1 ≤ b.readableBytes) .peekInt
  let be8 ← get b.buffer b.readerIndex
  pure be8.toInt8

def readInt64 : Buffer → Except Fault (Int64 × Buffer) := readInt peekInt64 retrieveInt64

def readInt32 : Buffer → Except Fault (Int32 × Buffer) := readInt peekInt32 retrieveInt32

def readInt16 : Buffer → Except Fault (Int16 × Buffer) := readInt peekInt16 retrieveInt16

def readInt8 : Buffer → Except Fault (Int8 × Buffer) := readInt peekInt8 retrieveInt8

def prependInt64 (b : Buffer) (x : Int64) : Except Fault Buffer := b.prependInt (k := 8) x.toBitVec

def prependInt32 (b : Buffer) (x : Int32) : Except Fault Buffer := b.prependInt (k := 4) x.toBitVec

def prependInt16 (b : Buffer) (x : Int16) : Except Fault Buffer := b.prependInt (k := 2) x.toBitVec

def prependInt8 (b : Buffer) (x : Int8) : Except Fault Buffer := b.prepend [x.toUInt8]

end Buffer

end Zhengqi
