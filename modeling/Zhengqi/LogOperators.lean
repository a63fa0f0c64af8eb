import Zhengqi.LogStream
import Zhengqi.Text

/-!
# LogStream

The operators of `utility/LogStream.h` and the conversions of `utility/LogStream.cpp`, with every
store into `data_`. Numbers are formatted in place.
-/

namespace Zhengqi

open Slice

def kSmallBuffer : Nat := 4000

def kMaxNumericSize : Nat := 48

/-- `data_` and `cur_` of a `FixedBuffer`. -/
structure Cells (size : Nat) where
  data : Bytes
  cur : Nat
  length_data : data.length = size
  cur_le : cur ≤ size
  deriving DecidableEq

namespace Cells

variable {size : Nat}

def write (c : Cells size) (i : Nat) (bs : Bytes) : Except Fault (Cells size) :=
  if h : i + bs.length ≤ size then
    .ok { c with
      data := overwrite c.data i bs
      length_data := by rw [length_overwrite (by rwa [c.length_data]), c.length_data] }
  else .error .outOfBounds

def store (c : Cells size) (i : Nat) (b : Byte) : Except Fault (Cells size) := c.write i [b]

/-- `std::reverse(buf, p)`. -/
def reverse (c : Cells size) (buf p : Nat) : Except Fault (Cells size) := c.write buf (slice c.data buf p).reverse

def length (c : Cells size) : Nat := c.cur

def avail (c : Cells size) : Nat := size - c.cur

def add (c : Cells size) (len : Nat) : Except Fault (Cells size) :=
  if h : c.cur + len ≤ size then .ok { c with cur := c.cur + len, cur_le := h } else .error .outOfBounds

def append (c : Cells size) (buf : Bytes) : Except Fault (Cells size) :=
  if buf.length < c.avail then do
    let c ← c.write c.cur buf
    c.add buf.length
  else pure c

def toStringPiece (c : Cells size) : Bytes := slice c.data 0 c.cur

/-- `debugString`, which answers `data_`. -/
def debugString (c : Cells size) : Except Fault (Cells size) := c.store c.cur 0

end Cells

/-! ## Conversions -/

def digits : Bytes := ascii "9876543210123456789"

def digitsHex : Bytes := ascii "0123456789ABCDEF"

/-- `zero[lsd]`, where `zero` points to the middle of `digits`. -/
def zero (lsd : Int) : Except Fault Byte := if 0 ≤ 9 + lsd then get digits (9 + lsd).toNat else .error .outOfBounds

theorem natAbs_tdiv_lt {base i : Int} (hb : 1 < base) (hi : i.tdiv base ≠ 0) : (i.tdiv base).natAbs < i.natAbs := by
  rw [Int.natAbs_tdiv]
  refine Nat.div_lt_self ?_ (by omega)
  have : i ≠ 0 := by
    rintro rfl
    exact hi (Int.zero_tdiv base)
  omega

/-- The loop of `convert` and of `convertHex`. -/
def putDigits {size : Nat} (base : Int) (hb : 1 < base) (digit : Int → Except Fault Byte) (i : Int)
    (p : Nat) (c : Cells size) :
    Except Fault (Nat × Cells size) := do
  let lsd := i.tmod base
  let c ← c.store p (← digit lsd)
  if h : i.tdiv base = 0 then pure (p + 1, c) else putDigits base hb digit (i.tdiv base) (p + 1) c
  termination_by i.natAbs
  decreasing_by exact natAbs_tdiv_lt hb h

/-- The length, and the cells from `buf` on. -/
def convert {size : Nat} (c : Cells size) (buf : Nat) (value : Int) : Except Fault (Nat × Cells size) := do
  let (p, c) ← putDigits 10 (by decide) zero value buf c
  let (p, c) ← (if value < 0 then do pure (p + 1, ← c.store p (chr '-')) else pure (p, c))
  let c ← c.store p 0
  let c ← c.reverse buf p
  pure (p - buf, c)

def convertHex {size : Nat} (c : Cells size) (buf : Nat) (value : Nat) : Except Fault (Nat × Cells size) := do
  let (p, c) ← putDigits 16 (by decide) (fun lsd => get digitsHex lsd.toNat) value buf c
  let c ← c.store p 0
  let c ← c.reverse buf p
  pure (p - buf, c)

/-! ## Operators -/

/-- What `operator<<` is applied to. A C string is the memory it points to. -/
inductive Operand
  | bool (v : Bool)
  | char (v : Byte)
  | short (v : Int16)
  | unsignedShort (v : UInt16)
  | int (v : Int32)
  | unsignedInt (v : UInt32)
  | long (v : Int64)
  | unsignedLong (v : UInt64)
  | longLong (v : Int64)
  | unsignedLongLong (v : UInt64)
  | pointer (p : UInt64)
  | cString (str : Option Bytes)
  | string (v : Bytes)
  | stringPiece (v : Bytes)
  | buffer (v : Cells kSmallBuffer)

abbrev LogStream := Cells kSmallBuffer

namespace LogStream

def formatInteger (s : LogStream) (v : Int) : Except Fault LogStream :=
  if kMaxNumericSize ≤ s.avail then do
    let (len, s) ← convert s s.cur v
    s.add len
  else pure s

def putPointer (s : LogStream) (p : UInt64) : Except Fault LogStream :=
  if kMaxNumericSize ≤ s.avail then do
    let buf := s.cur
    let s ← s.store buf (chr '0')
    let s ← s.store (buf + 1) (chr 'x')
    let (len, s) ← convertHex s (buf + 2) p.toNat
    s.add (len + 2)
  else pure s

/-- The bytes before the terminating NUL. -/
def cStr (str : Bytes) : Bytes := str.takeWhile (· ≠ 0)

def put (s : LogStream) : Operand → Except Fault LogStream
  | .bool v => s.append (if v then ascii "1" else ascii "0")
  | .char v => s.append [v]
  | .short v => s.formatInteger v.toInt
  | .unsignedShort v => s.formatInteger v.toNat
  | .int v => s.formatInteger v.toInt
  | .unsignedInt v => s.formatInteger v.toNat
  | .long v => s.formatInteger v.toInt
  | .unsignedLong v => s.formatInteger v.toNat
  | .longLong v => s.formatInteger v.toInt
  | .unsignedLongLong v => s.formatInteger v.toNat
  | .pointer p => s.putPointer p
  | .cString (some str) => s.append (cStr str)
  | .cString none => s.append (ascii "(null)")
  | .string v => s.append v
  | .stringPiece v => s.append v
  | .buffer v => s.append v.toStringPiece

def putAll (s : LogStream) (os : List Operand) : Except Fault LogStream := os.foldlM put s

end LogStream

end Zhengqi
