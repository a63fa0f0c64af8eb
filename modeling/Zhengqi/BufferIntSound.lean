import Zhengqi.BufferInt
import Zhengqi.BufferSound

/-!
# Framing with integers

Integers of mixed sizes that were appended to a buffer are read back in the same order.
-/

namespace Zhengqi

open Slice Run Endian ByteReader

/-! ## Numbers and their bytes -/

theorem two_pow_bits (k : Nat) : 2 ^ (8 * k) = 256 ^ k := by
  rw [Nat.pow_mul]

theorem toNat_hostToNetwork {k : Nat} (x : BitVec (8 * k)) : (hostToNetwork x).toNat = byteSwap k x.toNat := by
  rw [hostToNetwork, BitVec.toNat_ofNat, two_pow_bits, Nat.mod_eq_of_lt (byteSwap_lt k _)]

theorem intBytes_toInt {k : Nat} (x : BitVec (8 * k)) : intBytes k x.toInt = beBytes k x.toNat := by
  have hcast : (256 ^ k : Int) = ((2 ^ (8 * k) : Nat) : Int) := by
    rw [two_pow_bits, Int.natCast_pow]
    rfl
  rw [intBytes, hcast, BitVec.toInt_eq_toNat_bmod, Int.bmod_emod, ← Int.natCast_emod, Int.toNat_natCast,
    Nat.mod_eq_of_lt x.isLt]

theorem intBytes_inj {k : Nat} {x y : BitVec (8 * k)} (h : intBytes k x.toInt = intBytes k y.toInt) : x = y := by
  rw [intBytes_toInt, intBytes_toInt] at h
  have hnat := congrArg beNat h
  rw [beNat_beBytes, beNat_beBytes, ← two_pow_bits, Nat.mod_eq_of_lt x.isLt, Nat.mod_eq_of_lt y.isLt] at hnat
  exact BitVec.eq_of_toNat_eq hnat

theorem leBytes_hostToNetwork {k : Nat} (x : BitVec (8 * k)) :
    leBytes k (hostToNetwork x).toNat = intBytes k x.toInt := by
  rw [toNat_hostToNetwork, leBytes_byteSwap, intBytes_toInt]

theorem intBytes_networkToHost (bs : Bytes) :
    intBytes bs.length (networkToHost (BitVec.ofNat (8 * bs.length) (leNat bs))).toInt = bs := by
  have hload : (BitVec.ofNat (8 * bs.length) (leNat bs)).toNat = leNat bs := by
    rw [BitVec.toNat_ofNat, two_pow_bits, Nat.mod_eq_of_lt (leNat_lt bs)]
  have hnat : (networkToHost (BitVec.ofNat (8 * bs.length) (leNat bs))).toNat = beNat bs := by
    rw [networkToHost, BitVec.toNat_ofNat, two_pow_bits, hload, Nat.mod_eq_of_lt (byteSwap_lt ..), byteSwap_leNat]
  rw [intBytes_toInt, hnat, beBytes_beNat]

/-! ## Values -/

inductive IntWidth
  | int8 | int16 | int32 | int64
  deriving DecidableEq

/-- A width, and a value of the signed type of that width. -/
inductive IntValue
  | int8 (x : Int8)
  | int16 (x : Int16)
  | int32 (x : Int32)
  | int64 (x : Int64)
  deriving DecidableEq

def IntWidth.size : IntWidth → Nat
  | .int8 => 1
  | .int16 => 2
  | .int32 => 4
  | .int64 => 8

namespace IntValue

def width : IntValue → IntWidth
  | .int8 _ => .int8
  | .int16 _ => .int16
  | .int32 _ => .int32
  | .int64 _ => .int64

def toInt : IntValue → Int
  | .int8 x => x.toInt
  | .int16 x => x.toInt
  | .int32 x => x.toInt
  | .int64 x => x.toInt

/-- Big-endian, in two's complement. -/
def encode (v : IntValue) : Bytes := intBytes v.width.size v.toInt

theorem length_encode (v : IntValue) : v.encode.length = v.width.size := length_intBytes ..

theorem encode_inj {u v : IntValue} (hw : u.width = v.width) (h : u.encode = v.encode) : u = v := by
  cases u <;> cases v <;> cases hw
  case int8.int8.refl x y => exact congrArg int8 (Int8.toBitVec_inj.1 (intBytes_inj (k := 1) h))
  case int16.int16.refl x y => exact congrArg int16 (Int16.toBitVec_inj.1 (intBytes_inj (k := 2) h))
  case int32.int32.refl x y => exact congrArg int32 (Int32.toBitVec_inj.1 (intBytes_inj (k := 4) h))
  case int64.int64.refl x y => exact congrArg int64 (Int64.toBitVec_inj.1 (intBytes_inj (k := 8) h))

end IntValue

namespace Buffer

def appendValue (b : Buffer) : IntValue → Except Fault Buffer
  | .int8 x => b.appendInt8 x
  | .int16 x => b.appendInt16 x
  | .int32 x => b.appendInt32 x
  | .int64 x => b.appendInt64 x

def prependValue (b : Buffer) : IntValue → Except Fault Buffer
  | .int8 x => b.prependInt8 x
  | .int16 x => b.prependInt16 x
  | .int32 x => b.prependInt32 x
  | .int64 x => b.prependInt64 x

def peekValue (b : Buffer) : IntWidth → Except Fault IntValue
  | .int8 => do pure (.int8 (← b.peekInt8))
  | .int16 => do pure (.int16 (← b.peekInt16))
  | .int32 => do pure (.int32 (← b.peekInt32))
  | .int64 => do pure (.int64 (← b.peekInt64))

def readValue (b : Buffer) : IntWidth → Except Fault (IntValue × Buffer)
  | .int8 => do
    let (x, b) ← b.readInt8
    pure (.int8 x, b)
  | .int16 => do
    let (x, b) ← b.readInt16
    pure (.int16 x, b)
  | .int32 => do
    let (x, b) ← b.readInt32
    pure (.int32 x, b)
  | .int64 => do
    let (x, b) ← b.readInt64
    pure (.int64 x, b)

def appendValues (b : Buffer) (vs : List IntValue) : Except Fault Buffer := run appendValue b vs

def readValues (b : Buffer) : List IntWidth → Except Fault (List IntValue × Buffer)
  | [] => pure ([], b)
  | w :: ws => do
    let (v, b) ← b.readValue w
    let (vs, b) ← b.readValues ws
    pure (v :: vs, b)

/-! ## Members -/

theorem int8_byte (x : Int8) : [x.toUInt8] = intBytes 1 x.toInt := by
  have h := intBytes_toInt (k := 1) x.toBitVec
  have hbyte : UInt8.ofNat x.toBitVec.toNat = x.toUInt8 := UInt8.ofNat_toNat
  rw [← hbyte]
  exact h.symm

theorem appendValue_eq (b : Buffer) (v : IntValue) : b.appendValue v = b.append v.encode := by
  cases v with
  | int8 x => exact congrArg b.append (int8_byte x)
  | int16 x => exact congrArg b.append (leBytes_hostToNetwork (k := 2) x.toBitVec)
  | int32 x => exact congrArg b.append (leBytes_hostToNetwork (k := 4) x.toBitVec)
  | int64 x => exact congrArg b.append (leBytes_hostToNetwork (k := 8) x.toBitVec)

theorem prependValue_eq (b : Buffer) (v : IntValue) : b.prependValue v = b.prepend v.encode := by
  cases v with
  | int8 x => exact congrArg b.prepend (int8_byte x)
  | int16 x => exact congrArg b.prepend (leBytes_hostToNetwork (k := 2) x.toBitVec)
  | int32 x => exact congrArg b.prepend (leBytes_hostToNetwork (k := 4) x.toBitVec)
  | int64 x => exact congrArg b.prepend (leBytes_hostToNetwork (k := 8) x.toBitVec)

theorem peekInt_ok {b : Buffer} (hb : b.WF) {k : Nat} (h : k ≤ b.readableBytes) :
    ∃ x, b.peekInt k = .ok x ∧ intBytes k x.toInt = b.readable.take k := by
  have hslice : slice b.buffer b.readerIndex (b.readerIndex + k) = b.readable.take k := by
    have := hb.readableBytes_eq
    have := hb.reader_le
    rw [readable, take_slice (by omega)]
  have hlen : (b.readable.take k).length = k := by
    rw [List.length_take, hb.length_readable, Nat.min_eq_left h]
  have hbytes := intBytes_networkToHost (b.readable.take k)
  rw [hlen] at hbytes
  rw [peekInt, check_of h, ok_bind, hslice]
  exact ⟨_, rfl, hbytes⟩

theorem peekInt8_ok {b : Buffer} (hb : b.WF) (h : 1 ≤ b.readableBytes) :
    ∃ x, b.peekInt8 = .ok x ∧ intBytes 1 x.toInt = b.readable.take 1 := by
  have heq := hb.readableBytes_eq
  have hr := hb.reader_le
  have hw := hb.writer_le
  have hlt : b.readerIndex < b.buffer.length := by omega
  have htake : b.readable.take 1 = [b.buffer[b.readerIndex]] := by
    rw [readable, take_slice (by omega), slice, List.drop_take, Nat.add_sub_cancel_left, List.drop_eq_getElem_cons hlt]
    rfl
  rw [peekInt8, check_of h, ok_bind, get, List.getElem?_eq_getElem hlt]
  refine ⟨_, rfl, ?_⟩
  rw [← int8_byte, htake]
  rfl

/-- A peek answers the value whose bytes are the next ones. -/
theorem peekValue_ok {b : Buffer} (hb : b.WF) {w : IntWidth} (h : w.size ≤ b.readableBytes) :
    ∃ v, b.peekValue w = .ok v ∧ v.width = w ∧ v.encode = b.readable.take w.size := by
  cases w with
  | int8 =>
    obtain ⟨x, hx, hbytes⟩ := peekInt8_ok hb h
    refine ⟨.int8 x, ?_, rfl, hbytes⟩
    rw [peekValue, hx, ok_bind]
    rfl
  | int16 =>
    obtain ⟨x, hx, hbytes⟩ := peekInt_ok (k := 2) hb h
    refine ⟨.int16 (.ofBitVec x), ?_, rfl, hbytes⟩
    rw [peekValue, peekInt16, hx]
    rfl
  | int32 =>
    obtain ⟨x, hx, hbytes⟩ := peekInt_ok (k := 4) hb h
    refine ⟨.int32 (.ofBitVec x), ?_, rfl, hbytes⟩
    rw [peekValue, peekInt32, hx]
    rfl
  | int64 =>
    obtain ⟨x, hx, hbytes⟩ := peekInt_ok (k := 8) hb h
    refine ⟨.int64 (.ofBitVec x), ?_, rfl, hbytes⟩
    rw [peekValue, peekInt64, hx]
    rfl

/-- A read is a peek, and retrieves what it looked at. -/
theorem readValue_eq (b : Buffer) (w : IntWidth) :
    b.readValue w = b.peekValue w >>= fun v => b.retrieve w.size >>= fun c => pure (v, c) := by
  cases w with
  | int8 => simp only [readValue, peekValue, readInt8, readInt, retrieveInt8, IntWidth.size, bind_assoc, pure_bind]
  | int16 => simp only [readValue, peekValue, readInt16, readInt, retrieveInt16, IntWidth.size, bind_assoc, pure_bind]
  | int32 => simp only [readValue, peekValue, readInt32, readInt, retrieveInt32, IntWidth.size, bind_assoc, pure_bind]
  | int64 => simp only [readValue, peekValue, readInt64, readInt, retrieveInt64, IntWidth.size, bind_assoc, pure_bind]

theorem readValue_ok {b : Buffer} (hb : b.WF) {w : IntWidth} (h : w.size ≤ b.readableBytes) :
    ∃ v c, b.peekValue w = .ok v ∧ b.readValue w = .ok (v, c) ∧ c.WF ∧ c.readable = b.readable.drop w.size ∧
      v.width = w ∧ v.encode = b.readable.take w.size := by
  obtain ⟨v, hv, hwidth, hencode⟩ := peekValue_ok hb h
  obtain ⟨c, hc, hwf, hreadable, -⟩ := retrieve_spec hb h
  refine ⟨v, c, hv, ?_, hwf, hreadable, hwidth, hencode⟩
  rw [readValue_eq, hv, ok_bind, hc, ok_bind]
  rfl

theorem readValue_encode {b : Buffer} (hb : b.WF) {v : IntValue} {rest : Bytes} (h : b.readable = v.encode ++ rest) :
    ∃ c, b.readValue v.width = .ok (v, c) ∧ c.WF ∧ c.readable = rest := by
  have hlen := v.length_encode
  have hle : v.width.size ≤ b.readableBytes := by
    rw [← hb.length_readable, h, List.length_append]
    omega
  obtain ⟨u, c, -, hread, hwf, hreadable, hwidth, hencode⟩ := readValue_ok hb hle
  rw [h, ← hlen, List.take_left] at hencode
  rw [h, ← hlen, List.drop_left] at hreadable
  exact ⟨c, IntValue.encode_inj hwidth hencode ▸ hread, hwf, hreadable⟩

/-! ## Lists of values -/

theorem appendValues_inv {vs : List IntValue} {b c : Buffer} (hb : b.WF) (h : b.appendValues vs = .ok c) :
    c.WF ∧ c.readable = b.readable ++ vs.flatMap IntValue.encode := by
  refine run_appends (fun v _ b c hb h => ?_) hb h
  rw [appendValue_eq] at h
  exact append_inv hb h

theorem readValues_encode {vs : List IntValue} {b : Buffer} (hb : b.WF) (h : b.readable = vs.flatMap IntValue.encode) :
    ∃ c, b.readValues (vs.map IntValue.width) = .ok (vs, c) ∧ c.WF ∧ c.readable = [] := by
  induction vs generalizing b with
  | nil => exact ⟨b, rfl, hb, h⟩
  | cons v vs ih =>
    obtain ⟨d, hd, hwf, hreadable⟩ := readValue_encode hb h
    obtain ⟨c, hc, hrest⟩ := ih hwf hreadable
    refine ⟨c, ?_, hrest⟩
    rw [List.map_cons, readValues, hd, ok_bind]
    dsimp only
    rw [hc]
    rfl

/-- What was appended is read back, a peek is the read that follows, and what was prepended is read
first. -/
theorem integers_round_trip {b : Buffer} (hb : b.WF) :
    (∀ vs c, b.appendValues vs = .ok c → c.readable = b.readable ++ vs.flatMap IntValue.encode ∧
      ∃ d e, c.retrieve b.readableBytes = .ok d ∧ d.readValues (vs.map IntValue.width) = .ok (vs, e) ∧
        e.readableBytes = 0) ∧
    (∀ vs : List IntValue, max b.writerIndex kCheapPrepend + (vs.flatMap IntValue.encode).length ≤ maxSize →
      ∃ c, b.appendValues vs = .ok c) ∧
    (∀ w : IntWidth, w.size ≤ b.readableBytes → ∃ v c, b.peekValue w = .ok v ∧ b.readValue w = .ok (v, c)) ∧
    ∀ v : IntValue, v.width.size ≤ b.prependableBytes →
      ∃ c d, b.prependValue v = .ok c ∧ c.readValue v.width = .ok (v, d) ∧ d.readable = b.readable := by
  refine ⟨?_, ?_, ?_, ?_⟩
  · intro vs c h
    obtain ⟨hwf, hreadable⟩ := appendValues_inv hb h
    refine ⟨hreadable, ?_⟩
    have hold : b.readableBytes ≤ c.readableBytes := by
      rw [← hb.length_readable, ← hwf.length_readable, hreadable, List.length_append]
      omega
    obtain ⟨d, hd, hwf', hdrop, -⟩ := retrieve_spec hwf hold
    rw [hreadable, ← hb.length_readable, List.drop_left] at hdrop
    obtain ⟨e, he, hwf'', hempty⟩ := readValues_encode hwf' hdrop
    exact ⟨d, e, hd, he, hwf''.readableBytes_eq_zero.2 hempty⟩
  · intro vs h
    have hwithin : b.Within (max b.writerIndex kCheapPrepend - kCheapPrepend) := ⟨hb, by omega⟩
    exact hwithin.run_appends (fun v _ b => appendValue_eq b v) (by omega)
  · intro w h
    obtain ⟨v, c, hv, hc, -⟩ := readValue_ok hb h
    exact ⟨v, c, hv, hc⟩
  · intro v h
    have hroom : v.encode.length ≤ b.prependableBytes := v.length_encode ▸ h
    obtain ⟨c, hc, hwf, hreadable⟩ := prepend_spec hb hroom
    obtain ⟨d, hd, -, hrest⟩ := readValue_encode hwf hreadable
    refine ⟨c, d, ?_, hd, hrest⟩
    rw [prependValue_eq, hc]

/-- A mixed list, in a fresh buffer. -/
theorem integers_round_trip_fresh :
    let vs : List IntValue := [.int8 (-1), .int32 (-2), .int64 300, .int16 (-32768)]
    ∃ c d e, (fresh kInitialSize).appendValues vs = .ok c ∧ c.readable = vs.flatMap IntValue.encode ∧
      c.retrieve 0 = .ok d ∧ d.readValues (vs.map IntValue.width) = .ok (vs, e) ∧ e.readableBytes = 0 := by
  intro vs
  have hwf : (fresh kInitialSize).WF := fresh_wf (by decide)
  obtain ⟨hback, hroom, -, -⟩ := integers_round_trip hwf
  obtain ⟨c, hc⟩ := hroom vs (by decide)
  obtain ⟨hreadable, d, e, hd, he, hempty⟩ := hback vs c hc
  exact ⟨c, d, e, hc, hreadable, hd, he, hempty⟩

end Buffer

end Zhengqi
