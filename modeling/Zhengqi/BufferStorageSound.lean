import Zhengqi.BufferSound
import Zhengqi.BufferStorage

/-!
# What a buffer does to its storage

`readFd` appends what the kernel delivered, wherever it was put. `shrink` keeps the bytes that an `int`
can count. `ensureWritableBytes` gives the room it was asked for as long as no sum of a `size_t` wraps.
-/

namespace Zhengqi

open Slice Run

namespace Buffer

variable {b : Buffer}

/-! ## Room for any length -/

/-- A vector with less than `kCheapPrepend` bytes always grows. -/
theorem Cursors.makeSpace_small (hb : b.Cursors) {len : Nat} (hsmall : b.buffer.length < kCheapPrepend)
    (hw : b.writableBytes < len) (hs : b.writerIndex + len ≤ maxSize) :
    b.makeSpace len =
      .ok { b with buffer := b.buffer ++ List.replicate (b.writerIndex + len - b.buffer.length) 0 } := by
  have hwe := hb.writableBytes_eq
  have hr := hb.reader_le
  have hwl := hb.writer_le
  have hp : b.prependableBytes = b.readerIndex := rfl
  unfold kCheapPrepend at hsmall
  have hmax := hs
  unfold maxSize at hmax
  have hgrow : sizeT (b.writableBytes + b.prependableBytes) < sizeT (len + kCheapPrepend) := by
    unfold kCheapPrepend
    rw [sizeT_of_lt (by omega), sizeT_of_lt (by omega)]
    omega
  unfold makeSpace
  rw [if_pos hgrow, sizeT_of_lt (by omega), resize_grow hs (by omega)]
  rfl

theorem Cursors.ensureWritableBytes_spec (hb : b.Cursors) {len : Nat} (hs : b.writerIndex + len ≤ maxSize) :
    ∃ c, b.ensureWritableBytes len = .ok c ∧ c.Cursors ∧ c.readable = b.readable ∧
      c.writerIndex + len ≤ c.buffer.length := by
  have hmax := hs
  unfold maxSize at hmax
  have hwe := hb.writableBytes_eq
  have hwl := hb.writer_le
  by_cases h8 : kCheapPrepend ≤ b.buffer.length
  · obtain ⟨c, hc, hroom⟩ := Buffer.ensureWritableBytes_spec (hb.wf h8) (by unfold kCheapPrepend; omega) fun _ => hs
    exact ⟨c, hc, hroom.wf.cursors, hroom.readable, hroom.room⟩
  · unfold ensureWritableBytes
    by_cases hw : b.writableBytes < len
    · have hlen : (b.buffer ++ List.replicate (b.writerIndex + len - b.buffer.length) 0).length =
          b.writerIndex + len := by
        rw [List.length_append, List.length_replicate]
        omega
      have hgrown : Cursors { b with buffer := b.buffer ++ List.replicate (b.writerIndex + len - b.buffer.length) 0 } :=
        ⟨hb.reader_le, hlen.symm ▸ Nat.le_add_right .., hlen.symm ▸ hs⟩
      have hroom : len ≤ writableBytes
          { b with buffer := b.buffer ++ List.replicate (b.writerIndex + len - b.buffer.length) 0 } := by
        rw [hgrown.writableBytes_eq]
        show len ≤ (b.buffer ++ List.replicate (b.writerIndex + len - b.buffer.length) 0).length - b.writerIndex
        omega
      rw [if_pos hw, hb.makeSpace_small (Nat.lt_of_not_le h8) hw hs, ok_bind, check_of hroom]
      exact ⟨_, rfl, hgrown, slice_append_of_le hb.writer_le, Nat.le_of_eq hlen.symm⟩
    · rw [if_neg hw, pure_eq_ok, ok_bind, check_of (Nat.le_of_not_lt hw)]
      exact ⟨b, rfl, hb, rfl, by omega⟩

theorem Cursors.append_spec (hb : b.Cursors) {data : Bytes} (hs : b.writerIndex + data.length ≤ maxSize) :
    ∃ c, b.append data = .ok c ∧ c.Cursors ∧ c.readable = b.readable ++ data := by
  obtain ⟨d, hd, hcur, hread, hroom⟩ := hb.ensureWritableBytes_spec hs
  obtain ⟨c, hc, hcur', hread', -⟩ := hcur.fill_hasWritten hroom
  refine ⟨c, ?_, hcur', by rw [hread', hread]⟩
  rw [append, hd, ok_bind]
  exact hc

/-- An append of what `extraBuf` can hold fails only where the vector cannot grow. -/
theorem Cursors.append_cases (hb : b.Cursors) {data : Bytes} (hw : b.writableBytes < data.length)
    (hdata : data.length ≤ kExtraBuf) :
    (∃ c, b.append data = .ok c ∧ c.Cursors ∧ c.readable = b.readable ++ data) ∨
      (maxSize < b.writerIndex + data.length ∧ b.append data = .error .lengthError) := by
  by_cases hs : b.writerIndex + data.length ≤ maxSize
  · exact .inl (hb.append_spec hs)
  · have hlt := Nat.lt_of_not_le hs
    have hsize := hb.size_le
    have hwl := hb.writer_le
    have hrl := hb.reader_le
    have hwe := hb.writableBytes_eq
    have hp : b.prependableBytes = b.readerIndex := rfl
    unfold maxSize at hlt hsize
    unfold kExtraBuf at hdata
    have hsum : sizeT (b.writableBytes + b.prependableBytes) = b.writableBytes + b.prependableBytes :=
      sizeT_of_lt (by omega)
    have hlen : data.length + kCheapPrepend < 2 ^ 64 := by
      unfold kCheapPrepend
      omega
    by_cases hgrow : b.writableBytes + b.prependableBytes < data.length + kCheapPrepend
    · refine .inr ⟨Nat.lt_of_not_le hs, ?_⟩
      unfold append ensureWritableBytes makeSpace resize
      rw [if_pos hw, hsum, sizeT_of_lt hlen, if_pos hgrow, sizeT_of_lt (by omega), if_neg hs]
      rfl
    · have h8 : kCheapPrepend ≤ b.buffer.length := by
        unfold kCheapPrepend
        omega
      obtain ⟨c, hc, hwf, hread, -⟩ := Buffer.append_spec (hb.wf h8) hlen fun h => absurd h hgrow
      exact .inl ⟨c, hc, hwf.cursors, hread⟩

/-! ## Reading from a descriptor -/

def Iovec.InBounds (v : Iovec) (b : Buffer) : Prop :=
  match v.base with
  | .buffer => v.start + v.len ≤ b.buffer.length
  | .extraBuf => v.start + v.len ≤ kExtraBuf

theorem iovecs_small (h : b.writableBytes < kExtraBuf) :
    b.iovecs = [⟨.buffer, b.writerIndex, b.writableBytes⟩, ⟨.extraBuf, 0, kExtraBuf⟩] := by
  simp only [iovecs, if_pos h]
  rfl

theorem iovecs_large (h : ¬ b.writableBytes < kExtraBuf) : b.iovecs = [⟨.buffer, b.writerIndex, b.writableBytes⟩] := by
  simp only [iovecs, if_neg h]
  rfl

theorem offered_eq (b : Buffer) :
    b.offered = if b.writableBytes < kExtraBuf then b.writableBytes + kExtraBuf else b.writableBytes := by
  by_cases h : b.writableBytes < kExtraBuf
  · rw [offered, iovecs_small h, if_pos h, List.foldr_cons, List.foldr_cons, List.foldr_nil, Nat.add_zero]
  · rw [offered, iovecs_large h, if_neg h, List.foldr_cons, List.foldr_nil, Nat.add_zero]

theorem Cursors.iovecs_inBounds (hb : b.Cursors) : ∀ v ∈ b.iovecs, v.InBounds b := by
  have hwe := hb.writableBytes_eq
  have hwl := hb.writer_le
  have hfirst : Iovec.InBounds ⟨.buffer, b.writerIndex, b.writableBytes⟩ b := by
    show b.writerIndex + b.writableBytes ≤ b.buffer.length
    omega
  have hsecond : Iovec.InBounds ⟨.extraBuf, 0, kExtraBuf⟩ b := Nat.le_of_eq (Nat.zero_add _)
  intro v hv
  have hmem : v ∈ [(⟨.buffer, b.writerIndex, b.writableBytes⟩ : Iovec), ⟨.extraBuf, 0, kExtraBuf⟩] :=
    List.mem_of_mem_take hv
  simp only [List.mem_cons, List.not_mem_nil, or_false] at hmem
  rcases hmem with rfl | rfl
  · exact hfirst
  · exact hsecond

namespace Memory

variable {m : Memory} {start : Nat} {data : Bytes}

theorem store_buffer (h : start + data.length ≤ m.buffer.length) :
    m.store .buffer start data = .ok { m with buffer := overwrite m.buffer start data } := by
  rw [store, check_of (show start + data.length ≤ (m.area .buffer).length from h)]
  rfl

theorem store_extraBuf (h : start + data.length ≤ m.extraBuf.length) :
    m.store .extraBuf start data = .ok { m with extraBuf := overwrite m.extraBuf start data } := by
  rw [store, check_of (show start + data.length ≤ (m.area .extraBuf).length from h)]
  rfl

end Memory

theorem Cursors.take_writable (hb : b.Cursors) (data : Bytes) :
    b.writerIndex + (data.take b.writableBytes).length ≤ b.buffer.length := by
  have hwe := hb.writableBytes_eq
  have hwl := hb.writer_le
  rw [List.length_take]
  omega

/-- The writable bytes take what they can, and `extraBuf` the rest. -/
theorem Cursors.deliver_eq (hb : b.Cursors) {extraBuf data : Bytes} (hextra : extraBuf.length = kExtraBuf)
    (hdata : data.length ≤ b.offered) :
    ∃ m, Memory.deliver ⟨b.buffer, extraBuf⟩ data b.iovecs = .ok m ∧
      m.buffer = overwrite b.buffer b.writerIndex (data.take b.writableBytes) ∧ m.extraBuf.length = kExtraBuf ∧
      m.extraBuf.take (data.length - b.writableBytes) = data.drop b.writableBytes := by
  have hfirst := hb.take_writable data
  rw [offered_eq] at hdata
  by_cases h : b.writableBytes < kExtraBuf
  · rw [if_pos h] at hdata
    have hrest : ((data.drop b.writableBytes).take kExtraBuf) = data.drop b.writableBytes := by
      apply List.take_of_length_le
      rw [List.length_drop]
      omega
    have hsecond : 0 + (data.drop b.writableBytes).length ≤ extraBuf.length := by
      rw [List.length_drop]
      omega
    rw [iovecs_small h, Memory.deliver, Memory.store_buffer hfirst, ok_bind, Memory.deliver, hrest,
      Memory.store_extraBuf hsecond]
    refine ⟨_, rfl, rfl, ?_, ?_⟩
    · rw [← hextra]
      exact length_overwrite hsecond
    · show (overwrite extraBuf 0 (data.drop b.writableBytes)).take _ = _
      rw [overwrite, List.take_zero, List.nil_append, ← List.length_drop]
      exact List.take_left
  · rw [if_neg h] at hdata
    rw [iovecs_large h, Memory.deliver, Memory.store_buffer hfirst]
    refine ⟨_, rfl, rfl, hextra, ?_⟩
    rw [Nat.sub_eq_zero_of_le hdata, List.take_zero, List.drop_of_length_le hdata]

/-- What went to `extraBuf` is in it. -/
theorem spill_le {extraBuf data : Bytes} {w : Nat} (hrest : extraBuf.take (data.length - w) = data.drop w) :
    data.length - w ≤ extraBuf.length := by
  have hspill := congrArg List.length hrest
  rw [List.length_take, List.length_drop] at hspill
  omega

theorem Cursors.readFdVec_fits (hb : b.Cursors) {extraBuf data : Bytes} (hextra : extraBuf.length = kExtraBuf)
    (saved : Option Errno) (hdata : data.length ≤ b.offered) (hn : data.length ≤ b.writableBytes) :
    ∃ c, b.readFdVec extraBuf saved (.data data) = .ok (data.length, c, saved) ∧ c.Cursors ∧
      c.readable = b.readable ++ data := by
  have hsize := hb.size_le
  obtain ⟨m, hm, hbuffer, -, -⟩ := hb.deliver_eq hextra hdata
  have hfirst := hb.take_writable data
  rw [List.take_of_length_le hn] at hfirst hbuffer
  obtain ⟨hcur, hread⟩ := hb.written hfirst
  have hsum : sizeT (b.writerIndex + data.length) = b.writerIndex + data.length := by
    unfold maxSize at hsize
    exact sizeT_of_lt (by omega)
  unfold readFdVec
  dsimp only
  rw [List.take_of_length_le hdata, hm, ok_bind, if_pos hn, hsum, hbuffer]
  exact ⟨_, rfl, hcur, hread⟩

theorem Cursors.readFdVec_spills (hb : b.Cursors) {extraBuf data : Bytes} (hextra : extraBuf.length = kExtraBuf)
    (saved : Option Errno) (hdata : data.length ≤ b.offered) (hn : ¬ data.length ≤ b.writableBytes) :
    (∃ c, b.readFdVec extraBuf saved (.data data) = .ok (data.length, c, saved) ∧ c.Cursors ∧
      c.readable = b.readable ++ data) ∨
    (maxSize < b.buffer.length + (data.length - b.writableBytes) ∧ b.readFdVec extraBuf saved (.data data) =
      .error .lengthError) := by
  have hwe := hb.writableBytes_eq
  have hwl := hb.writer_le
  obtain ⟨m, hm, hbuffer, hlen, hrest⟩ := hb.deliver_eq hextra hdata
  have hfirst := hb.take_writable data
  have hle := spill_le hrest
  have hover : m.buffer.length = b.buffer.length := by
    rw [hbuffer, length_overwrite hfirst]
  have hfull : b.writerIndex + (data.take b.writableBytes).length = m.buffer.length := by
    rw [hover, List.length_take]
    omega
  obtain ⟨hcur, hread⟩ := hb.written hfirst
  rw [hfull, ← hbuffer] at hcur hread
  -- the rest is appended to a vector that is full
  have hzero : writableBytes { b with buffer := m.buffer, writerIndex := m.buffer.length } <
      (data.drop b.writableBytes).length := by
    rw [hcur.writableBytes_eq, List.length_drop]
    show m.buffer.length - m.buffer.length < _
    omega
  have hroom : (data.drop b.writableBytes).length ≤ kExtraBuf := by
    rw [List.length_drop, ← hlen]
    exact hle
  unfold readFdVec
  dsimp only
  rw [List.take_of_length_le hdata, hm, ok_bind, if_neg hn, check_of hle, ok_bind, hrest]
  rcases hcur.append_cases hzero hroom with ⟨c, hc, hcur', hread'⟩ | ⟨hmax, he⟩
  · rw [hc, ok_bind]
    refine .inl ⟨c, rfl, hcur', ?_⟩
    rw [hread', hread, List.append_assoc, List.take_append_drop]
  · refine .inr ⟨?_, ?_⟩
    · rw [List.length_drop] at hmax
      rw [← hover]
      exact hmax
    · rw [he]
      rfl

theorem Cursors.readFdVec_data (hb : b.Cursors) {extraBuf data : Bytes} (hextra : extraBuf.length = kExtraBuf)
    (saved : Option Errno) (hdata : data.length ≤ b.offered) :
    (∃ c, b.readFdVec extraBuf saved (.data data) = .ok (data.length, c, saved) ∧ c.Cursors ∧
      c.readable = b.readable ++ data) ∨
    (b.writableBytes < data.length ∧ maxSize < b.buffer.length + (data.length - b.writableBytes) ∧
      b.readFdVec extraBuf saved (.data data) = .error .lengthError) := by
  by_cases hn : data.length ≤ b.writableBytes
  · exact .inl (hb.readFdVec_fits hextra saved hdata hn)
  · rcases hb.readFdVec_spills hextra saved hdata hn with h | ⟨hmax, he⟩
    · exact .inl h
    · exact .inr ⟨Nat.lt_of_not_le hn, hmax, he⟩

/-- `Buffer.readFd` is this function without `*savedErrno`. -/
theorem Cursors.readFdVec_readFd (hb : b.Cursors) {extraBuf : Bytes} (hextra : extraBuf.length = kExtraBuf)
    (saved : Option Errno)
    (r : ReadResult) : (b.readFdVec extraBuf saved r).map (fun p => (p.1, p.2.1)) = b.readFd r := by
  cases r with
  | error e => rfl
  | data arrived =>
    have hdata : (arrived.take b.offered).length ≤ b.offered := List.length_take_le ..
    obtain ⟨m, hm, hbuffer, hlen, hrest⟩ := hb.deliver_eq hextra hdata
    have hfirst := hb.take_writable (arrived.take b.offered)
    have hle := spill_le hrest
    have hfill : b.fill ((arrived.take b.offered).take b.writableBytes) = .ok { b with buffer := m.buffer } := by
      rw [fill, check_of hfirst, hbuffer]
      rfl
    unfold readFdVec readFd
    dsimp only
    rw [← offered_eq, hm, ok_bind, hfill, ok_bind]
    by_cases hn : (arrived.take b.offered).length ≤ b.writableBytes
    · rw [if_pos hn, if_pos hn]
      rfl
    · rw [if_neg hn, if_neg hn, check_of hle, ok_bind, hrest]
      dsimp only
      generalize append _ _ = r
      cases r <;> rfl

/-- Whatever the kernel answers: it was offered enough memory and none but its own, an error changes
nothing, and what is delivered is appended. Only a vector of the largest size cannot take it. -/
theorem readFd_appends_delivered (hb : b.Cursors) {extraBuf : Bytes} (hextra : extraBuf.length = kExtraBuf)
    (saved : Option Errno) :
    (∀ v ∈ b.iovecs, v.InBounds b) ∧ max b.writableBytes kExtraBuf ≤ b.offered ∧
    (∀ e, b.readFdVec extraBuf saved (.error e) = .ok (-1, b, some e)) ∧
    ∀ data : Bytes, data.length ≤ b.offered →
      (∃ c, b.readFdVec extraBuf saved (.data data) = .ok (data.length, c, saved) ∧ c.Cursors ∧
        c.readable = b.readable ++ data) ∨
      (b.writableBytes < data.length ∧ maxSize < b.buffer.length + (data.length - b.writableBytes) ∧
        b.readFdVec extraBuf saved (.data data) = .error .lengthError) := by
  refine ⟨hb.iovecs_inBounds, ?_, fun _ => rfl, fun data hdata => hb.readFdVec_data hextra saved hdata⟩
  rw [offered_eq]
  split <;> omega

/-- Twelve bytes of which four fit. -/
theorem readFd_appends_delivered_spill : ∃ c : Buffer,
    readFdVec ⟨List.replicate 20 7, 9, 16⟩ (List.replicate kExtraBuf 0) none (.data (List.replicate 12 1)) =
      .ok (12, c, none) ∧
      c.readable = List.replicate 7 7 ++ List.replicate 12 1 := by
  have hb : Cursors ⟨List.replicate 20 7, 9, 16⟩ := ⟨by decide, by decide, by decide⟩
  obtain ⟨-, hoffered, -, hdata⟩ :=
    @readFd_appends_delivered _ hb (List.replicate kExtraBuf 0) List.length_replicate none
  rcases hdata (List.replicate 12 1) (Nat.le_trans (by decide) hoffered) with ⟨c, hc, -, hread⟩ | ⟨-, hmax, -⟩
  · exact ⟨c, hc, hread⟩
  · exact absurd hmax (by decide)

/-! ## Room for any `size_t` -/

/-- The call throws out of `resize`, or gives the room and keeps the bytes. -/
def Delivers (b : Buffer) (len : Nat) : Prop :=
  b.ensureWritableBytes len = .error .lengthError ∨
    ∃ c, b.ensureWritableBytes len = .ok c ∧ len ≤ c.writableBytes ∧ c.readable = b.readable

theorem Room.delivers {len : Nat} {c : Buffer} (h : b.ensureWritableBytes len = .ok c) (hroom : Room b len c) :
    Delivers b len :=
  .inr ⟨c, h, hroom.writable, hroom.readable⟩

theorem WF.delivers_of_lt (hb : b.WF) {len : Nat} (hlen : len + kCheapPrepend < 2 ^ 64)
    (hsum : b.writerIndex + len < 2 ^ 64) :
    Delivers b len := by
  by_cases hs : b.writableBytes + b.prependableBytes < len + kCheapPrepend → b.writerIndex + len ≤ maxSize
  · obtain ⟨c, hc, hroom⟩ := ensureWritableBytes_spec hb hlen hs
    exact hroom.delivers hc
  · obtain ⟨hgrow, hmax⟩ := Classical.not_imp.1 hs
    have hsize := hb.size_le
    have hwe := hb.writableBytes_eq
    have hwl := hb.writer_le
    have hrl := hb.reader_le
    have hp : b.prependableBytes = b.readerIndex := rfl
    have hbound := hsize
    unfold maxSize at hbound
    have hw : b.writableBytes < len := by omega
    refine .inl ?_
    unfold ensureWritableBytes makeSpace resize
    rw [if_pos hw, sizeT_of_lt (by omega), sizeT_of_lt hlen, if_pos hgrow, sizeT_of_lt hsum, if_neg hmax]
    rfl

/-- Where the new size wraps, the vector is cut off below its cursors, and looks as if it had the room. -/
theorem WF.ensureWritableBytes_wrap (hb : b.WF) {len : Nat} (hlen : len < 2 ^ 64)
    (hgrow : sizeT (b.writableBytes + b.prependableBytes) < sizeT (len + kCheapPrepend))
    (hsum : 2 ^ 64 ≤ b.writerIndex + len) :
    ∃ c, b.ensureWritableBytes len = .ok c ∧ len ≤ c.writableBytes ∧
      c.readable.length = b.writerIndex + len - 2 ^ 64 - b.readerIndex := by
  have hwe := hb.writableBytes_eq
  have hwl := hb.writer_le
  have hbound := hb.size_le
  unfold maxSize at hbound
  obtain ⟨n, hn⟩ : ∃ n, n = sizeT (b.writerIndex + len) := ⟨_, rfl⟩
  have hcut : n + 2 ^ 64 = b.writerIndex + len := by
    rw [hn, sizeT]
    omega
  have hw : b.writableBytes < len := by omega
  have hv : resize b.buffer n = .ok (b.buffer.take n) := by
    rw [resize_ok (by unfold maxSize; omega), Nat.sub_eq_zero_of_le (by omega), List.replicate_zero, List.append_nil]
  have htake : (b.buffer.take n).length = n := by
    rw [List.length_take]
    omega
  have hroom : len ≤ writableBytes { b with buffer := b.buffer.take n } := by
    show len ≤ subT (b.buffer.take n).length b.writerIndex
    rw [htake, subT, if_neg (by omega)]
    omega
  refine ⟨{ b with buffer := b.buffer.take n }, ?_, hroom, ?_⟩
  · unfold ensureWritableBytes makeSpace
    rw [if_pos hw, if_pos hgrow, ← hn, hv, ok_bind, pure_eq_ok, ok_bind, check_of hroom]
    rfl
  · show (((b.buffer.take n).take b.writerIndex).drop b.readerIndex).length = _
    rw [List.length_drop, List.length_take, htake]
    omega

theorem WF.delivers_of_wrap (hb : b.WF) {len : Nat} (hlen : len < 2 ^ 64)
    (hgrow : sizeT (b.writableBytes + b.prependableBytes) < sizeT (len + kCheapPrepend))
    (hsum : 2 ^ 64 ≤ b.writerIndex + len) :
    Delivers b len ↔ b.readableBytes = 0 := by
  have hre := hb.readableBytes_eq
  have hrl := hb.reader_le
  obtain ⟨c, hc, hroom, hlength⟩ := hb.ensureWritableBytes_wrap hlen hgrow hsum
  rw [Delivers, hc]
  constructor
  · rintro (h | ⟨c', hc', -, hread⟩)
    · cases h
    · rw [Except.ok.injEq] at hc'
      rw [hc', hread, hb.length_readable] at hlength
      omega
  · intro hempty
    refine .inr ⟨c, rfl, hroom, ?_⟩
    rw [hb.readableBytes_eq_zero.1 hempty, ← List.length_eq_zero_iff, hlength]
    omega

theorem WF.makeSpace_compact (hb : b.WF) {len : Nat}
    (hgrow : ¬ sizeT (b.writableBytes + b.prependableBytes) < sizeT (len + kCheapPrepend)) :
    b.makeSpace len ≠ .error .lengthError ∧ ∀ c, b.makeSpace len = .ok c → c.writableBytes ≤ maxSize := by
  unfold makeSpace
  rw [if_neg hgrow]
  constructor
  · intro h
    rcases bind_error.mp h with h | ⟨-, -, h⟩
    · cases (check_error.mp h).2
    · rcases bind_error.mp h with h | ⟨-, -, h⟩
      · cases (check_error.mp h).2
      · cases h
  · intro c hc
    obtain ⟨_, hcheap, hc⟩ := bind_ok.mp hc
    obtain ⟨-, -, hc⟩ := bind_ok.mp hc
    cases hc
    have hfit : kCheapPrepend + b.readableBytes + 0 ≤ b.buffer.length := by
      have hreader := check_ok.mp hcheap
      have hre := hb.readableBytes_eq
      have hwl := hb.writer_le
      have hrl := hb.reader_le
      omega
    have hwf := (compact_room hb (check_ok.mp hcheap) hfit).wf
    rw [hwf.writableBytes_eq]
    exact Nat.le_trans (Nat.sub_le ..) hwf.size_le

/-- Where `len + kCheapPrepend` wraps, an assertion fails. -/
theorem WF.not_delivers_of_compact (hb : b.WF) {len : Nat} (hlen : 2 ^ 64 ≤ len + kCheapPrepend)
    (hgrow : ¬ sizeT (b.writableBytes + b.prependableBytes) < sizeT (len + kCheapPrepend)) : ¬ Delivers b len := by
  have hsize := hb.size_le
  have hwe := hb.writableBytes_eq
  have hmax : maxSize < len := by
    unfold maxSize
    unfold kCheapPrepend at hlen
    omega
  obtain ⟨hfault, hsmall⟩ := hb.makeSpace_compact hgrow
  unfold Delivers ensureWritableBytes
  rw [if_pos (show b.writableBytes < len by omega)]
  rintro (h | ⟨c, hc, -, -⟩)
  · rcases bind_error.mp h with h | ⟨d, -, h⟩
    · exact hfault h
    · rcases bind_error.mp h with h | ⟨-, -, h⟩
      · cases (check_error.mp h).2
      · cases h
  · obtain ⟨d, hd, hc⟩ := bind_ok.mp hc
    obtain ⟨_, hroom, -⟩ := bind_ok.mp hc
    have hle := hsmall d hd
    have hge := check_ok.mp hroom
    omega

/-- The room is there exactly if neither `len + kCheapPrepend` nor `writerIndex_ + len` wraps, or nothing
can get lost. -/
theorem ensureWritableBytes_delivers_iff (hb : b.WF) {len : Nat} (hlen : len < 2 ^ 64) :
    Delivers b len ↔ len + kCheapPrepend < 2 ^ 64 ∧ (b.writerIndex + len < 2 ^ 64 ∨ b.readableBytes = 0) := by
  have hsize := hb.size_le
  have hwe := hb.writableBytes_eq
  have hre := hb.readableBytes_eq
  have hwl := hb.writer_le
  have hrl := hb.reader_le
  have h8 := hb.cheap_le
  have hp : b.prependableBytes = b.readerIndex := rfl
  unfold maxSize at hsize
  have hfree : sizeT (b.writableBytes + b.prependableBytes) = b.writableBytes + b.prependableBytes :=
    sizeT_of_lt (by omega)
  by_cases hcheap : len + kCheapPrepend < 2 ^ 64
  · by_cases hsum : b.writerIndex + len < 2 ^ 64
    · exact iff_of_true (hb.delivers_of_lt hcheap hsum) ⟨hcheap, .inl hsum⟩
    · have hgrow : sizeT (b.writableBytes + b.prependableBytes) < sizeT (len + kCheapPrepend) := by
        rw [hfree, sizeT_of_lt hcheap]
        omega
      rw [hb.delivers_of_wrap hlen hgrow (Nat.le_of_not_lt hsum)]
      simp only [hcheap, hsum, false_or, true_and]
  · refine iff_of_false ?_ fun h => hcheap h.1
    by_cases hgrow : sizeT (b.writableBytes + b.prependableBytes) < sizeT (len + kCheapPrepend)
    · have hwrap : sizeT (len + kCheapPrepend) + 2 ^ 64 = len + kCheapPrepend := by
        unfold sizeT
        unfold kCheapPrepend at hcheap ⊢
        omega
      rw [hb.delivers_of_wrap hlen hgrow (by unfold kCheapPrepend at *; omega)]
      unfold kCheapPrepend at *
      omega
    · exact hb.not_delivers_of_compact (Nat.le_of_not_lt hcheap) hgrow

/-- A fresh buffer, asked for more than there is memory. -/
theorem ensureWritableBytes_delivers_iff_fresh : Delivers (fresh kInitialSize) (2 ^ 64 - 9) := by
  have hwf : (fresh kInitialSize).WF := fresh_wf (by decide)
  rw [ensureWritableBytes_delivers_iff hwf (by decide)]
  exact ⟨by decide, .inl (by decide)⟩

/-- The length -1 fails the assertion of `makeSpace`. The length -9 leaves a vector that ends before the
readable bytes do. -/
theorem negative_length_breaks :
    ensureWritableBytes (fresh 0) (2 ^ 64 - 1) = .error .makeSpace ∧
      (ensureWritableBytes ⟨List.replicate 18 1, 8, 18⟩ (2 ^ 64 - 9)).map (fun c => (c.buffer.length, c.readable)) =
        .ok (9, [1]) := by
  decide +kernel

/-! ## Shrinking -/

theorem ensureWritableBytes_of_le {len : Nat} (h : len ≤ b.writableBytes) : b.ensureWritableBytes len = .ok b := by
  rw [ensureWritableBytes, if_neg (Nat.not_lt.2 h), pure_eq_ok, ok_bind, check_of h]
  rfl

/-- The temporary buffer of `shrink`. -/
theorem fresh_room {len : Nat} (h : kCheapPrepend + len ≤ maxSize) :
    ∃ c, (fresh kInitialSize).ensureWritableBytes len = .ok c ∧ Room (fresh kInitialSize) len c ∧
      c.readerIndex = kCheapPrepend ∧ c.writerIndex = kCheapPrepend := by
  have hlen : len + kCheapPrepend < 2 ^ 64 := by
    unfold maxSize at h
    omega
  have hwf : (fresh kInitialSize).WF := fresh_wf (by decide)
  obtain ⟨c, hc, hroom⟩ := ensureWritableBytes_spec hwf hlen fun _ => h
  have hwriter : c.writerIndex ≤ kCheapPrepend := hroom.writer
  have hreader : kCheapPrepend ≤ c.readerIndex := hroom.cheap (Nat.le_refl _)
  have hle := hroom.wf.reader_le
  exact ⟨c, hc, hroom, by omega, by omega⟩

theorem fresh_no_room {len : Nat} {c : Buffer} (hlen : len < 2 ^ 64)
    (h : (fresh kInitialSize).ensureWritableBytes len = .ok c) :
    kCheapPrepend + len ≤ maxSize := by
  have hwe : (fresh kInitialSize).writableBytes = 1024 := by
    have hwf : (fresh kInitialSize).WF := fresh_wf (by decide)
    rw [hwf.writableBytes_eq]
    exact Nat.sub_eq_of_eq_add List.length_replicate
  have hfree : sizeT (1024 + (fresh kInitialSize).prependableBytes) = 1032 := rfl
  by_contra hmax
  have hw : (fresh kInitialSize).writableBytes < len := by
    unfold kCheapPrepend maxSize at hmax
    omega
  unfold ensureWritableBytes makeSpace resize at h
  rw [if_pos hw, hwe, hfree] at h
  split at h
  · rename_i hgrow
    have hsum : sizeT (kCheapPrepend + len) = kCheapPrepend + len := by
      unfold sizeT kCheapPrepend at *
      omega
    rw [show (fresh kInitialSize).writerIndex = kCheapPrepend from rfl, hsum, if_neg hmax] at h
    cases h
  · rw [check_not (show ¬ kCheapPrepend < (fresh kInitialSize).readerIndex from Nat.lt_irrefl _)] at h
    cases h

/-- An `int` counts the bytes of a piece exactly if it can. -/
theorem pieceSize_toNat {str : Bytes} (h : str.length < 2 ^ 63) :
    (pieceSize str % 2 ^ 64).toNat = str.length ↔ str.length < 2 ^ 31 := by
  unfold pieceSize
  rw [Int.bmod_def]
  omega

theorem appendPiece_inv {c : Buffer} (hb : b.WF) {str : Bytes} (h : b.appendPiece str = .ok c) :
    c.readable = b.readable ++ str.take (pieceSize str % 2 ^ 64).toNat ∧
      (pieceSize str % 2 ^ 64).toNat ≤ str.length := by
  unfold appendPiece at h
  dsimp only at h
  split at h
  · rename_i hle
    exact ⟨(append_inv hb h).2, hle⟩
  · obtain ⟨-, -, h⟩ := bind_ok.mp h
    cases h

theorem shrink_eq (b : Buffer) (reserve : Nat) :
    b.shrink reserve = (fresh kInitialSize).ensureWritableBytes (sizeT (b.readableBytes + reserve)) >>=
      (·.appendPiece b.readable) := by
  rw [shrink, ctor_spec (by decide), ok_bind]

/-- `shrink` keeps its promise exactly if an `int` counts the readable bytes and the reserve fits. -/
theorem shrink_keeps_iff (hb : b.Cursors) {reserve : Nat} (hsum : b.readableBytes + reserve < 2 ^ 64) :
    (∃ c, b.shrink reserve = .ok c ∧ c.readable = b.readable ∧ c.prependableBytes = kCheapPrepend ∧
      reserve ≤ c.writableBytes) ↔
      b.readableBytes < 2 ^ 31 ∧ kCheapPrepend + (b.readableBytes + reserve) ≤ maxSize := by
  have hlength := hb.length_readable
  rw [shrink_eq, sizeT_of_lt hsum]
  constructor
  · rintro ⟨c, hc, hread, -, -⟩
    obtain ⟨d, hd, hc⟩ := bind_ok.mp hc
    have hmax := fresh_no_room hsum hd
    obtain ⟨e, he, hroom, -⟩ := fresh_room hmax
    rw [he, Except.ok.injEq] at hd
    subst hd
    obtain ⟨hpiece, hle⟩ := appendPiece_inv hroom.wf hc
    rw [hread, hroom.readable, fresh_readable, List.nil_append] at hpiece
    have hcount := congrArg List.length hpiece
    rw [List.length_take, Nat.min_eq_left hle] at hcount
    refine ⟨?_, hmax⟩
    rw [← hlength]
    exact (pieceSize_toNat (by unfold maxSize at hmax; omega)).1 hcount.symm
  · rintro ⟨hint, hmax⟩
    obtain ⟨d, hd, hroom, hreader, hwriter⟩ := fresh_room hmax
    have hfit := hroom.room
    have hle : b.readable.length ≤ d.writableBytes := by
      rw [hroom.wf.writableBytes_eq]
      omega
    obtain ⟨c, hc, hcur, hread, hri, hwi, hlen⟩ := hroom.wf.cursors.fill_hasWritten
      (show d.writerIndex + b.readable.length ≤ d.buffer.length by omega)
    refine ⟨c, ?_, ?_, hri.trans hreader, ?_⟩
    · rw [hd, ok_bind, appendPiece_eq (hlength ▸ hint), append, ensureWritableBytes_of_le hle, ok_bind]
      exact hc
    · rw [hread, hroom.readable, fresh_readable, List.nil_append]
    · rw [hcur.writableBytes_eq]
      omega

theorem shrink_keeps_iff_hello :
    ∃ c, shrink ⟨List.replicate 40 0 ++ [104, 105], 40, 42⟩ 100 = .ok c ∧ c.readable = [104, 105] ∧
    c.prependableBytes = kCheapPrepend ∧ 100 ≤ c.writableBytes := by
  have hb : Cursors ⟨List.replicate 40 0 ++ [104, 105], 40, 42⟩ := ⟨by decide, by decide, by decide⟩
  exact (shrink_keeps_iff hb (by decide)).2 ⟨by decide, by decide⟩

/-- Of 4 GiB nothing is left. -/
theorem shrink_loses_large : ∃ b c : Buffer, b.WF ∧ b.readableBytes = 2 ^ 32 ∧ b.shrink 0 = .ok c ∧
    c.readable = [] := by
  obtain ⟨v, hv⟩ : ∃ v : Bytes, v.length = kCheapPrepend + 2 ^ 32 := ⟨List.replicate _ 0, List.length_replicate⟩
  have hmax : kCheapPrepend + 2 ^ 32 ≤ maxSize := by decide
  have hb : WF ⟨v, kCheapPrepend, kCheapPrepend + 2 ^ 32⟩ := by
    refine ⟨Nat.le_add_right .., Nat.le_of_eq hv.symm, ?_, ?_⟩
    · show kCheapPrepend ≤ v.length
      rw [hv]
      exact Nat.le_add_right ..
    · show v.length ≤ maxSize
      rw [hv]
      exact hmax
  have hcount : readableBytes ⟨v, kCheapPrepend, kCheapPrepend + 2 ^ 32⟩ = 2 ^ 32 := by
    rw [hb.readableBytes_eq]
    exact Nat.add_sub_cancel_left ..
  obtain ⟨d, hd, hroom, -⟩ := fresh_room hmax
  obtain ⟨c, hc, -, hread⟩ := hroom.wf.cursors.append_spec
    (show d.writerIndex + ([] : Bytes).length ≤ maxSize from Nat.le_trans hroom.wf.writer_le hroom.wf.size_le)
  refine ⟨_, c, hb, hcount, ?_, ?_⟩
  · rw [shrink_eq, hcount, Nat.add_zero, sizeT_of_lt (by decide), hd, ok_bind,
      appendPiece_wraps (by rw [hb.length_readable, hcount])]
    rw [appendPiece_eq (by decide)]
    exact hc
  · rw [hread, hroom.readable, fresh_readable]
    rfl

end Buffer

end Zhengqi
