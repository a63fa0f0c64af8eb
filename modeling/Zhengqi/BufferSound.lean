import Zhengqi.Buffer

/-!
# Buffer refines a byte queue

The abstract value of a buffer is `readable`, the bytes between its cursors.
Each operation has one lemma: on a well-formed buffer whose own assertion holds
it succeeds, stays well formed and acts on `readable` as a list operation.
-/

namespace Zhengqi

open Slice Run

theorem subT_of_le {a b : Nat} (h : b ≤ a) : subT a b = a - b := if_pos h

theorem sizeT_of_lt {n : Nat} (h : n < 2 ^ 64) : sizeT n = n := Nat.mod_eq_of_lt h

namespace Buffer

structure WF (b : Buffer) : Prop where
  reader_le : b.readerIndex ≤ b.writerIndex
  writer_le : b.writerIndex ≤ b.buffer.length
  cheap_le : kCheapPrepend ≤ b.buffer.length
  size_le : b.buffer.length ≤ maxSize

/-- The cursors alone, whatever the size of the vector. -/
structure Cursors (b : Buffer) : Prop where
  reader_le : b.readerIndex ≤ b.writerIndex
  writer_le : b.writerIndex ≤ b.buffer.length
  size_le : b.buffer.length ≤ maxSize

theorem WF.cursors {b : Buffer} (hb : b.WF) : b.Cursors := ⟨hb.reader_le, hb.writer_le, hb.size_le⟩

section
variable {b : Buffer} (hb : b.Cursors)
include hb

theorem Cursors.wf (h : kCheapPrepend ≤ b.buffer.length) : b.WF := ⟨hb.reader_le, hb.writer_le, h, hb.size_le⟩

theorem Cursors.readableBytes_eq : b.readableBytes = b.writerIndex - b.readerIndex := subT_of_le hb.reader_le

theorem Cursors.writableBytes_eq : b.writableBytes = b.buffer.length - b.writerIndex := subT_of_le hb.writer_le

theorem Cursors.length_readable : b.readable.length = b.readableBytes := by
  rw [hb.readableBytes_eq]
  exact length_slice hb.writer_le

end

section
variable {b : Buffer} (hb : b.WF)
include hb

theorem WF.size_lt : b.buffer.length < 2 ^ 64 := by
  have := hb.size_le
  unfold maxSize at this
  omega

theorem WF.readableBytes_eq : b.readableBytes = b.writerIndex - b.readerIndex := hb.cursors.readableBytes_eq

theorem WF.writableBytes_eq : b.writableBytes = b.buffer.length - b.writerIndex := hb.cursors.writableBytes_eq

theorem WF.length_readable : b.readable.length = b.readableBytes := hb.cursors.length_readable

theorem WF.readableBytes_eq_zero : b.readableBytes = 0 ↔ b.readable = [] := by
  rw [← hb.length_readable]; exact List.length_eq_zero_iff

theorem retrieveAll_wf : b.retrieveAll.WF :=
  { reader_le := Nat.le_refl _, writer_le := hb.cheap_le, cheap_le := hb.cheap_le, size_le := hb.size_le }

end

theorem resize_ok {v : Bytes} {n : Nat} (h : n ≤ maxSize) :
    resize v n = .ok (v.take n ++ List.replicate (n - v.length) 0) := if_pos h

theorem resize_grow {v : Bytes} {n : Nat} (h : n ≤ maxSize) (hv : v.length ≤ n) :
    resize v n = .ok (v ++ List.replicate (n - v.length) 0) := by
  rw [resize_ok h, List.take_of_length_le hv]

def fresh (initialSize : Nat) : Buffer :=
  ⟨List.replicate (kCheapPrepend + initialSize) 0, kCheapPrepend, kCheapPrepend⟩

theorem fresh_wf {n : Nat} (h : kCheapPrepend + n ≤ maxSize) : (fresh n).WF := by
  have hlen : (fresh n).buffer.length = kCheapPrepend + n := List.length_replicate
  refine ⟨Nat.le_refl _, ?_, ?_, ?_⟩
  · rw [hlen]; exact Nat.le_add_right ..
  · rw [hlen]; exact Nat.le_add_right ..
  · rw [hlen]; exact h

theorem fresh_readable (n : Nat) : (fresh n).readable = [] := slice_self _ _

theorem ctor_spec {n : Nat} (h : kCheapPrepend + n ≤ maxSize) : ctor n = .ok (fresh n) := by
  have hb := fresh_wf h
  have hw : (fresh n).writableBytes = n := by
    rw [hb.writableBytes_eq]; simp [fresh]
  have hr : (fresh n).readableBytes = 0 := by rw [hb.readableBytes_eq]; exact Nat.sub_self _
  have hp : (fresh n).prependableBytes = kCheapPrepend := rfl
  have hs : sizeT (kCheapPrepend + n) = kCheapPrepend + n := sizeT_of_lt (by unfold maxSize at h; omega)
  have hv : resize [] (sizeT (kCheapPrepend + n)) = .ok (fresh n).buffer := by
    rw [hs, resize_grow h (Nat.zero_le _)]; rfl
  unfold ctor
  rw [hv, ok_bind]
  show (do check ((fresh n).readableBytes = 0) .bufferCtor
           check ((fresh n).writableBytes = n) .bufferCtor
           check ((fresh n).prependableBytes = kCheapPrepend) .bufferCtor
           pure (fresh n)) = _
  rw [check_of hr, check_of hw, check_of hp]
  rfl

/-! ## Taking from the front and the back -/

theorem retrieveAll_readable (b : Buffer) : b.retrieveAll.readable = [] := slice_self _ _

theorem retrieve_spec {b : Buffer} (hb : b.WF) {len : Nat} (h : len ≤ b.readableBytes) :
    ∃ c, b.retrieve len = .ok c ∧ c.WF ∧ c.readable = b.readable.drop len ∧
      c.writerIndex ≤ max b.writerIndex kCheapPrepend ∧
      (kCheapPrepend ≤ b.readerIndex → kCheapPrepend ≤ c.readerIndex) := by
  unfold retrieve
  rw [check_of h, ok_bind]
  have he := hb.readableBytes_eq
  by_cases hl : len < b.readableBytes
  · rw [if_pos hl]
    refine ⟨_, rfl, ⟨?_, hb.writer_le, hb.cheap_le, hb.size_le⟩, (drop_slice ..).symm, Nat.le_max_left .., ?_⟩
    · show b.readerIndex + len ≤ b.writerIndex
      have := hb.reader_le
      omega
    · intro hc; exact Nat.le_trans hc (Nat.le_add_right ..)
  · rw [if_neg hl]
    refine ⟨_, rfl, retrieveAll_wf hb, ?_, Nat.le_max_right .., fun _ => Nat.le_refl _⟩
    rw [retrieveAll_readable, List.drop_of_length_le]
    rw [hb.length_readable]; omega

theorem retrieveUntil_spec {b : Buffer} (hb : b.WF) {stop : Nat} (h₁ : b.readerIndex ≤ stop)
    (h₂ : stop ≤ b.writerIndex) :
    ∃ c, b.retrieveUntil stop = .ok c ∧ c.WF ∧ c.readable = b.readable.drop (stop - b.readerIndex) ∧
      c.writerIndex ≤ max b.writerIndex kCheapPrepend ∧
        (kCheapPrepend ≤ b.readerIndex → kCheapPrepend ≤ c.readerIndex) := by
  unfold retrieveUntil
  rw [check_of h₁, check_of h₂]
  exact retrieve_spec hb (by rw [hb.readableBytes_eq]; omega)

theorem retrieveAsString_spec {b : Buffer} (hb : b.WF) {len : Nat} (h : len ≤ b.readableBytes) :
    ∃ c, b.retrieveAsString len = .ok (b.readable.take len, c) ∧ c.WF ∧ c.readable = b.readable.drop len ∧
      c.writerIndex ≤ max b.writerIndex kCheapPrepend ∧
        (kCheapPrepend ≤ b.readerIndex → kCheapPrepend ≤ c.readerIndex) := by
  obtain ⟨c, hc, rest⟩ := retrieve_spec hb h
  refine ⟨c, ?_, rest⟩
  have ht : b.readable.take len = slice b.buffer b.readerIndex (b.readerIndex + len) := by
    have := hb.readableBytes_eq
    have := hb.reader_le
    exact take_slice (by omega)
  unfold retrieveAsString
  rw [check_of h, ok_bind, hc, ok_bind, ht]
  rfl

theorem unwrite_spec {b : Buffer} (hb : b.WF) {len : Nat} (h : len ≤ b.readableBytes) :
    ∃ c, b.unwrite len = .ok c ∧ c.WF ∧ c.readable = b.readable.take (b.readableBytes - len) ∧
      c.buffer = b.buffer ∧ c.readerIndex = b.readerIndex := by
  have he := hb.readableBytes_eq
  have hr := hb.reader_le
  refine ⟨{ b with writerIndex := b.writerIndex - len }, ?_, ⟨?_, ?_, hb.cheap_le, hb.size_le⟩, ?_, rfl, rfl⟩
  · unfold unwrite; rw [check_of h]; rfl
  · show b.readerIndex ≤ b.writerIndex - len; omega
  · exact Nat.le_trans (Nat.sub_le _ _) hb.writer_le
  · unfold readable
    rw [take_slice (by omega)]
    congr 1; show b.writerIndex - len = _; omega

theorem prepend_spec {b : Buffer} (hb : b.WF) {data : Bytes} (h : data.length ≤ b.prependableBytes) :
    ∃ c, b.prepend data = .ok c ∧ c.WF ∧ c.readable = data ++ b.readable := by
  have hp : data.length ≤ b.readerIndex := h
  have hl : (overwrite b.buffer (b.readerIndex - data.length) data).length = b.buffer.length :=
    length_overwrite (by have := hb.reader_le; have := hb.writer_le; omega)
  refine ⟨{ b with readerIndex := b.readerIndex - data.length
                   buffer := overwrite b.buffer (b.readerIndex - data.length) data }, ?_, ⟨?_, ?_, ?_, ?_⟩, ?_⟩
  · unfold prepend; rw [check_of h]; rfl
  · exact Nat.le_trans (Nat.sub_le _ _) hb.reader_le
  · show b.writerIndex ≤ _; rw [hl]; exact hb.writer_le
  · show kCheapPrepend ≤ _; rw [hl]; exact hb.cheap_le
  · show _ ≤ maxSize; rw [hl]; exact hb.size_le
  · show slice _ (b.readerIndex - data.length) b.writerIndex = _
    rw [slice_overwrite_start (by rw [Nat.sub_add_cancel hp]; exact hb.reader_le) hb.writer_le, Nat.sub_add_cancel hp]
    rfl

/-! ## Making room -/

/-- What `ensureWritableBytes` leaves: the same bytes, and room for `len` more. -/
structure Room (b : Buffer) (len : Nat) (c : Buffer) : Prop where
  wf : c.WF
  readable : c.readable = b.readable
  room : c.writerIndex + len ≤ c.buffer.length
  writer : c.writerIndex ≤ b.writerIndex
  cheap : kCheapPrepend ≤ b.readerIndex → kCheapPrepend ≤ c.readerIndex

theorem Room.writable {b : Buffer} {len : Nat} {c : Buffer} (h : Room b len c) : len ≤ c.writableBytes := by
  rw [h.wf.writableBytes_eq]
  have := h.room
  omega

theorem grow_room {b : Buffer} (hb : b.WF) {len : Nat} (hw : b.buffer.length ≤ b.writerIndex + len)
    (hs : b.writerIndex + len ≤ maxSize) :
    Room b len { b with buffer := b.buffer ++ List.replicate (b.writerIndex + len - b.buffer.length) 0 } := by
  have hl : (b.buffer ++ List.replicate (b.writerIndex + len - b.buffer.length) 0).length = b.writerIndex + len := by
    simp only [List.length_append, List.length_replicate]; omega
  refine ⟨⟨hb.reader_le, ?_, ?_, ?_⟩, slice_append_of_le hb.writer_le, ?_, Nat.le_refl _, id⟩
  · exact Nat.le_trans hb.writer_le (by rw [hl]; exact hw)
  · exact Nat.le_trans hb.cheap_le (by rw [hl]; exact hw)
  · rw [hl]; exact hs
  · exact Nat.le_of_eq hl.symm

theorem compact_room {b : Buffer} (hb : b.WF) {len : Nat} (hc : kCheapPrepend < b.readerIndex)
    (hl : kCheapPrepend + b.readableBytes + len ≤ b.buffer.length) :
    Room b len { buffer := overwrite b.buffer kCheapPrepend b.readable
                 readerIndex := kCheapPrepend, writerIndex := kCheapPrepend + b.readableBytes } := by
  have hfit : kCheapPrepend + b.readable.length ≤ b.buffer.length := by rw [hb.length_readable]; omega
  have ho := length_overwrite hfit
  refine ⟨⟨Nat.le_add_right .., ?_, ?_, ?_⟩, ?_, ?_, ?_, fun _ => Nat.le_refl _⟩
  · show kCheapPrepend + b.readableBytes ≤ _; rw [ho]; omega
  · show kCheapPrepend ≤ _; rw [ho]; exact hb.cheap_le
  · show _ ≤ maxSize; rw [ho]; exact hb.size_le
  · have := slice_overwrite_self hfit
    rwa [hb.length_readable] at this
  · show kCheapPrepend + b.readableBytes + len ≤ _; rw [ho]; exact hl
  · show kCheapPrepend + b.readableBytes ≤ b.writerIndex
    have := hb.readableBytes_eq
    have := hb.reader_le
    omega

/-- The assertion `kCheapPrepend < readerIndex_` in `makeSpace` holds whenever
the writable bytes alone did not suffice. -/
theorem makeSpace_spec {b : Buffer} (hb : b.WF) {len : Nat} (hw : b.writableBytes < len)
    (hlen : len + kCheapPrepend < 2 ^ 64)
    (hs : b.writableBytes + b.prependableBytes < len + kCheapPrepend → b.writerIndex + len ≤ maxSize) :
    ∃ c, b.makeSpace len = .ok c ∧ Room b len c := by
  have hwe := hb.writableBytes_eq
  have hre := hb.readableBytes_eq
  have h₁ := hb.reader_le
  have h₂ := hb.writer_le
  have h₃ := hb.size_lt
  have hsum : sizeT (b.writableBytes + b.prependableBytes) = b.writableBytes + b.prependableBytes :=
    sizeT_of_lt (by rw [hwe]; unfold prependableBytes; omega)
  unfold makeSpace
  rw [hsum, sizeT_of_lt hlen]
  by_cases hg : b.writableBytes + b.prependableBytes < len + kCheapPrepend
  · rw [if_pos hg]
    have hm := hs hg
    have hgrow : b.buffer.length ≤ b.writerIndex + len := by omega
    refine ⟨_, ?_, grow_room hb hgrow hm⟩
    rw [sizeT_of_lt (by unfold maxSize at hm; omega), resize_grow hm hgrow]
    rfl
  · rw [if_neg hg]
    have hp : b.prependableBytes = b.readerIndex := rfl
    have hc : kCheapPrepend < b.readerIndex := by omega
    have hl : kCheapPrepend + b.readableBytes + len ≤ b.buffer.length := by omega
    have hroom := compact_room hb hc hl
    refine ⟨_, ?_, hroom⟩
    have hr : b.readableBytes = (⟨overwrite b.buffer kCheapPrepend b.readable, kCheapPrepend,
        kCheapPrepend + b.readableBytes⟩ : Buffer).readableBytes := by
      rw [hroom.wf.readableBytes_eq]; simp
    simp only [check_of hc, ok_bind, check_of hr, pure_eq_ok]

theorem ensureWritableBytes_spec {b : Buffer} (hb : b.WF) {len : Nat} (hlen : len + kCheapPrepend < 2 ^ 64)
    (hs : b.writableBytes + b.prependableBytes < len + kCheapPrepend → b.writerIndex + len ≤ maxSize) :
    ∃ c, b.ensureWritableBytes len = .ok c ∧ Room b len c := by
  unfold ensureWritableBytes
  by_cases hw : b.writableBytes < len
  · obtain ⟨c, hc, hr⟩ := makeSpace_spec hb hw hlen hs
    refine ⟨c, ?_, hr⟩
    simp only [if_pos hw, hc, ok_bind, check_of hr.writable, pure_eq_ok]
  · refine ⟨b, ?_, hb, rfl, ?_, Nat.le_refl _, id⟩
    · simp only [if_neg hw, pure_eq_ok, ok_bind, check_of (Nat.le_of_not_lt hw)]
    · have := hb.writableBytes_eq
      have := hb.writer_le
      omega

/-! ## Adding at the back -/

theorem Cursors.written {b : Buffer} (hb : b.Cursors) {data : Bytes}
    (h : b.writerIndex + data.length ≤ b.buffer.length) :
    Cursors { b with buffer := overwrite b.buffer b.writerIndex data, writerIndex := b.writerIndex + data.length } ∧
      readable { b with buffer := overwrite b.buffer b.writerIndex data, writerIndex := b.writerIndex + data.length } =
        b.readable ++ data := by
  have hl := length_overwrite h
  exact ⟨⟨Nat.le_trans hb.reader_le (Nat.le_add_right ..), hl.symm ▸ h, hl.symm ▸ hb.size_le⟩,
    slice_overwrite_end hb.reader_le h⟩

theorem Cursors.fill_hasWritten {b : Buffer} (hb : b.Cursors) {data : Bytes}
    (h : b.writerIndex + data.length ≤ b.buffer.length) :
    ∃ c, (b.fill data >>= fun b => b.hasWritten data.length) = .ok c ∧ c.Cursors ∧ c.readable = b.readable ++ data ∧
      c.readerIndex = b.readerIndex ∧ c.writerIndex = b.writerIndex + data.length ∧
        c.buffer.length = b.buffer.length := by
  have hl := length_overwrite h
  have hsize := hb.size_le
  let f : Buffer := { b with buffer := overwrite b.buffer b.writerIndex data }
  have hf : f.Cursors := ⟨hb.reader_le, hl.symm ▸ hb.writer_le, hl.symm ▸ hsize⟩
  have hfw : data.length ≤ f.writableBytes := by
    rw [hf.writableBytes_eq]
    show data.length ≤ (overwrite b.buffer b.writerIndex data).length - b.writerIndex
    omega
  have hsum : sizeT (f.writerIndex + data.length) = b.writerIndex + data.length := by
    unfold maxSize at hsize
    exact sizeT_of_lt (show b.writerIndex + data.length < 2 ^ 64 by omega)
  obtain ⟨hcur, hread⟩ := hb.written h
  refine ⟨_, ?_, hcur, hread, rfl, rfl, hl⟩
  unfold fill hasWritten
  rw [check_of h, ok_bind, pure_eq_ok, ok_bind, check_of hfw, ok_bind, hsum]
  rfl

theorem fill_hasWritten {b : Buffer} (hb : b.WF) {data : Bytes} (h : b.writerIndex + data.length ≤ b.buffer.length) :
    ∃ c, (b.fill data >>= fun b => b.hasWritten data.length) = .ok c ∧ c.WF ∧ c.readable = b.readable ++ data ∧
      c.readerIndex = b.readerIndex ∧ c.writerIndex = b.writerIndex + data.length := by
  obtain ⟨c, hc, hcur, hread, hri, hwi, hlen⟩ := hb.cursors.fill_hasWritten h
  exact ⟨c, hc, hcur.wf (hlen ▸ hb.cheap_le), hread, hri, hwi⟩

theorem append_spec {b : Buffer} (hb : b.WF) {data : Bytes} (hlen : data.length + kCheapPrepend < 2 ^ 64)
    (hs : b.writableBytes + b.prependableBytes < data.length + kCheapPrepend → b.writerIndex + data.length ≤ maxSize) :
    ∃ c, b.append data = .ok c ∧ c.WF ∧ c.readable = b.readable ++ data ∧
      (kCheapPrepend ≤ b.readerIndex → kCheapPrepend ≤ c.readerIndex) ∧
      c.writerIndex ≤ b.writerIndex + data.length := by
  obtain ⟨d, hd, hr⟩ := ensureWritableBytes_spec hb hlen hs
  obtain ⟨c, hc, hwf, hread, hri, hwi⟩ := fill_hasWritten hr.wf hr.room
  refine ⟨c, ?_, hwf, by rw [hread, hr.readable], fun h => by rw [hri]; exact hr.cheap h, ?_⟩
  · unfold append
    rw [hd, ok_bind]; exact hc
  · rw [hwi]; exact Nat.add_le_add_right hr.writer _

/-! ## Bounded growth -/

/-- A buffer to which at most `n` bytes were ever appended. -/
structure Within (b : Buffer) (n : Nat) : Prop where
  wf : b.WF
  writer : b.writerIndex ≤ kCheapPrepend + n

theorem fresh_within (n : Nat) (h : kCheapPrepend + n ≤ maxSize) : (fresh n).Within 0 := ⟨fresh_wf h, Nat.le_refl _⟩

theorem Within.append {b : Buffer} {n : Nat} (hb : b.Within n) (data : Bytes)
    (h : kCheapPrepend + n + data.length ≤ maxSize) :
    ∃ c, b.append data = .ok c ∧ c.Within (n + data.length) ∧ c.readable = b.readable ++ data := by
  have hw := hb.writer
  have hlen : data.length + kCheapPrepend < 2 ^ 64 := by
    unfold maxSize at h
    omega
  obtain ⟨c, hc, hwf, hr, -, hwi⟩ := append_spec hb.wf hlen fun _ => by omega
  exact ⟨c, hc, ⟨hwf, by omega⟩, hr⟩

theorem Within.retrieveUntil {b : Buffer} {n : Nat} (hb : b.Within n) {len : Nat} (h : len ≤ b.readable.length) :
    ∃ c, b.retrieveUntil (b.readerIndex + len) = .ok c ∧ c.Within n ∧ c.readable = b.readable.drop len := by
  have hle : b.readerIndex + len ≤ b.writerIndex := by
    have h₁ := hb.wf.length_readable
    have h₂ := hb.wf.readableBytes_eq
    have h₃ := hb.wf.reader_le
    omega
  obtain ⟨c, hc, hwf, hr, hwi, -⟩ := retrieveUntil_spec hb.wf (Nat.le_add_right ..) hle
  refine ⟨c, hc, ⟨hwf, ?_⟩, by rw [hr, Nat.add_sub_cancel_left]⟩
  have := hb.writer
  omega

/-! ## What a successful append tells -/

theorem resize_inv {v u : Bytes} {n : Nat} (h : resize v n = .ok u) : u.length = n ∧ n ≤ maxSize := by
  unfold resize at h
  split at h
  · rename_i hn
    cases h
    refine ⟨?_, hn⟩
    simp only [List.length_append, List.length_take, List.length_replicate]
    omega
  · cases h

theorem makeSpace_inv {b c : Buffer} (hb : b.WF) {len : Nat} (h : b.makeSpace len = .ok c) :
    (sizeT (b.writableBytes + b.prependableBytes) < sizeT (len + kCheapPrepend) ∧ c.writerIndex = b.writerIndex ∧
        c.buffer.length = sizeT (b.writerIndex + len) ∧ sizeT (b.writerIndex + len) ≤ maxSize) ∨
      (¬ sizeT (b.writableBytes + b.prependableBytes) < sizeT (len + kCheapPrepend) ∧
        c.buffer.length = b.buffer.length) := by
  unfold makeSpace at h
  split at h
  · rename_i hg
    obtain ⟨v, hv, hc⟩ := bind_ok.mp h
    cases hc
    obtain ⟨hl, hn⟩ := resize_inv hv
    exact .inl ⟨hg, rfl, hl, hn⟩
  · rename_i hg
    obtain ⟨u, hu, h⟩ := bind_ok.mp h
    obtain ⟨u', -, h⟩ := bind_ok.mp h
    cases h
    refine .inr ⟨hg, length_overwrite ?_⟩
    have h₁ := check_ok.mp hu
    have h₂ := hb.length_readable
    have h₃ := hb.readableBytes_eq
    have h₄ := hb.writer_le
    have h₅ := hb.reader_le
    omega

/-- Room for `len` more bytes after `ensureWritableBytes` means that no sum wrapped. -/
theorem ensureWritableBytes_inv {b c : Buffer} (hb : b.WF) {len : Nat} (h : b.ensureWritableBytes len = .ok c)
    (hroom : c.writerIndex + len ≤ c.buffer.length) :
    len + kCheapPrepend < 2 ^ 64 ∧
      (b.writableBytes + b.prependableBytes < len + kCheapPrepend → b.writerIndex + len ≤ maxSize) := by
  have hmax : maxSize + kCheapPrepend < 2 ^ 64 := by decide
  have hsz := hb.size_le
  have hwe := hb.writableBytes_eq
  have hwl := hb.writer_le
  have hrl := hb.reader_le
  have hpe : b.prependableBytes = b.readerIndex := rfl
  unfold ensureWritableBytes at h
  obtain ⟨d, hd, h⟩ := bind_ok.mp h
  obtain ⟨u, -, h⟩ := bind_ok.mp h
  cases h
  split at hd
  · have hsum : sizeT (b.writableBytes + b.prependableBytes) = b.writableBytes + b.prependableBytes :=
      sizeT_of_lt (by omega)
    rcases makeSpace_inv hb hd with ⟨hg, hw, hl, hn⟩ | ⟨hg, hl⟩
    · have hlen : len + kCheapPrepend < 2 ^ 64 := by omega
      refine ⟨hlen, fun _ => ?_⟩
      rcases Nat.lt_or_ge (b.writerIndex + len) (2 ^ 64) with hlt | hge
      · rw [sizeT_of_lt hlt] at hn; exact hn
      · have : sizeT (b.writerIndex + len) < b.writerIndex := by unfold sizeT; omega
        omega
    · have hlen : len + kCheapPrepend < 2 ^ 64 := by omega
      rw [hsum, sizeT_of_lt hlen] at hg
      exact ⟨hlen, fun hg' => absurd hg' hg⟩
  · cases hd
    refine ⟨by omega, fun _ => by omega⟩

theorem append_inv {b c : Buffer} (hb : b.WF) {data : Bytes} (h : b.append data = .ok c) :
    c.WF ∧ c.readable = b.readable ++ data := by
  have h' := h
  unfold append at h'
  obtain ⟨d, hd, h'⟩ := bind_ok.mp h'
  obtain ⟨e, he, -⟩ := bind_ok.mp h'
  unfold fill at he
  obtain ⟨u, hu, -⟩ := bind_ok.mp he
  obtain ⟨hlen, hs⟩ := ensureWritableBytes_inv hb hd (check_ok.mp hu)
  obtain ⟨c', hc', hwf, hr, -⟩ := append_spec hb hlen hs
  rw [h] at hc'; cases hc'
  exact ⟨hwf, hr⟩

theorem pieceSize_eq {str : Bytes} (h : str.length < 2 ^ 31) : pieceSize str = str.length := by
  unfold pieceSize
  rw [Int.bmod_eq_of_le_mul_two]
  · omega
  · omega

theorem appendPiece_eq {b : Buffer} {str : Bytes} (h : str.length < 2 ^ 31) : b.appendPiece str = b.append str := by
  have hlen : (pieceSize str % 2 ^ 64).toNat = str.length := by
    rw [pieceSize_eq h]
    omega
  rw [appendPiece, hlen, if_pos (Nat.le_refl _), List.take_length]

/-- The size of a string of 4 GiB is 0 as an `int`. -/
theorem appendPiece_wraps {str : Bytes} (h : str.length = 2 ^ 32) (b : Buffer) :
    b.appendPiece str = b.appendPiece [] := by
  have hsize : pieceSize str = 0 := by
    unfold pieceSize
    rw [h, Int.bmod_self]
  have hnil : pieceSize [] = 0 := rfl
  unfold appendPiece
  rw [hsize, hnil]
  dsimp only
  rw [Int.zero_emod, Int.toNat_zero, if_pos (Nat.zero_le _), if_pos (Nat.zero_le _), List.take_zero, List.take_zero]

/-- Steps that each append some bytes append all of them. -/
theorem run_appends {α : Type} {step : Buffer → α → Except Fault Buffer} {bytes : α → Bytes}
    {as : List α} {b c : Buffer}
    (hstep : ∀ a ∈ as, ∀ b c : Buffer, b.WF → step b a = .ok c → c.WF ∧ c.readable = b.readable ++ bytes a) (hb : b.WF)
    (h : run step b as = .ok c) : c.WF ∧ c.readable = b.readable ++ as.flatMap bytes := by
  induction as generalizing b with
  | nil =>
    cases h
    exact ⟨hb, (List.append_nil _).symm⟩
  | cons a as ih =>
    obtain ⟨ha, has⟩ := List.forall_mem_cons.1 hstep
    obtain ⟨d, hd, hrest⟩ := (run_cons_ok _).mp h
    obtain ⟨hwf, hreadable⟩ := ha b d hb hd
    rw [List.flatMap_cons, ← List.append_assoc, ← hreadable]
    exact ih has hwf hrest

/-- They succeed if all of the bytes fit. -/
theorem Within.run_appends {α : Type} {step : Buffer → α → Except Fault Buffer} {bytes : α → Bytes} {as : List α}
    {b : Buffer} {n : Nat} (hstep : ∀ a ∈ as, ∀ b : Buffer, step b a = b.append (bytes a)) (hb : b.Within n)
    (h : kCheapPrepend + n + (as.flatMap bytes).length ≤ maxSize) : ∃ c, run step b as = .ok c := by
  induction as generalizing b n with
  | nil => exact ⟨b, rfl⟩
  | cons a as ih =>
    obtain ⟨ha, has⟩ := List.forall_mem_cons.1 hstep
    rw [List.flatMap_cons, List.length_append] at h
    obtain ⟨d, hd, hwithin, -⟩ := hb.append (bytes a) (by omega)
    obtain ⟨c, hc⟩ := ih has hwithin (by omega)
    exact ⟨c, (run_cons_ok _).mpr ⟨d, (ha b).trans hd, hc⟩⟩

theorem readFd_zero {b c : Buffer} {r : ReadResult} (h : b.readFd r = .ok (0, c)) : r = .data [] := by
  cases r with
  | error e => cases h
  | data arrived =>
    unfold readFd at h
    dsimp only at h
    obtain ⟨d, -, h⟩ := bind_ok.mp h
    have hpos : 0 < (if b.writableBytes < kExtraBuf then b.writableBytes + kExtraBuf else b.writableBytes) := by
      split <;> simp only [kExtraBuf] at * <;> omega
    generalize (if b.writableBytes < kExtraBuf then b.writableBytes + kExtraBuf else b.writableBytes) =
      capacity at h hpos
    have hz : (arrived.take capacity).length = 0 := by
      split at h
      · simp only [pure_eq_ok, Except.ok.injEq, Prod.mk.injEq] at h; omega
      · obtain ⟨e, -, h⟩ := bind_ok.mp h
        simp only [pure_eq_ok, Except.ok.injEq, Prod.mk.injEq] at h; omega
    rw [List.length_take] at hz
    have : arrived = [] := List.length_eq_zero_iff.mp (by omega)
    rw [this]

/-! ## The faults of a buffer are its own -/

theorem fill_stops (b : Buffer) (data : Bytes) : Stops (·.lifeCycle = false) (b.fill data) := by
  unfold fill
  exact check_stops (fun _ => rfl) fun _ => Stops.ok _

theorem retrieve_stops (b : Buffer) (len : Nat) : Stops (·.lifeCycle = false) (b.retrieve len) := by
  unfold retrieve
  exact check_stops (fun _ => rfl) fun _ => Stops.ite (fun _ => Stops.ok _) (fun _ => Stops.ok _)

theorem makeSpace_stops (b : Buffer) (len : Nat) : Stops (·.lifeCycle = false) (b.makeSpace len) := by
  unfold makeSpace
  refine Stops.ite (fun _ => Stops.bind ?_ fun _ _ => Stops.ok _) (fun _ => ?_)
  · unfold resize
    refine Stops.ite (fun _ => Stops.ok _) fun _ e he => ?_
    cases he; rfl
  · exact check_stops (fun _ => rfl) fun _ => check_stops (fun _ => rfl) fun _ => Stops.ok _

theorem append_stops (b : Buffer) (data : Bytes) : Stops (·.lifeCycle = false) (b.append data) := by
  unfold append ensureWritableBytes hasWritten
  refine Stops.bind ?_ fun c _ => (fill_stops c data).bind fun d _ => ?_
  · refine Stops.bind (Stops.ite (fun _ => makeSpace_stops b _) (fun _ => Stops.ok _)) fun c _ => ?_
    exact check_stops (fun _ => rfl) fun _ => Stops.ok _
  · exact check_stops (fun _ => rfl) fun _ => Stops.ok _

theorem readFd_stops (b : Buffer) (r : ReadResult) : Stops (·.lifeCycle = false) (b.readFd r) := by
  cases r with
  | error e => exact Stops.ok _
  | data arrived =>
    refine (fill_stops b _).bind fun c _ => Stops.ite (fun _ => Stops.ok _) (fun _ => ?_)
    exact (append_stops _ _).bind fun d _ => Stops.ok _

end Buffer

end Zhengqi
