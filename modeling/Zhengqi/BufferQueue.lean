import Zhengqi.BufferSound
import Mathlib.Logic.Function.Basic

/-!
# Runs of Buffer operations

A run calls operations on a family of buffers, so that `swap` has a partner. It
is compared with the same calls on a family of byte queues: every call whose own
assertion holds succeeds and does to the bytes what the queue operation does.
-/

namespace Zhengqi

open Run

inductive BufferOp (ι : Type)
  | ctor (i : ι) (initialSize : Nat)
  | append (i : ι) (data : Bytes)
  | retrieve (i : ι) (len : Nat)
  -- `retrieveUntil(peek() + len)`
  | retrieveUntil (i : ι) (len : Nat)
  | retrieveAll (i : ι)
  | retrieveAsString (i : ι) (len : Nat)
  | retrieveAllAsString (i : ι)
  | prepend (i : ι) (data : Bytes)
  | unwrite (i : ι) (len : Nat)
  | ensureWritableBytes (i : ι) (len : Nat)
  -- `data` stored from `beginWrite()` on, then `hasWritten(data.length)`
  | hasWritten (i : ι) (data : Bytes)
  | swap (i j : ι)

/-- The buffers, and the strings handed back so far. -/
structure Buffers (ι : Type) where
  buf : ι → Buffer
  out : List Bytes

/-- The byte queues the buffers stand for; `prepended` records whether `prepend`
was ever called. -/
structure Queues (ι : Type) where
  bytes : ι → Bytes
  out : List Bytes
  prepended : Bool

section
variable {ι : Type} [DecidableEq ι]

def Buffers.set (s : Buffers ι) (i : ι) (b : Buffer) : Buffers ι := { s with buf := Function.update s.buf i b }

def Queues.set (q : Queues ι) (i : ι) (v : Bytes) : Queues ι := { q with bytes := Function.update q.bytes i v }

def BufferOp.exec (s : Buffers ι) : BufferOp ι → Except Fault (Buffers ι)
  | .ctor i n => do pure (s.set i (← Buffer.ctor n))
  | .append i data => do pure (s.set i (← (s.buf i).append data))
  | .retrieve i len => do pure (s.set i (← (s.buf i).retrieve len))
  | .retrieveUntil i len => do pure (s.set i (← (s.buf i).retrieveUntil ((s.buf i).readerIndex + len)))
  | .retrieveAll i => pure (s.set i (s.buf i).retrieveAll)
  | .retrieveAsString i len => do
    let (r, b) ← (s.buf i).retrieveAsString len
    pure { s.set i b with out := s.out ++ [r] }
  | .retrieveAllAsString i => do
    let (r, b) ← (s.buf i).retrieveAllAsString
    pure { s.set i b with out := s.out ++ [r] }
  | .prepend i data => do pure (s.set i (← (s.buf i).prepend data))
  | .unwrite i len => do pure (s.set i (← (s.buf i).unwrite len))
  | .ensureWritableBytes i len => do pure (s.set i (← (s.buf i).ensureWritableBytes len))
  | .hasWritten i data => do
    let b ← (s.buf i).fill data
    pure (s.set i (← b.hasWritten data.length))
  | .swap i j => pure ((s.set i (s.buf j)).set j (s.buf i))

def BufferOp.spec (q : Queues ι) : BufferOp ι → Queues ι
  | .ctor i _ => q.set i []
  | .append i data => q.set i (q.bytes i ++ data)
  | .retrieve i len => q.set i ((q.bytes i).drop len)
  | .retrieveUntil i len => q.set i ((q.bytes i).drop len)
  | .retrieveAll i => q.set i []
  | .retrieveAsString i len => { q.set i ((q.bytes i).drop len) with out := q.out ++ [(q.bytes i).take len] }
  | .retrieveAllAsString i => { q.set i [] with out := q.out ++ [q.bytes i] }
  | .prepend i data => { q.set i (data ++ q.bytes i) with prepended := true }
  | .unwrite i len => q.set i ((q.bytes i).take ((q.bytes i).length - len))
  | .ensureWritableBytes i _ => q.set i (q.bytes i)
  | .hasWritten i data => q.set i (q.bytes i ++ data)
  | .swap i j => (q.set i (q.bytes j)).set j (q.bytes i)

def BufferOp.Asserts (s : Buffers ι) : BufferOp ι → Prop
  | .retrieve i len | .retrieveUntil i len | .retrieveAsString i len | .unwrite i len =>
    len ≤ (s.buf i).readableBytes
  | .prepend i data => data.length ≤ (s.buf i).prependableBytes
  | .hasWritten i data => data.length ≤ (s.buf i).writableBytes
  | _ => True

instance (s : Buffers ι) : ∀ op : BufferOp ι, Decidable (op.Asserts s)
  | .retrieve .. | .retrieveUntil .. | .retrieveAsString .. | .unwrite .. | .prepend .. | .hasWritten .. =>
    inferInstanceAs (Decidable (_ ≤ _))
  | .ctor .. | .append .. | .retrieveAll .. | .retrieveAllAsString .. | .ensureWritableBytes .. | .swap .. =>
    .isTrue trivial

def BufferOp.size : BufferOp ι → Nat
  | .ctor _ n => Buffer.kCheapPrepend + n
  | .append _ data | .prepend _ data | .hasWritten _ data => data.length
  | .ensureWritableBytes _ len => len
  | _ => 0

/-- A call whose own assertion holds, with every size below `2 ^ 31`. -/
def BufferOp.Proper (s : Buffers ι) (op : BufferOp ι) : Prop :=
  op.Asserts s ∧ op.size < 2 ^ 31 ∧ ∀ i, (s.buf i).buffer.length < 2 ^ 31

instance (n : Nat) (s : Buffers (Fin n)) (op : BufferOp (Fin n)) : Decidable (op.Proper s) :=
  inferInstanceAs (Decidable (_ ∧ _ ∧ _))

structure Buffers.Refines (s : Buffers ι) (q : Queues ι) : Prop where
  wf : ∀ i, (s.buf i).WF
  readable : ∀ i, (s.buf i).readable = q.bytes i
  out : s.out = q.out
  cheap : q.prepended = false → ∀ i, Buffer.kCheapPrepend ≤ (s.buf i).readerIndex

theorem Buffers.Refines.set {s : Buffers ι} {q : Queues ι} (h : s.Refines q) {i : ι} {b : Buffer} {v : Bytes}
    (hwf : b.WF) (hv : b.readable = v) (hc : q.prepended = false → Buffer.kCheapPrepend ≤ b.readerIndex) :
    (s.set i b).Refines (q.set i v) := by
  refine ⟨fun j => ?_, fun j => ?_, h.out, fun hp j => ?_⟩
  · by_cases hj : j = i
    · subst hj; simpa [Buffers.set] using hwf
    · simpa [Buffers.set, hj] using h.wf j
  · by_cases hj : j = i
    · subst hj; simpa [Buffers.set, Queues.set] using hv
    · simpa [Buffers.set, Queues.set, hj] using h.readable j
  · by_cases hj : j = i
    · subst hj; simpa [Buffers.set] using hc hp
    · simpa [Buffers.set, hj] using h.cheap hp j

omit [DecidableEq ι] in
/-- A string is handed back. -/
theorem Buffers.Refines.push {s : Buffers ι} {q : Queues ι} (h : s.Refines q) {r v : Bytes} (hr : r = v) :
    Buffers.Refines { s with out := s.out ++ [r] } { q with out := q.out ++ [v] } := by
  refine ⟨h.wf, h.readable, ?_, h.cheap⟩
  show s.out ++ [r] = q.out ++ [v]
  rw [h.out, hr]

theorem BufferOp.exec_refines {s : Buffers ι} {q : Queues ι} {op : BufferOp ι} (h : s.Refines q) (hp : op.Proper s) :
    ∃ t, op.exec s = .ok t ∧ t.Refines (op.spec q) := by
  obtain ⟨ha, hsize, hall⟩ := hp
  -- sizes below 2 ^ 31 keep every sum clear of the vector's limit
  have hfit : ∀ i len, len < 2 ^ 31 → len + Buffer.kCheapPrepend < 2 ^ 64 ∧
      ((s.buf i).writableBytes + (s.buf i).prependableBytes < len + Buffer.kCheapPrepend →
        (s.buf i).writerIndex + len ≤ Buffer.maxSize) := by
    intro i len hlen
    have h₁ := (h.wf i).writer_le
    have h₂ := hall i
    unfold Buffer.kCheapPrepend Buffer.maxSize
    omega
  cases op with
  | ctor i n =>
    have hn : Buffer.kCheapPrepend + n ≤ Buffer.maxSize := by
      simp only [BufferOp.size] at hsize; unfold Buffer.maxSize; omega
    refine ⟨s.set i (Buffer.fresh n), by simp only [exec, Buffer.ctor_spec hn, ok_bind, pure_eq_ok], ?_⟩
    exact h.set (Buffer.fresh_wf hn) (Buffer.fresh_readable n) fun _ => Nat.le_refl _
  | append i data =>
    obtain ⟨h₁, h₂⟩ := hfit i data.length hsize
    obtain ⟨c, hc, hwf, hr, hcheap, -⟩ := Buffer.append_spec (h.wf i) h₁ h₂
    refine ⟨s.set i c, by simp only [exec, hc, ok_bind, pure_eq_ok], h.set hwf ?_ fun hp => hcheap (h.cheap hp i)⟩
    rw [hr, h.readable]
  | retrieve i len =>
    obtain ⟨c, hc, hwf, hr, -, hcheap⟩ := Buffer.retrieve_spec (h.wf i) ha
    refine ⟨s.set i c, by simp only [exec, hc, ok_bind, pure_eq_ok], h.set hwf ?_ fun hp => hcheap (h.cheap hp i)⟩
    rw [hr, h.readable]
  | retrieveUntil i len =>
    have hlen : (s.buf i).readerIndex + len ≤ (s.buf i).writerIndex := by
      have h₁ : len ≤ (s.buf i).readableBytes := ha
      have h₂ := (h.wf i).readableBytes_eq
      have h₃ := (h.wf i).reader_le
      omega
    obtain ⟨c, hc, hwf, hr, -, hcheap⟩ := Buffer.retrieveUntil_spec (h.wf i) (Nat.le_add_right _ len) hlen
    refine ⟨s.set i c, by simp only [exec, hc, ok_bind, pure_eq_ok], h.set hwf ?_ fun hp => hcheap (h.cheap hp i)⟩
    rw [hr, h.readable, Nat.add_sub_cancel_left]
  | retrieveAll i =>
    exact ⟨_, rfl, h.set (Buffer.retrieveAll_wf (h.wf i)) (Buffer.retrieveAll_readable _) fun _ => Nat.le_refl _⟩
  | retrieveAsString i len =>
    obtain ⟨c, hc, hwf, hr, -, hcheap⟩ := Buffer.retrieveAsString_spec (h.wf i) ha
    have hset : (s.set i c).Refines (q.set i ((q.bytes i).drop len)) :=
      h.set hwf (by rw [hr, h.readable]) fun hp => hcheap (h.cheap hp i)
    refine ⟨{ s.set i c with out := s.out ++ [(s.buf i).readable.take len] }, ?_, ?_⟩
    · simp only [exec, hc, ok_bind, pure_eq_ok]
    · exact hset.push (by rw [h.readable])
  | retrieveAllAsString i =>
    obtain ⟨c, hc, hwf, hr, -, hcheap⟩ := Buffer.retrieveAsString_spec (h.wf i) (Nat.le_refl (s.buf i).readableBytes)
    have hlen := (h.wf i).length_readable
    rw [List.take_of_length_le (Nat.le_of_eq hlen)] at hc
    rw [List.drop_of_length_le (Nat.le_of_eq hlen)] at hr
    have hset : (s.set i c).Refines (q.set i []) := h.set hwf hr fun hp => hcheap (h.cheap hp i)
    refine ⟨{ s.set i c with out := s.out ++ [(s.buf i).readable] }, ?_, ?_⟩
    · simp only [exec, Buffer.retrieveAllAsString, hc, ok_bind, pure_eq_ok]
    · exact hset.push (h.readable i)
  | prepend i data =>
    obtain ⟨c, hc, hwf, hr⟩ := Buffer.prepend_spec (h.wf i) ha
    have h' : s.Refines { q with prepended := true } := { h with cheap := fun hp => by cases hp }
    refine ⟨s.set i c, by simp only [exec, hc, ok_bind, pure_eq_ok], ?_⟩
    exact h'.set hwf (by rw [hr, h.readable]) fun hp => by cases hp
  | unwrite i len =>
    obtain ⟨c, hc, hwf, hr, -, hri⟩ := Buffer.unwrite_spec (h.wf i) ha
    refine ⟨s.set i c, by simp only [exec, hc, ok_bind, pure_eq_ok], h.set hwf ?_ fun hp => ?_⟩
    · rw [hr, ← h.readable, (h.wf i).length_readable]
    · rw [hri]; exact h.cheap hp i
  | ensureWritableBytes i len =>
    obtain ⟨h₁, h₂⟩ := hfit i len hsize
    obtain ⟨c, hc, hroom⟩ := Buffer.ensureWritableBytes_spec (h.wf i) h₁ h₂
    refine ⟨s.set i c, by simp only [exec, hc, ok_bind, pure_eq_ok], h.set hroom.wf ?_
      fun hp => hroom.cheap (h.cheap hp i)⟩
    rw [hroom.readable, h.readable]
  | hasWritten i data =>
    have hlen : (s.buf i).writerIndex + data.length ≤ (s.buf i).buffer.length := by
      have h₁ : data.length ≤ (s.buf i).writableBytes := ha
      have h₂ := (h.wf i).writableBytes_eq
      have h₃ := (h.wf i).writer_le
      omega
    obtain ⟨c, hc, hwf, hr, hri, -⟩ := Buffer.fill_hasWritten (h.wf i) hlen
    obtain ⟨d, hd, hc⟩ := bind_ok.mp hc
    refine ⟨s.set i c, by simp only [exec, hd, hc, ok_bind, pure_eq_ok], h.set hwf ?_ fun hp => ?_⟩
    · rw [hr, h.readable]
    · rw [hri]; exact h.cheap hp i
  | swap i j =>
    refine ⟨_, rfl, ?_⟩
    exact (h.set (h.wf j) (h.readable j) fun hp => h.cheap hp j).set (h.wf i) (h.readable i) fun hp => h.cheap hp i

theorem BufferOp.ensureWritableBytes_room {s t : Buffers ι} {i : ι} {n : Nat}
    (h : (BufferOp.ensureWritableBytes i n).exec s = .ok t) : n ≤ (t.buf i).writableBytes := by
  obtain ⟨b, hb, ht⟩ := bind_ok.mp h
  cases ht
  unfold Buffer.ensureWritableBytes at hb
  obtain ⟨c, -, hc⟩ := bind_ok.mp hb
  obtain ⟨u, hu, hc⟩ := bind_ok.mp hc
  cases hc
  simpa [Buffers.set] using check_ok.mp hu

def Buffers.init (initialSize : ι → Nat) : Buffers ι := ⟨fun i => Buffer.fresh (initialSize i), []⟩

def Queues.init : Queues ι := ⟨fun _ => [], [], false⟩

omit [DecidableEq ι] in
theorem Buffers.init_refines {initialSize : ι → Nat} (h : ∀ i, Buffer.kCheapPrepend + initialSize i < 2 ^ 31) :
    (Buffers.init initialSize).Refines Queues.init := by
  refine ⟨fun i => Buffer.fresh_wf ?_, fun i => Buffer.fresh_readable _, rfl, fun _ _ => Nat.le_refl _⟩
  have := h i
  unfold Buffer.maxSize; omega

theorem BufferOp.foldl_prepended {ops : List (BufferOp ι)} (h : ∀ i data, BufferOp.prepend i data ∉ ops)
    (q : Queues ι) :
    (ops.foldl BufferOp.spec q).prepended = q.prepended := by
  induction ops generalizing q with
  | nil => rfl
  | cons op ops ih =>
    rw [List.foldl_cons, ih fun i data hm => h i data (List.mem_cons_of_mem _ hm)]
    cases op with
    | prepend i data => exact absurd (List.mem_cons_self ..) (h i data)
    | _ => rfl

/-- Every run of calls whose own assertions hold, with sizes below `2 ^ 31`,
succeeds (so no assertion inside `makeSpace` or `ensureWritableBytes` fails) and
acts on the readable bytes as the queue operations do. -/
theorem buffer_refines_byte_queue (initialSize : ι → Nat) (h₀ : ∀ i, Buffer.kCheapPrepend + initialSize i < 2 ^ 31)
    (ops : List (BufferOp ι)) (hm : Meets BufferOp.exec BufferOp.Proper (Buffers.init initialSize) ops) :
    (∀ i, Buffer.ctor (initialSize i) = .ok ((Buffers.init initialSize).buf i)) ∧
    ∃ s, run BufferOp.exec (Buffers.init initialSize) ops = .ok s ∧
      (∀ i, (s.buf i).readable = (ops.foldl BufferOp.spec Queues.init).bytes i) ∧
      s.out = (ops.foldl BufferOp.spec Queues.init).out ∧
      (∀ i, (s.buf i).readerIndex ≤ (s.buf i).writerIndex ∧ (s.buf i).writerIndex ≤ (s.buf i).buffer.length) ∧
      (∀ front i n, ops = front ++ [.ensureWritableBytes i n] → n ≤ (s.buf i).writableBytes) ∧
      ((∀ i data, BufferOp.prepend i data ∉ ops) → ∀ i, Buffer.kCheapPrepend ≤ (s.buf i).prependableBytes) := by
  have hmax : ∀ i, Buffer.kCheapPrepend + initialSize i ≤ Buffer.maxSize := by
    intro i; have := h₀ i; unfold Buffer.maxSize; omega
  refine ⟨fun i => Buffer.ctor_spec (hmax i), ?_⟩
  obtain ⟨s, hs, hr⟩ := hm.simulates (fun _ _ _ => BufferOp.exec_refines) (Buffers.init_refines h₀)
  refine ⟨s, hs, hr.readable, hr.out, fun i => ⟨(hr.wf i).reader_le, (hr.wf i).writer_le⟩, ?_, ?_⟩
  · rintro front i n rfl
    obtain ⟨t, -, ht⟩ := (run_append_ok _).mp hs
    obtain ⟨u, hu, hus⟩ := (run_cons_ok _).mp ht
    cases hus
    exact BufferOp.ensureWritableBytes_room hu
  · intro hp
    exact hr.cheap (BufferOp.foldl_prepended hp _)

theorem buffer_refines_byte_queue_append_retrieve :
    ∃ s, run BufferOp.exec (Buffers.init fun _ : Fin 1 => 4) [.append 0 [1, 2, 3, 4, 5], .retrieve 0 2] = .ok s ∧
      (s.buf 0).readable = [3, 4, 5] := by
  obtain ⟨-, s, hs, hr, -⟩ := buffer_refines_byte_queue (fun _ : Fin 1 => 4) (by decide)
    [.append 0 [1, 2, 3, 4, 5], .retrieve 0 2] (by decide)
  exact ⟨s, hs, hr 0⟩

end

end Zhengqi
