import Zhengqi.AsyncLogging

/-!
# What is logged is written

The buffers go round between the front end and `threadFunc` (`Pool`), and the lines are, in
their order, what was written, what `threadFunc` has still to write, `buffers_` and
`currentBuffer_`.
-/

namespace Zhengqi

open Run

namespace AsyncLogging

variable {w v : AsyncLogging} {t : Locals} {p : BufferPtr} {ps qs : List BufferPtr}

/-! ## The pool -/

def Held (ps : List BufferPtr) : Prop := ∀ p ∈ ps, p ≠ none

/-- Outside of an iteration, and before the critical section. -/
structure Ready (t : Locals) : Prop where
  newBuffer1 : t.newBuffer1 = some .empty
  newBuffer2 : t.newBuffer2 = some .empty
  buffersToWrite : t.buffersToWrite = []

/-- Behind the critical section. -/
structure Spent (t : Locals) : Prop where
  newBuffer1 : t.newBuffer1 = none
  newBuffer2 : t.newBuffer2 = some .empty ∨ t.newBuffer2 = none ∧ 2 ≤ t.buffersToWrite.length
  held : Held t.buffersToWrite
  nonempty : t.buffersToWrite ≠ []

structure Refilled (t : Locals) : Prop where
  newBuffer1 : t.newBuffer1 = some .empty
  newBuffer2 : t.newBuffer2 = some .empty ∨ t.newBuffer2 = none ∧ t.buffersToWrite ≠ []
  held : Held t.buffersToWrite

def Backend (t : Locals) : Prop :=
  match t.pc with
  | .loop | .lock | .wait | .done => Ready t
  | .drop | .write _ | .resize | .refill1 => Spent t
  | .refill2 => Refilled t
  | .clear => t.newBuffer1 = some .empty ∧ t.newBuffer2 = some .empty

structure Pool (w : AsyncLogging) : Prop where
  current : w.currentBuffer ≠ none
  next : w.nextBuffer = some .empty ∨ w.nextBuffer = none ∧ w.buffers ≠ []
  buffers : Held w.buffers
  thread : Backend w.thread

/-! ## The bytes -/

def contents (ps : List BufferPtr) : Bytes := ps.flatMap fun p => p.elim [] (·.data)

theorem contents_nil : contents [] = [] := rfl

theorem contents_append (ps qs : List BufferPtr) : contents (ps ++ qs) = contents ps ++ contents qs :=
  List.flatMap_append ..

theorem contents_singleton (b : FixedBuffer kLargeBuffer) : contents [some b] = b.data := by
  simp [contents]

/-- The buffers of `buffersToWrite` that were not written yet. -/
def Locals.unwritten (t : Locals) : List BufferPtr :=
  match t.pc with
  | .drop => t.buffersToWrite
  | .write i => t.buffersToWrite.drop i
  | _ => []

/-- Buffers that were taken are still to be written. -/
def Pc.writing : Pc → Bool
  | .drop | .write _ => true
  | _ => false

/-- The critical section is the next step, or the one behind the wait. -/
def Pc.locking : Pc → Bool
  | .lock | .wait => true
  | _ => false

theorem Pc.writing_of_locking {pc : Pc} (h : pc.locking = true) : pc.writing = false := by
  cases pc with
  | drop => cases h
  | write i => cases h
  | _ => rfl

theorem Locals.unwritten_of (h : t.pc.writing = false) : t.unwritten = [] := by
  unfold Locals.unwritten
  cases hpc : t.pc with
  | drop => rw [hpc] at h; cases h
  | write i => rw [hpc] at h; cases h
  | _ => rfl

/-- What was written, and what is still in a buffer. -/
def logged (w : AsyncLogging) : Bytes :=
  w.output ++ contents w.thread.unwritten ++ contents w.buffers ++ contents [w.currentBuffer]

/-- The bytes that the back end has not taken. -/
def front (w : AsyncLogging) : Bytes := contents w.buffers ++ contents [w.currentBuffer]

theorem Held.snoc (h : Held ps) (hp : p ≠ none) : Held (ps ++ [p]) := by
  intro q hq
  rcases List.mem_append.mp hq with hq | hq
  · exact h q hq
  · rw [List.mem_singleton.mp hq]
    exact hp

theorem Held.mono (h : Held ps) (hs : ∀ p ∈ qs, p ∈ ps) : Held qs := fun p hp => h p (hs p hp)

/-! ## The front end -/

structure Appended (w : AsyncLogging) (line : Bytes) (v : AsyncLogging) : Prop where
  running : v.running = w.running
  thread : v.thread = w.thread
  output : v.output = w.output
  -- a line that is longer than a buffer is not stored
  front : v.front = w.front ++ if line.length < kLargeBuffer then line else []

theorem Pool.append (h : Pool w) (line : Bytes) : ∃ v, w.append line = .ok v ∧ Pool v ∧ Appended w line v := by
  obtain ⟨b, hb⟩ := Option.ne_none_iff_exists'.mp h.current
  have hw : w.front = contents w.buffers ++ b.data := by rw [front, hb, contents_singleton]
  unfold AsyncLogging.append
  rw [hb, BufferPtr.deref, ok_bind]
  by_cases ha : line.length < b.avail
  · have hlen : line.length < kLargeBuffer := Nat.lt_of_lt_of_le ha (Nat.sub_le ..)
    rw [if_pos ha]
    refine ⟨_, rfl, ⟨by simp, h.next, h.buffers, h.thread⟩, rfl, rfl, rfl, ?_⟩
    rw [if_pos hlen, hw, front, contents_singleton, FixedBuffer.data_append ha, List.append_assoc]
  · rw [if_neg ha]
    -- the buffer that becomes the current one is empty
    have hnext : w.nextBuffer.getD .empty = .empty := by
      rcases h.next with hn | ⟨hn, -⟩ <;> rw [hn] <;> rfl
    rw [hnext]
    refine ⟨_, rfl, ⟨by simp, .inr ⟨rfl, by simp⟩, h.buffers.snoc (by simp), h.thread⟩, rfl, rfl, rfl, ?_⟩
    rw [hw, front, contents_singleton, contents_append, contents_singleton]
    have havail : (FixedBuffer.empty : FixedBuffer kLargeBuffer).avail = kLargeBuffer := rfl
    by_cases hlen : line.length < kLargeBuffer
    · rw [if_pos hlen, FixedBuffer.data_append (havail ▸ hlen), FixedBuffer.data_empty, List.nil_append]
    · rw [if_neg hlen, FixedBuffer.append_of_le (havail ▸ Nat.not_lt.mp hlen), FixedBuffer.data_empty]

/-! ## The back end -/

section
variable (h : Pool w) (ht : Ready w.thread)
include h ht

/-- `newBuffer2` goes to the front end where that has used up its own. -/
theorem Pool.take_eq : ∃ q, (q = some .empty ∨ q = none ∧ w.buffers ≠ []) ∧
    w.take = { w with
      currentBuffer := some .empty
      nextBuffer := some .empty
      buffers := []
      thread := {
        pc := .drop, newBuffer1 := none, newBuffer2 := q
        buffersToWrite := w.buffers ++ [w.currentBuffer] } } := by
  obtain ⟨h₁, h₂, hw⟩ := ht
  rcases h.next with hn | ⟨hn, hne⟩
  · exact ⟨some .empty, .inl rfl, by simp [AsyncLogging.take, h₁, h₂, hw, hn]⟩
  · exact ⟨none, .inr ⟨rfl, hne⟩, by simp [AsyncLogging.take, h₁, h₂, hw, hn]⟩

theorem Pool.take : Pool w.take := by
  obtain ⟨q, hq, htake⟩ := h.take_eq ht
  rw [htake]
  refine ⟨by simp, .inl rfl, by simp [Held], rfl, ?_, h.buffers.snoc h.current, by simp⟩
  rcases hq with rfl | ⟨rfl, hne⟩
  · exact .inl rfl
  · refine .inr ⟨rfl, ?_⟩
    have hpos := List.length_pos_iff.mpr hne
    simp only [List.length_append, List.length_singleton]
    omega

theorem Pool.logged_take (hl : w.thread.pc.locking = true) : w.take.logged = w.logged := by
  obtain ⟨q, -, htake⟩ := h.take_eq ht
  rw [htake, logged, logged, Locals.unwritten_of (Pc.writing_of_locking hl), contents_singleton, Locals.unwritten]
  simp [contents]

end

theorem refill_none (hw : Held ps) (hne : ps ≠ []) : refill none ps = .ok (some .empty, ps.dropLast) := by
  obtain ⟨b, hb⟩ := Option.ne_none_iff_exists'.mp (hw _ (List.getLast_mem hne))
  simp only [refill, Option.isNone_none, if_true, check_of hne, ok_bind, List.getLast?_eq_getLast_of_ne_nil hne,
    Option.getD_some, hb, BufferPtr.deref, FixedBuffer.reset, pure_eq_ok]

theorem Ready.at (h : Ready t) (pc : Pc) : Ready { t with pc } := ⟨h.newBuffer1, h.newBuffer2, h.buffersToWrite⟩

theorem Spent.at (h : Spent t) (pc : Pc) : Spent { t with pc } := ⟨h.newBuffer1, h.newBuffer2, h.held, h.nonempty⟩

/-- Where more than two buffers were taken, the first two are kept. -/
theorem Spent.cut (h : Spent t) (hlt : 2 < t.buffersToWrite.length) (pc : Pc) :
    Spent { t with buffersToWrite := t.buffersToWrite.take 2, pc } := by
  have hlen : (t.buffersToWrite.take 2).length = 2 := by
    rw [List.length_take]
    omega
  refine ⟨h.newBuffer1, h.newBuffer2.imp_right fun hn => ⟨hn.1, Nat.le_of_eq hlen.symm⟩, ?_, ?_⟩
  · exact h.held.mono fun p hp => List.mem_of_mem_take hp
  · exact List.ne_nil_of_length_pos (by rw [hlen]; decide)

theorem Spent.refill (h : Spent t) : ∃ ps, refill t.newBuffer1 t.buffersToWrite = .ok (some .empty, ps) ∧
    Refilled { t with newBuffer1 := some .empty, buffersToWrite := ps, pc := .refill2 } := by
  rw [h.newBuffer1]
  refine ⟨_, refill_none h.held h.nonempty, rfl, h.newBuffer2.imp_right fun hn => ⟨hn.1, fun he => ?_⟩, ?_⟩
  · have hlen := congrArg List.length he
    rw [List.length_dropLast, List.length_nil] at hlen
    omega
  · exact h.held.mono fun p hp => List.dropLast_subset _ hp

theorem Refilled.refill (h : Refilled t) : ∃ ps, refill t.newBuffer2 t.buffersToWrite = .ok (some .empty, ps) := by
  rcases h.newBuffer2 with hn | ⟨hn, hne⟩
  · rw [hn]
    exact ⟨_, rfl⟩
  · rw [hn]
    exact ⟨_, refill_none h.held hne⟩

/-- The buffers that a step of `threadFunc` takes, cuts down and writes. -/
inductive Turn (w : AsyncLogging) (now : Bytes) : AsyncLogging → Prop
  -- nothing is to be written before it, nor behind it
  | goes (t : Locals) (hw : w.thread.pc.writing = false) (ht : t.pc.writing = false)
    (hl : t.pc.locking = w.thread.pc.locking ∨ w.running = true ∧ w.thread.pc.locking = false) :
    Turn w now { w with thread := t }
  | takes (ht : Ready w.thread) (hl : w.thread.pc.locking = true) : Turn w now w.take
  | keeps (hpc : w.thread.pc = .drop) (hle : w.thread.buffersToWrite.length ≤ 25) :
    Turn w now { w with thread := { w.thread with pc := .write 0 } }
  | cuts (hpc : w.thread.pc = .drop) (hlt : 25 < w.thread.buffersToWrite.length) :
    Turn w now { w with
      output := w.output ++ dropped now w.thread.buffersToWrite.length
      thread := { w.thread with buffersToWrite := w.thread.buffersToWrite.take 2, pc := .write 0 } }
  | writes {i : Nat} {b : FixedBuffer kLargeBuffer} (hpc : w.thread.pc = .write i)
    (hi : w.thread.buffersToWrite[i]? = some (some b)) :
    Turn w now { w with output := w.output ++ b.data, thread := { w.thread with pc := .write (i + 1) } }
  | ends {i : Nat} (hpc : w.thread.pc = .write i) (hi : w.thread.buffersToWrite.length ≤ i) :
    Turn w now { w with thread := { w.thread with pc := .resize } }

theorem Turn.running {now : Bytes} (h : Turn w now v) : v.running = w.running := by
  cases h with
  | _ => rfl

def Acts (w : AsyncLogging) (now : Bytes) (x : Except Fault AsyncLogging) : Prop :=
  ∃ v, x = .ok v ∧ Pool v ∧ Turn w now v

theorem Pool.goes (h : Pool w) {now : Bytes} {pc : Pc} (hpc : w.thread.pc = pc) (ht : Backend t)
    (hw : pc.writing = false)
    (hv : t.pc.writing = false) (hl : t.pc.locking = pc.locking ∨ w.running = true ∧ pc.locking = false) :
    Acts w now (.ok { w with thread := t }) := by
  rw [← hpc] at hw hl
  exact ⟨_, rfl, ⟨h.current, h.next, h.buffers, ht⟩, .goes t hw hv hl⟩

section
variable (h : Pool w) (ht : Ready w.thread)
include h ht

theorem Pool.loop (hpc : w.thread.pc = .loop) (now : Bytes) : Acts w now (w.threadFunc now) := by
  have hassert : assertEmpty (some .empty) = .ok () := rfl
  by_cases hr : w.running = true
  · have hstep : w.threadFunc now = .ok { w with thread := { w.thread with pc := .lock } } := by
      simp [AsyncLogging.threadFunc, hpc, hr, ht.newBuffer1, ht.newBuffer2, ht.buffersToWrite, hassert]
    rw [hstep]
    exact h.goes (t := { w.thread with pc := .lock }) hpc (ht.at .lock) rfl rfl (.inr ⟨hr, rfl⟩)
  · have hstep : w.threadFunc now = .ok { w with thread := { w.thread with pc := .done } } := by
      simp [AsyncLogging.threadFunc, hpc, hr]
    rw [hstep]
    exact h.goes (t := { w.thread with pc := .done }) hpc (ht.at .done) rfl rfl (.inl rfl)

theorem Pool.acts_take (hl : w.thread.pc.locking = true) (now : Bytes) : Acts w now (.ok w.take) :=
  ⟨_, rfl, h.take ht, .takes ht hl⟩

theorem Pool.lock (hpc : w.thread.pc = .lock) (now : Bytes) : Acts w now (w.threadFunc now) := by
  by_cases he : w.buffers = []
  · have hstep : w.threadFunc now = .ok { w with thread := { w.thread with pc := .wait } } := by
      simp [AsyncLogging.threadFunc, hpc, he]
    rw [hstep]
    exact h.goes (t := { w.thread with pc := .wait }) hpc (ht.at .wait) rfl rfl (.inl rfl)
  · have hstep : w.threadFunc now = .ok w.take := by simp [AsyncLogging.threadFunc, hpc, he]
    rw [hstep]
    exact h.acts_take ht (by rw [hpc]; rfl) now

theorem Pool.wait (hpc : w.thread.pc = .wait) (now : Bytes) : Acts w now (w.threadFunc now) := by
  have hstep : w.threadFunc now = .ok w.take := by simp [AsyncLogging.threadFunc, hpc]
  rw [hstep]
  exact h.acts_take ht (by rw [hpc]; rfl) now

end

section
variable (h : Pool w) (ht : Spent w.thread)
include h ht

theorem Pool.drop (hpc : w.thread.pc = .drop) (now : Bytes) : Acts w now (w.threadFunc now) := by
  by_cases hlt : 25 < w.thread.buffersToWrite.length
  · refine ⟨_, ?_, ?_, .cuts hpc hlt⟩
    · simp [AsyncLogging.threadFunc, hpc, ht.nonempty, hlt]
    · exact ⟨h.current, h.next, h.buffers, ht.cut (by omega) _⟩
  · refine ⟨_, ?_, ?_, .keeps hpc (Nat.not_lt.mp hlt)⟩
    · simp [AsyncLogging.threadFunc, hpc, ht.nonempty, hlt]
    · exact ⟨h.current, h.next, h.buffers, ht.at _⟩

theorem Pool.write {i : Nat} (hpc : w.thread.pc = .write i) (now : Bytes) : Acts w now (w.threadFunc now) := by
  cases hi : w.thread.buffersToWrite[i]? with
  | none =>
    refine ⟨_, ?_, ?_, .ends hpc (List.getElem?_eq_none_iff.mp hi)⟩
    · simp [AsyncLogging.threadFunc, hpc, hi]
    · exact ⟨h.current, h.next, h.buffers, ht.at _⟩
  | some p =>
    obtain ⟨b, rfl⟩ := Option.ne_none_iff_exists'.mp (ht.held p (List.mem_of_getElem? hi))
    refine ⟨_, ?_, ?_, .writes hpc hi⟩
    · simp [AsyncLogging.threadFunc, hpc, hi, BufferPtr.deref]
    · exact ⟨h.current, h.next, h.buffers, ht.at _⟩

theorem Pool.resize (hpc : w.thread.pc = .resize) (now : Bytes) : Acts w now (w.threadFunc now) := by
  by_cases hlt : 2 < w.thread.buffersToWrite.length
  · have hstep : w.threadFunc now = .ok { w with thread := { w.thread with
        buffersToWrite := w.thread.buffersToWrite.take 2, pc := .refill1 } } := by
      simp [AsyncLogging.threadFunc, hpc, hlt]
    rw [hstep]
    exact h.goes (t := { w.thread with buffersToWrite := w.thread.buffersToWrite.take 2, pc := .refill1 }) hpc
      (ht.cut hlt .refill1) rfl rfl (.inl rfl)
  · have hstep : w.threadFunc now = .ok { w with thread := { w.thread with pc := .refill1 } } := by
      simp [AsyncLogging.threadFunc, hpc, hlt]
    rw [hstep]
    exact h.goes (t := { w.thread with pc := .refill1 }) hpc (ht.at .refill1) rfl rfl (.inl rfl)

theorem Pool.refill1 (hpc : w.thread.pc = .refill1) (now : Bytes) : Acts w now (w.threadFunc now) := by
  obtain ⟨ps, hr, hb⟩ := ht.refill
  have hstep : w.threadFunc now = .ok { w with thread := { w.thread with
      newBuffer1 := some .empty, buffersToWrite := ps, pc := .refill2 } } := by
    simp [AsyncLogging.threadFunc, hpc, hr]
  rw [hstep]
  exact h.goes hpc hb rfl rfl (.inl rfl)

end

theorem Pool.refill2 (h : Pool w) (ht : Refilled w.thread) (hpc : w.thread.pc = .refill2) (now : Bytes) :
    Acts w now (w.threadFunc now) := by
  obtain ⟨ps, hr⟩ := ht.refill
  have hstep : w.threadFunc now = .ok { w with thread := { w.thread with
      newBuffer2 := some .empty, buffersToWrite := ps, pc := .clear } } := by
    simp [AsyncLogging.threadFunc, hpc, hr]
  rw [hstep]
  exact h.goes (t := { w.thread with newBuffer2 := some .empty, buffersToWrite := ps, pc := .clear }) hpc
    ⟨ht.newBuffer1, rfl⟩ rfl rfl (.inl rfl)

theorem Pool.clear (h : Pool w) (ht : w.thread.newBuffer1 = some .empty ∧ w.thread.newBuffer2 = some .empty)
    (hpc : w.thread.pc = .clear) (now : Bytes) : Acts w now (w.threadFunc now) := by
  have hstep : w.threadFunc now = .ok { w with thread := { w.thread with buffersToWrite := [], pc := .loop } } := by
    simp [AsyncLogging.threadFunc, hpc]
  rw [hstep]
  exact h.goes (t := { w.thread with buffersToWrite := [], pc := .loop }) hpc ⟨ht.1, ht.2, rfl⟩ rfl rfl (.inl rfl)

theorem Pool.done (h : Pool w) (hpc : w.thread.pc = .done) (now : Bytes) : Acts w now (w.threadFunc now) := by
  have hstep : w.threadFunc now = .ok w := by simp [AsyncLogging.threadFunc, hpc]
  rw [hstep]
  exact h.goes hpc h.thread rfl (by rw [hpc]; rfl) (.inl (by rw [hpc]))

theorem Pool.acts (h : Pool w) (now : Bytes) : Acts w now (w.threadFunc now) := by
  have ht := h.thread
  unfold Backend at ht
  cases hpc : w.thread.pc <;> rw [hpc] at ht
  case loop => exact h.loop ht hpc now
  case lock => exact h.lock ht hpc now
  case wait => exact h.wait ht hpc now
  case drop => exact h.drop ht hpc now
  case write i => exact h.write ht hpc now
  case resize => exact h.resize ht hpc now
  case refill1 => exact h.refill1 ht hpc now
  case refill2 => exact h.refill2 ht hpc now
  case clear => exact h.clear ht hpc now
  case done => exact h.done hpc now

theorem Pool.running (h : Pool w) {now : Bytes} (hv : w.threadFunc now = .ok v) : v.running = w.running := by
  obtain ⟨u, hu, -, ht⟩ := h.acts now
  rw [hv] at hu
  cases hu
  exact ht.running

/-- No more than 25 buffers were taken. -/
def Moderate (w : AsyncLogging) : Prop := w.thread.pc = .drop → w.thread.buffersToWrite.length ≤ 25

/-- What a step of `threadFunc` keeps. -/
def Keeps (w : AsyncLogging) (x : Except Fault AsyncLogging) : Prop :=
  ∃ v, x = .ok v ∧ Pool v ∧ (Moderate w → v.logged = w.logged)

theorem Turn.logged {now : Bytes} (h : Pool w) (ht : Turn w now v) (hm : Moderate w) : v.logged = w.logged := by
  cases ht with
  | goes t hw hpc hl =>
    rw [AsyncLogging.logged, AsyncLogging.logged, Locals.unwritten_of hw, Locals.unwritten_of hpc]
  | takes ht hl => exact h.logged_take ht hl
  | keeps hpc hle => simp [AsyncLogging.logged, Locals.unwritten, hpc]
  | cuts hpc hlt => exact absurd (hm hpc) (Nat.not_le.mpr hlt)
  | @writes i b hpc hi =>
    obtain ⟨hlt, hget⟩ := List.getElem?_eq_some_iff.mp hi
    have hu : w.thread.unwritten = w.thread.buffersToWrite.drop i := by rw [Locals.unwritten, hpc]
    rw [AsyncLogging.logged, AsyncLogging.logged, hu, List.drop_eq_getElem_cons hlt, hget, Locals.unwritten]
    simp [contents]
  | ends hpc hi => simp [AsyncLogging.logged, Locals.unwritten, hpc, List.drop_eq_nil_of_le hi]

theorem Pool.threadFunc (h : Pool w) (now : Bytes) : Keeps w (w.threadFunc now) := by
  obtain ⟨v, hv, hp, ht⟩ := h.acts now
  exact ⟨v, hv, hp, fun hm => ht.logged h hm⟩

/-! ## Runs -/

instance (w : AsyncLogging) : Decidable w.Moderate := inferInstanceAs (Decidable (_ → _))

/-- The line that a label appends. -/
def Label.line : Label → Bytes
  | .append logline => logline
  | .stop | .threadFunc _ => []

theorem Pool.setRunning (h : Pool w) (b : Bool) : Pool { w with running := b } :=
  ⟨h.current, h.next, h.buffers, h.thread⟩

theorem Pool.total (h : Pool w) (l : Label) : ∃ v, w.step l = .ok v ∧ Pool v := by
  cases l with
  | append line =>
    obtain ⟨v, hv, hp, -⟩ := h.append line
    exact ⟨v, hv, hp⟩
  | stop => exact ⟨_, rfl, h.setRunning false⟩
  | threadFunc now =>
    obtain ⟨v, hv, hp, -⟩ := h.acts now
    exact ⟨v, hv, hp⟩

theorem pool_start : Pool {} := ⟨by simp, .inl rfl, by simp [Held], rfl, rfl, rfl⟩

theorem pool_of_run {ls : List Label} (h : run step {} ls = .ok w) : Pool w := by
  obtain ⟨v, hv, hp⟩ := run_total (fun _ l (hp : Pool _) => hp.total l) pool_start
  rw [h] at hv
  cases hv
  exact hp

theorem Pool.step (h : Pool w) {l : Label} (hlen : l.line.length < kLargeBuffer) (hm : Moderate w) :
    ∃ v, w.step l = .ok v ∧ Pool v ∧ v.logged = w.logged ++ l.line := by
  cases l with
  | append line =>
    obtain ⟨v, hv, hp, ha⟩ := h.append line
    refine ⟨v, hv, hp, ?_⟩
    have hf := ha.front
    rw [Label.line] at hlen ⊢
    rw [if_pos hlen, front, front] at hf
    rw [logged, logged, ha.output, ha.thread, List.append_assoc _ (contents v.buffers), hf]
    simp only [List.append_assoc]
  | stop =>
    refine ⟨_, rfl, h.setRunning false, ?_⟩
    rw [Label.line, List.append_nil]
    rfl
  | threadFunc now =>
    obtain ⟨v, hv, hp, hl⟩ := h.threadFunc now
    refine ⟨v, hv, hp, ?_⟩
    rw [hl hm, Label.line, List.append_nil]

theorem run_logged : ∀ {ls : List Label} {w : AsyncLogging}, Pool w → (∀ l ∈ ls, l.line.length < kLargeBuffer) →
    Meets step (fun w _ => w.Moderate) w ls →
    ∃ v, run step w ls = .ok v ∧ Pool v ∧ v.logged = w.logged ++ ls.flatMap Label.line
  | [], w, h, _, _ => ⟨w, rfl, h, by simp⟩
  | l :: ls, w, h, hlen, hm => by
    obtain ⟨hl, hlen⟩ := List.forall_mem_cons.mp hlen
    obtain ⟨u, hu, hp, hlog⟩ := h.step hl hm.1
    obtain ⟨v, hv, hp', hlog'⟩ := run_logged hp hlen (hm.2 u hu)
    refine ⟨v, (run_cons_ok step).mpr ⟨u, hu, hv⟩, hp', ?_⟩
    rw [hlog', hlog, List.flatMap_cons, List.append_assoc]

theorem Pool.locked (h : Pool w) (hpc : w.thread.pc = .lock ∨ w.thread.pc = .wait) : Ready w.thread := by
  have ht := h.thread
  unfold Backend at ht
  rcases hpc with hpc | hpc
  · rw [hpc] at ht
    exact ht
  · rw [hpc] at ht
    exact ht

/-- Whatever the interleaving of `append` and `threadFunc`, as long as the lines are shorter than a
buffer and no iteration takes more than 25 buffers: what was written, with what is still to be
written, are the lines in their order; and a buffer is empty when it becomes the current one. -/
theorem lines_written_in_order (ls : List Label) (hlen : ∀ line, .append line ∈ ls → line.length < kLargeBuffer)
    (hm : Meets step (fun w _ => w.Moderate) {} ls) :
    ∃ w, run step {} ls = .ok w ∧
      w.output ++ contents w.thread.unwritten ++ contents w.buffers ++ contents [w.currentBuffer] =
        ls.flatMap Label.line ∧
      (∀ b, w.nextBuffer = some b → b.data = []) ∧
      (w.thread.pc = .lock ∨ w.thread.pc = .wait →
        w.thread.newBuffer1 = some .empty ∧ w.thread.newBuffer2 = some .empty) := by
  have hlines : ∀ l ∈ ls, l.line.length < kLargeBuffer := by
    intro l hl
    cases l with
    | append line => exact hlen line hl
    | _ => exact Nat.zero_lt_succ _
  obtain ⟨w, hw, h, hlog⟩ := run_logged pool_start hlines hm
  refine ⟨w, hw, hlog, fun b hb => ?_, fun hpc => ?_⟩
  · rcases h.next with hn | ⟨hn, -⟩
    · rw [hn] at hb
      cases hb
      rfl
    · rw [hn] at hb
      cases hb
  · exact ⟨(h.locked hpc).newBuffer1, (h.locked hpc).newBuffer2⟩

/-- Two lines, the second while the first is being written. -/
theorem lines_written_in_order_two :
    ∃ w, run step {} [.threadFunc [], .append (ascii "a\n"), .threadFunc [], .threadFunc [], .append (ascii "b\n"),
        .threadFunc [], .threadFunc []] = .ok w ∧
      w.output = ascii "a\n" ∧
      w.output ++ contents w.thread.unwritten ++ contents w.buffers ++ contents [w.currentBuffer] = ascii "a\nb\n" := by
  have hlen : ∀ line, Label.append line ∈ [.threadFunc [], .append (ascii "a\n"), .threadFunc [], .threadFunc [],
      .append (ascii "b\n"), .threadFunc [], .threadFunc []] → line.length < kLargeBuffer := by
    intro line hline
    obtain rfl | rfl : line = ascii "a\n" ∨ line = ascii "b\n" := by simpa using hline
    all_goals decide
  obtain ⟨w, hw, hlog, -⟩ := lines_written_in_order _ hlen (by decide +kernel)
  obtain ⟨w', hw', he⟩ := ok_of_map (show (run step {} [.threadFunc [], .append (ascii "a\n"), .threadFunc [],
    .threadFunc [], .append (ascii "b\n"), .threadFunc [], .threadFunc []]).map (fun w => w.output) =
      .ok (ascii "a\n") by decide +kernel)
  obtain rfl : w = w' := by simpa using hw.symm.trans hw'
  exact ⟨w, hw, he, hlog⟩

end AsyncLogging

end Zhengqi
