import Zhengqi.AsyncLoggingSound
import Zhengqi.AsyncThreads
import Zhengqi.Lib.Section

/-!
# The pool of buffers, whenever the mutex is free

Statement by statement the threads do what they do section by section (`Refines`): the state of
`AsyncLogging` is the one at the last release of the mutex, with the steps since then that need no
lock. So the pool is in order at every release, and no assertion of `threadFunc` fails; and the
states at the releases are those of `AsyncLogging` (`released_iff`).
-/

namespace Zhengqi

open Run Section

namespace AsyncLogging

variable {w v x : AsyncLogging} {line now : Bytes}

theorem deref_ok {p : BufferPtr} {b : FixedBuffer kLargeBuffer} : p.deref = .ok b ↔ p = some b := by
  cases p with
  | none => simp [BufferPtr.deref]
  | some c => simp [BufferPtr.deref]

/-! ## The sections, from the lock to the release -/

theorem copy_ends {b : FixedBuffer kLargeBuffer} (h : w.currentBuffer = some b) :
    Ends (appendStmt line) w .copy { w with currentBuffer := some (b.append line) } := by
  apply Ends.next (l := .unlock)
  · rw [appendStmt, h]
    rfl
  · exact .last rfl

/-- In both branches `nextBuffer_` is null afterwards. -/
theorem appendStmt_next (line : Bytes) (w : AsyncLogging) : appendStmt line w .next =
    .ok ({ w with currentBuffer := some (w.nextBuffer.getD .empty), nextBuffer := none }, some .copy) := by
  rw [appendStmt]
  cases hn : w.nextBuffer with
  | none => rfl
  | some n => rfl

theorem append_ends (h : w.append line = .ok v) : Ends (appendStmt line) w .test v := by
  unfold AsyncLogging.append at h
  obtain ⟨b, hb, h⟩ := bind_ok.mp h
  have htest : appendStmt line w .test = .ok (w, some (if line.length < b.avail then .copy else .push)) := by
    rw [appendStmt, hb]
    rfl
  apply Ends.next htest
  rcases ite_ok h with ⟨ha, h⟩ | ⟨ha, h⟩
  · rw [if_pos ha]
    cases h
    exact copy_ends (deref_ok.mp hb)
  · rw [if_neg ha]
    cases h
    apply Ends.next (l := .next) rfl
    apply Ends.next (appendStmt_next ..)
    exact copy_ends rfl

theorem take_ends (w : AsyncLogging) : Ends takeStmt w .push w.take := by
  refine .next (l := .current) rfl (.next (l := .swap) rfl (.next (l := .next) rfl ?_))
  cases hn : w.nextBuffer with
  | none =>
    refine .next (l := .unlock) rfl (.last ?_)
    simp [takeStmt, take, hn]
  | some n =>
    refine .next (l := .unlock) rfl (.last ?_)
    simp [takeStmt, take, hn]

/-- The section ends with the wait, or it takes the buffers. -/
theorem lock_ends (hpc : w.thread.pc = .lock) (h : w.threadFunc now = .ok v) : Ends takeStmt w .test v := by
  rw [AsyncLogging.threadFunc, hpc] at h
  rcases ite_ok h with ⟨he, h⟩ | ⟨he, h⟩
  · cases h
    exact .last (if_pos he)
  · cases h
    exact .next (if_neg he) w.take_ends

theorem wait_ends (hpc : w.thread.pc = .wait) (h : w.threadFunc now = .ok v) : Ends takeStmt w .push v := by
  rw [AsyncLogging.threadFunc, hpc] at h
  cases h
  exact w.take_ends

/-! ## What the mutex does not guard -/

/-- `x`, with the members of `w` that the mutex does not guard. -/
def unlocked (w x : AsyncLogging) : AsyncLogging :=
  { x with running := w.running, thread := w.thread, output := w.output }

section
variable (w x : AsyncLogging)

@[simp] theorem unlocked_running : (w.unlocked x).running = w.running := rfl

@[simp] theorem unlocked_thread : (w.unlocked x).thread = w.thread := rfl

@[simp] theorem unlocked_currentBuffer : (w.unlocked x).currentBuffer = x.currentBuffer := rfl

@[simp] theorem unlocked_self : w.unlocked w = w := rfl

end

theorem frame_append (w : AsyncLogging) (line : Bytes) : Frame (appendStmt line) w.unlocked := by
  intro x pc
  cases pc with
  | next =>
    rw [appendStmt_next, appendStmt_next]
    rfl
  | test =>
    simp only [appendStmt, unlocked_currentBuffer, map_bind_eq]
    rfl
  | copy =>
    simp only [appendStmt, unlocked_currentBuffer, map_bind_eq]
    rfl
  | push => rfl
  | unlock => rfl

theorem append_unlocked (w x : AsyncLogging) (line : Bytes) :
    (w.unlocked x).append line = (x.append line).map w.unlocked := by
  rw [AsyncLogging.append, AsyncLogging.append, unlocked]
  cases x.currentBuffer with
  | none => rfl
  | some b =>
    simp only [BufferPtr.deref, ok_bind]
    split
    · rfl
    · rfl

/-- The members that the mutex does not guard stay as they are. -/
theorem append_agrees (h : w.append line = .ok v) : w.unlocked v = v := by
  have hu := append_unlocked w w line
  rw [unlocked_self, h] at hu
  exact (Except.ok.inj hu).symm

theorem append_running (h : w.append line = .ok v) (b : Bool) :
    { w with running := b }.append line = .ok { v with running := b } := by
  have hu := append_unlocked { w with running := b } w line
  rw [h] at hu
  rw [← append_agrees h]
  exact hu

theorem frame_take (b : Bool) : Frame takeStmt fun w => { w with running := b } := by
  intro x pc
  cases pc with
  | test =>
    simp only [takeStmt]
    split
    · rfl
    · rfl
  | next =>
    simp only [takeStmt]
    split
    · rfl
    · rfl
  | _ => rfl

/-- Behind the critical section `threadFunc` has to do with its own variables and the file only. -/
theorem threadFunc_unlocked (h : w.thread.pc.locking = false) (x : AsyncLogging) (now : Bytes) :
    (w.unlocked x).threadFunc now = (w.threadFunc now).map (·.unlocked x) := by
  unfold AsyncLogging.threadFunc
  cases hpc : w.thread.pc with
  | lock => rw [hpc] at h; cases h
  | wait => rw [hpc] at h; cases h
  | write i =>
    simp only [unlocked_thread, hpc]
    cases w.thread.buffersToWrite[i]? with
    | none => rfl
    | some p =>
      simp only [map_bind_eq]
      rfl
  | _ =>
    simp only [unlocked_thread, unlocked_running, hpc, map_bind_eq, apply_ite (Except.map fun v => unlocked v x)]
    rfl

/-- The critical section does not look at `running_`. -/
theorem threadFunc_running (h : w.thread.pc.locking = true) (b : Bool) (now : Bytes) :
    { w with running := b }.threadFunc now = (w.threadFunc now).map fun v => { v with running := b } := by
  unfold AsyncLogging.threadFunc
  cases hpc : w.thread.pc with
  | lock =>
    simp only [hpc, apply_ite (Except.map fun v : AsyncLogging => { v with running := b })]
    rfl
  | wait =>
    simp only [hpc]
    rfl
  | _ => rw [hpc] at h; cases h

namespace Threads

variable {s : Threads}

/-! ## The link to the atomic sections -/

/-- `w` is a state of `AsyncLogging`, which begins with `running_` set. -/
def Reached (stage : Stage) (w : AsyncLogging) : Prop :=
  ∃ ms, run AsyncLogging.step {} ms = .ok (if stage = .constructed then { w with running := true } else w)

/-- `w` is the object at the last release of the mutex, with what was done since then without it. -/
inductive Linked : Threads → AsyncLogging → Prop
  | free {stage : Stage} {w : AsyncLogging} : Linked ⟨stage, w, none⟩ w
  | append {stage : Stage} {u w v : AsyncLogging} {line : Bytes} {pc : AppendPc} (ha : w.unlocked u = u)
    (hv : w.append line = .ok v) (he : Ends (appendStmt line) u pc v) : Linked ⟨stage, u, some (.append line pc)⟩ w
  | threadFunc {stage : Stage} {u w v : AsyncLogging} {pc : TakePc} (hb : stage.begun = true)
    (hw : w.thread.pc.locking = true) (hu : u.thread.pc.locking = true) (hv : w.threadFunc [] = .ok v)
    (he : Ends takeStmt u pc v) : Linked ⟨stage, u, some (.threadFunc pc)⟩ w

structure Refines (s : Threads) (w : AsyncLogging) : Prop where
  reached : Reached s.stage w
  running : s.stage ≠ .constructed → s.stage ≠ .returned → w.running = true
  thread : s.stage.begun = false → w.thread = {}
  linked : Linked s w

/-- The next state refines one as well. -/
def Goes (x : Except Fault Threads) : Prop := ∃ t, x = .ok t ∧ ∃ w, Refines t w

theorem ne_constructed {stage : Stage} (h : stage.begun = true) : stage ≠ .constructed := by
  intro hs
  rw [hs] at h
  cases h

section
variable {stage stage' : Stage}

theorem Reached.pool (h : Reached stage w) : Pool w := by
  obtain ⟨ms, hms⟩ := h
  have hp := pool_of_run hms
  split at hp
  · exact ⟨hp.current, hp.next, hp.buffers, hp.thread⟩
  · exact hp

theorem Reached.setStage (h : Reached stage w) (hs : stage ≠ .constructed) (hn : stage' ≠ .constructed) :
    Reached stage' w := by
  unfold Reached at h ⊢
  rw [if_neg hs] at h
  rw [if_neg hn]
  exact h

theorem Reached.step {l : AsyncLogging.Label} (h : Reached stage w) (hs : stage ≠ .constructed)
    (hl : w.step l = .ok v) :
    Reached stage v := by
  obtain ⟨ms, hms⟩ := h
  rw [if_neg hs] at hms
  refine ⟨ms ++ [l], ?_⟩
  rw [if_neg hs, run_append, hms, ok_bind, run_cons, hl]
  rfl

/-- `append` may come before `start`. -/
theorem Reached.append (h : Reached stage w) (hv : w.append line = .ok v) : Reached stage v := by
  by_cases hs : stage = .constructed
  · obtain ⟨ms, hms⟩ := h
    rw [if_pos hs] at hms
    refine ⟨ms ++ [.append line], ?_⟩
    rw [if_pos hs, run_append, hms, ok_bind, run_cons, AsyncLogging.step, append_running hv]
    rfl
  · exact h.step (l := .append line) hs hv

end

/-! ## Steps without the mutex -/

section
variable (h : Linked s w)
include h

theorem Linked.agrees (hm : ∀ pc, s.mutex ≠ some (.threadFunc pc)) : w.unlocked s.log = s.log := by
  cases h with
  | free => rfl
  | append ha hv he => exact ha
  | threadFunc => exact absurd rfl (hm _)

theorem Linked.unlocked (hm : ∀ pc, s.mutex ≠ some (.threadFunc pc)) (u : AsyncLogging) :
    Linked { s with log := u.unlocked s.log } (u.unlocked w) := by
  cases h with
  | free => exact .free
  | append ha hv he =>
    refine .append rfl ?_ (he.frame (frame_append u _))
    rw [append_unlocked, hv]
    rfl
  | threadFunc => exact absurd rfl (hm _)

theorem Linked.setRunning (b : Bool) :
    Linked { s with log := { s.log with running := b } } { w with running := b } := by
  cases h with
  | free => exact .free
  | @append stage u _ v line pc ha hv he =>
    have h : Linked ⟨stage, u, some (.append line pc)⟩ w := .append ha hv he
    have hu := h.unlocked (fun _ => by simp) { w with running := b }
    rw [← ha]
    exact hu
  | threadFunc hb hw hu hv he =>
    refine .threadFunc hb hw hu ?_ (he.frame (frame_take b))
    rw [threadFunc_running hw, hv]
    rfl

theorem Linked.setStage {stage : Stage} (hs : s.stage.begun = true → stage.begun = true) :
    Linked { s with stage } w := by
  cases h with
  | free => exact .free
  | append ha hv he => exact .append ha hv he
  | threadFunc hb hw hu hv he => exact .threadFunc (hs hb) hw hu hv he

theorem Linked.eq_of_free (hm : s.mutex = none) : s.log = w := by
  cases h with
  | free => rfl
  | _ => cases hm

theorem Linked.not_threadFunc (hl : s.stage.begun = false ∨ s.log.thread.pc.locking = false) (pc : TakePc) :
    s.mutex ≠ some (.threadFunc pc) := by
  intro hm
  cases h with
  | threadFunc hb hw hu hv he => simp [hb, hu] at hl
  | _ => cases hm

end

theorem Refines.setStage {stage : Stage} (h : Refines s w) (hs : s.stage ≠ .constructed) (hn : stage ≠ .constructed)
    (hr : s.stage = .returned → stage = .returned) (hb : s.stage.begun = true → stage.begun = true) :
    Refines { s with stage } w := by
  refine ⟨h.reached.setStage hs hn, ?_, ?_, h.linked.setStage hb⟩
  · intro _ hne
    exact h.running hs fun he => hne (hr he)
  · intro hf
    apply h.thread
    cases hbs : s.stage.begun with
    | false => rfl
    | true =>
      rw [hb hbs] at hf
      cases hf

theorem Refines.start (h : Refines s w) : ∃ v, Refines s.start v := by
  unfold Threads.start
  cases hs : s.stage with
  | constructed =>
    refine ⟨{ w with running := true }, ?_, fun _ _ => rfl, fun _ => h.thread (by rw [hs]; rfl), ?_⟩
    · obtain ⟨ms, hms⟩ := h.reached
      rw [if_pos hs] at hms
      exact ⟨ms, hms⟩
    · apply (h.linked.setRunning true).setStage
      rw [hs]
      simp [Stage.begun]
  | running => exact ⟨w, h.setStage (by simp [hs]) (by simp) (by simp [hs]) (by simp [hs, Stage.begun])⟩
  | created => exact ⟨w, h⟩
  | counted => exact ⟨w, h.setStage (by simp [hs]) (by simp) (by simp [hs]) (by simp [Stage.begun])⟩
  | returned => exact ⟨w, h.setStage (by simp [hs]) (by simp) (by simp [hs]) (by simp [Stage.begun])⟩

theorem Refines.stop (h : Refines s w) : ∃ v, Refines s.stop v := by
  unfold Threads.stop
  split
  · rename_i hs
    have hreached : Reached s.stage { w with running := false } := h.reached.step (l := .stop) (by simp [hs]) rfl
    exact ⟨{ w with running := false }, hreached, fun _ hr => absurd hs hr, h.thread, h.linked.setRunning false⟩
  · exact ⟨w, h⟩

/-! ## The mutex -/

theorem Refines.lock {k : Holder} (h : Refines s w) (hk : s.log = w → Linked ⟨s.stage, w, some k⟩ w) :
    Refines (s.lock k) w := by
  unfold Threads.lock
  split
  · rename_i hm
    have hlog := h.linked.eq_of_free (Option.isNone_iff_eq_none.mp hm)
    refine ⟨h.reached, h.running, h.thread, ?_⟩
    rw [hlog]
    exact hk hlog
  · exact h

theorem Refines.append (h : Refines s w) (line : Bytes) : Refines (s.lock (.append line .test)) w := by
  obtain ⟨v, hv, -⟩ := h.reached.pool.append line
  exact h.lock fun _ => .append w.unlocked_self hv (append_ends hv)

theorem Refines.take {pc : TakePc} (h : Refines s w) (hs : s.stage.begun = true) (hl : s.log.thread.pc.locking = true)
    (he : ∀ v, s.log.threadFunc [] = .ok v → Ends takeStmt s.log pc v) : Refines (s.lock (.threadFunc pc)) w := by
  apply h.lock
  intro hw
  obtain ⟨v, hv, -⟩ := h.reached.pool.acts []
  rw [hw] at hl he
  exact .threadFunc hs hl hl hv (he v hv)

theorem takeStmt_pc {u : AsyncLogging} {pc pc' : TakePc} (h : takeStmt x pc = .ok (u, some pc')) :
    u.thread.pc = x.thread.pc := by
  cases pc with
  | test =>
    rcases ite_ok h with ⟨-, h⟩ | ⟨-, h⟩
    · cases h
    · cases h
      rfl
  | next =>
    rcases ite_ok h with ⟨-, h⟩ | ⟨-, h⟩
    · cases h
      rfl
    · cases h
      rfl
  | unlock => cases h
  | _ => cases h; rfl

/-- A statement goes on in the section, or it releases the mutex and the section was the atomic one. -/
theorem Refines.next (h : Refines s w) : Goes s.next := by
  obtain ⟨hreached, hrunning, hthread, hlinked⟩ := h
  cases hlinked with
  | free => exact ⟨_, rfl, w, hreached, hrunning, hthread, .free⟩
  | @append stage u _ v line pc ha hv he =>
    rcases he.first with hs | ⟨x, pc', hs, he⟩
    · have hav := append_agrees hv
      simp only [Threads.next, hs, ok_bind]
      refine ⟨_, rfl, v, hreached.append hv, ?_, ?_, .free⟩
      · rw [← hav]
        exact hrunning
      · rw [← hav]
        exact hthread
    · have hx := (frame_append w line).ok hs
      rw [ha, hs] at hx
      simp only [Threads.next, hs, ok_bind]
      refine ⟨_, rfl, w, hreached, hrunning, hthread, .append ?_ hv he⟩
      exact (Prod.mk.inj (Except.ok.inj hx)).1.symm
  | @threadFunc stage u _ v pc hb hw hu hv he =>
    rcases he.first with hs | ⟨x, pc', hs, he⟩
    · simp only [Threads.next, hs, ok_bind]
      refine ⟨_, rfl, v, hreached.step (l := .threadFunc []) (ne_constructed hb) hv, ?_, fun hf => ?_, .free⟩
      · rw [hreached.pool.running hv]
        exact hrunning
      · exact absurd hb (by rw [hf]; decide)
    · simp only [Threads.next, hs, ok_bind]
      refine ⟨_, rfl, w, hreached, hrunning, hthread, .threadFunc hb hw ?_ hv he⟩
      rw [takeStmt_pc hs]
      exact hu

/-! ## `threadFunc` -/

theorem Refines.begins (h : Refines s w) (hs : s.stage = .created) (now : Bytes) : Goes (s.threadFunc now) := by
  have hb : s.stage.begun = false := by rw [hs]; rfl
  have ha := h.linked.agrees (h.linked.not_threadFunc (.inl hb))
  have hr : s.log.running = true := by
    rw [← ha]
    exact h.running (by simp [hs]) (by simp [hs])
  have ht : { s.log with thread := {} } = s.log := by
    rw [← ha, ← h.thread hb]
    rfl
  unfold Threads.threadFunc
  simp only [hs, check_of hr, ok_bind, ht]
  exact ⟨_, rfl, w, h.setStage (by simp [hs]) (by simp) (by simp [hs]) (by simp [Stage.begun])⟩

section
variable (h : Refines s w) (hs : s.stage.begun = true)
include h hs

/-- Outside of its critical section `threadFunc` does the same with the object as it is and as it
was at the last release. -/
theorem Refines.acts (hl : s.log.thread.pc.locking = false) (now : Bytes) :
    ∃ u, s.log.threadFunc now = .ok u ∧ ∃ v, Refines { s with log := u } v := by
  have hm := h.linked.not_threadFunc (.inr hl)
  have ha := h.linked.agrees hm
  have hw : w.thread.pc.locking = false := by
    rw [← ha] at hl
    exact hl
  obtain ⟨v, hv, -⟩ := h.reached.pool.acts now
  have hvw : v.unlocked w = v := by
    have hsame := threadFunc_unlocked hw w now
    rw [unlocked_self, hv] at hsame
    exact (Except.ok.inj hsame).symm
  have hlinked := h.linked.unlocked hm v
  rw [hvw] at hlinked
  refine ⟨v.unlocked s.log, ?_, v, ?_, ?_, fun hf => ?_, hlinked⟩
  · rw [← ha, threadFunc_unlocked hw, hv]
    rfl
  · exact h.reached.step (l := .threadFunc now) (ne_constructed hs) hv
  · rw [h.reached.pool.running hv]
    exact h.running
  · exact absurd hs (by rw [hf]; decide)

theorem Refines.loop (now : Bytes) : Goes (s.loop now) := by
  unfold Threads.loop
  cases hpc : s.log.thread.pc with
  | lock => exact ⟨_, rfl, w, h.take hs (by rw [hpc]; rfl) fun v hv => lock_ends hpc hv⟩
  | wait => exact ⟨_, rfl, w, h.take hs (by rw [hpc]; rfl) fun v hv => wait_ends hpc hv⟩
  | _ =>
    obtain ⟨u, hu, hv⟩ := h.acts hs (by rw [hpc]; rfl) now
    simp only [hu, ok_bind]
    exact ⟨_, rfl, hv⟩

end

theorem Refines.threadFunc (h : Refines s w) (now : Bytes) : Goes (s.threadFunc now) := by
  cases hs : s.stage with
  | created => exact h.begins hs now
  | counted =>
    rw [Threads.threadFunc, hs]
    exact h.loop (by rw [hs]; rfl) now
  | returned =>
    rw [Threads.threadFunc, hs]
    exact h.loop (by rw [hs]; rfl) now
  | _ =>
    rw [Threads.threadFunc, hs]
    exact ⟨s, rfl, w, h⟩

/-! ## Runs -/

theorem Refines.step (h : Refines s w) (l : Label) : Goes (s.step l) := by
  cases l with
  | start => exact ⟨_, rfl, h.start⟩
  | stop => exact ⟨_, rfl, h.stop⟩
  | append line => exact ⟨_, rfl, w, h.append line⟩
  | next => exact h.next
  | threadFunc now => exact h.threadFunc now

theorem run_refines (ls : List Label) : ∃ s, run step {} ls = .ok s ∧ ∃ w, Refines s w := by
  apply run_total (I := fun s => ∃ w, Refines s w)
  · rintro s l ⟨w, h⟩
    exact h.step l
  · exact ⟨{ running := false }, ⟨[], rfl⟩, fun hc => absurd rfl hc, fun _ => rfl, .free⟩

theorem Refines.backend (h : Refines s w) (hl : s.log.thread.pc.locking = false) : Backend s.log.thread := by
  rw [← h.linked.agrees (h.linked.not_threadFunc (.inr hl))]
  exact h.reached.pool.thread

/-! ## The other direction -/

theorem run_append_section {pc : AppendPc} (h : Ends (appendStmt line) w pc v) (stage : Stage) :
    ∃ n, run step ⟨stage, w, some (.append line pc)⟩ (List.replicate n .next) = .ok ⟨stage, v, none⟩ := by
  apply h.run step .next fun u pc => ⟨stage, u, pc.map (.append line)⟩
  intro u pc x m hx
  simp only [Threads.step, Threads.next, Option.map_some, hx, ok_bind, pure_eq_ok]

theorem run_take_section {pc : TakePc} (h : Ends takeStmt w pc v) (stage : Stage) :
    ∃ n, run step ⟨stage, w, some (.threadFunc pc)⟩ (List.replicate n .next) = .ok ⟨stage, v, none⟩ := by
  apply h.run step .next fun u pc => ⟨stage, u, pc.map .threadFunc⟩
  intro u pc x m hx
  simp only [Threads.step, Threads.next, Option.map_some, hx, ok_bind, pure_eq_ok]

/-- A section that nobody interrupts. -/
theorem run_step {l : AsyncLogging.Label} (h : w.step l = .ok v) :
    ∃ ls, run step ⟨.returned, w, none⟩ ls = .ok ⟨.returned, v, none⟩ := by
  cases l with
  | append line =>
    obtain ⟨n, hn⟩ := run_append_section (append_ends h) .returned
    exact ⟨.append line :: List.replicate n .next, hn⟩
  | stop =>
    cases h
    exact ⟨[.stop], rfl⟩
  | threadFunc now =>
    cases hpc : w.thread.pc with
    | lock =>
      obtain ⟨n, hn⟩ := run_take_section (lock_ends hpc h) .returned
      refine ⟨.threadFunc now :: List.replicate n .next, ?_⟩
      rw [run_cons, ← hn, Threads.step, Threads.threadFunc, Threads.loop, hpc]
      rfl
    | wait =>
      obtain ⟨n, hn⟩ := run_take_section (wait_ends hpc h) .returned
      refine ⟨.threadFunc now :: List.replicate n .next, ?_⟩
      rw [run_cons, ← hn, Threads.step, Threads.threadFunc, Threads.loop, hpc]
      rfl
    | _ =>
      refine ⟨[.threadFunc now], ?_⟩
      simp only [run_cons, Threads.step, Threads.threadFunc, Threads.loop, hpc]
      rw [show w.threadFunc now = .ok v from h]
      rfl

/-- With the mutex free, the object is in a state of `AsyncLogging`, and gets to each of them. -/
theorem released_iff (w : AsyncLogging) :
    (∃ ls, run step {} ls = .ok ⟨.returned, w, none⟩) ↔ ∃ ms, run AsyncLogging.step {} ms = .ok w := by
  constructor
  · rintro ⟨ls, hls⟩
    obtain ⟨s, hs, v, h⟩ := run_refines ls
    rw [hls] at hs
    cases hs
    obtain ⟨ms, hms⟩ := h.reached
    have hw : w = v := h.linked.eq_of_free rfl
    exact ⟨ms, hw ▸ hms⟩
  · rintro ⟨ms, hms⟩
    have hI : ∃ ls, run step {} ls = .ok ⟨.returned, {}, none⟩ := ⟨[.start, .start, .threadFunc [], .start], rfl⟩
    refine run_inv (I := fun w => ∃ ls, run step {} ls = .ok ⟨.returned, w, none⟩) ?_ hI hms
    rintro w l v ⟨ls, hls⟩ hl
    obtain ⟨ks, hks⟩ := run_step hl
    exact ⟨ls ++ ks, (run_append_ok step).mpr ⟨_, hls, hks⟩⟩

end Threads

/-- Whatever the threads do between two statements, the iterations that discard buffers included:
no assertion of `threadFunc` fails and no null pointer is followed. Whenever the mutex is free,
`currentBuffer_` is not null, and `nextBuffer_` is only where `buffers_` holds something; every
iteration begins with two empty buffers and nothing to write; and a buffer is there for each that
has to be filled again. -/
theorem pool_invariant (ls : List Threads.Label) :
    ∃ s, run Threads.step {} ls = .ok s ∧
      (s.mutex = none → s.log.currentBuffer ≠ none ∧ (s.log.nextBuffer = none → s.log.buffers ≠ [])) ∧
      (s.log.thread.pc = .loop →
        (∃ b, s.log.thread.newBuffer1 = some b ∧ b.length = 0) ∧
        (∃ b, s.log.thread.newBuffer2 = some b ∧ b.length = 0) ∧ s.log.thread.buffersToWrite = []) ∧
      (s.log.thread.pc = .refill1 → s.log.thread.newBuffer1 = none → s.log.thread.buffersToWrite ≠ []) ∧
      (s.log.thread.pc = .refill2 → s.log.thread.newBuffer2 = none → s.log.thread.buffersToWrite ≠ []) := by
  obtain ⟨s, hs, w, h⟩ := Threads.run_refines ls
  refine ⟨s, hs, fun hm => ?_, fun hpc => ?_, fun hpc _ => ?_, fun hpc hn => ?_⟩
  · rw [h.linked.eq_of_free hm]
    have hp := h.reached.pool
    refine ⟨hp.current, fun hn => ?_⟩
    rcases hp.next with he | ⟨-, hne⟩
    · rw [hn] at he
      cases he
    · exact hne
  · have hb := h.backend (by rw [hpc]; rfl)
    rw [Backend, hpc] at hb
    exact ⟨⟨_, hb.newBuffer1, rfl⟩, ⟨_, hb.newBuffer2, rfl⟩, hb.buffersToWrite⟩
  · have hb := h.backend (by rw [hpc]; rfl)
    rw [Backend, hpc] at hb
    exact hb.nonempty
  · have hb := h.backend (by rw [hpc]; rfl)
    rw [Backend, hpc] at hb
    rcases hb.newBuffer2 with he | ⟨-, hne⟩
    · rw [hn] at he
      cases he
    · exact hne

/-- A call of `append` by which `currentBuffer_` goes to `buffers_`. -/
def Threads.filling (line : Bytes) : List Threads.Label := [.append line, .next, .next, .next, .next, .next]

theorem Threads.run_filling {s : Threads} (hline : kLargeBuffer ≤ line.length) (hm : s.mutex = none)
    (hc : s.log.currentBuffer = some .empty) (hn : s.log.nextBuffer.getD .empty = .empty) :
    run Threads.step s (filling line) =
      .ok { s with log := { s.log with buffers := s.log.buffers ++ [some .empty], nextBuffer := none } } := by
  have hlen : ¬ line.length < (FixedBuffer.empty : FixedBuffer kLargeBuffer).avail := Nat.not_lt.mpr hline
  have hcopy : (FixedBuffer.empty : FixedBuffer kLargeBuffer).append line = .empty := FixedBuffer.append_of_le hline
  have hlock : s.step (.append line) = .ok { s with mutex := some (.append line .test) } := by
    rw [Threads.step, Threads.lock, hm]
    rfl
  have htest : s.log.appendStmt line .test = .ok (s.log, some .push) := by
    rw [appendStmt, hc, BufferPtr.deref, ok_bind, if_neg hlen]
    rfl
  have hpush : s.log.appendStmt line .push =
      .ok ({ s.log with buffers := s.log.buffers ++ [some .empty], currentBuffer := none }, some .next) := by
    rw [appendStmt, hc]
    rfl
  rw [filling, run_cons, hlock, ok_bind]
  simp only [run_cons, run_nil, Threads.step, Threads.next, htest, hpush, appendStmt_next, hn, ok_bind, pure_eq_ok,
    Option.map_some]
  -- the line is too long for the buffer that was taken, too
  simp only [appendStmt, BufferPtr.deref, ok_bind, pure_eq_ok, Option.map_some, Option.map_none, hcopy]
  rw [hm, hc]

/-- Nobody takes the buffers before `start`. -/
theorem Threads.run_fillings (hline : kLargeBuffer ≤ line.length) (n : Nat) :
    run Threads.step {} (List.replicate (n + 1) (filling line)).flatten =
      .ok { log := { running := false, nextBuffer := none, buffers := List.replicate (n + 1) (some .empty) } } := by
  induction n with
  | zero => exact run_filling hline rfl rfl rfl
  | succ n ih =>
    rw [List.replicate_succ' (n := n + 1), List.flatten_append, run_append, ih, ok_bind, List.flatten_singleton,
      run_filling hline rfl rfl rfl, List.replicate_succ' (n := n + 1)]

/-- From `start` to the second refill of the first iteration. -/
def Threads.firstIteration : List Threads.Label :=
  [.start, .start, .threadFunc [], .start, .threadFunc [], .threadFunc []] ++ List.replicate 6 .next ++
    List.replicate 6 (.threadFunc [])

/-- 27 buffers are taken and all but two of them discarded: one for `newBuffer1`, and one for
`newBuffer2` since `nextBuffer_` was null. -/
theorem pool_invariant_discards :
    ∃ s, run Threads.step {} ((List.replicate 26 (Threads.filling (List.replicate kLargeBuffer 0))).flatten ++
        Threads.firstIteration) = .ok s ∧
      s.log.thread.pc = .refill2 ∧ s.log.thread.newBuffer2 = none ∧ s.log.output ≠ [] ∧
      s.log.thread.buffersToWrite ≠ [] := by
  have hline : kLargeBuffer ≤ (List.replicate kLargeBuffer (0 : Byte)).length := Nat.le_of_eq List.length_replicate.symm
  obtain ⟨s, hs, -, -, -, h⟩ := pool_invariant
    ((List.replicate 26 (Threads.filling (List.replicate kLargeBuffer 0))).flatten ++ Threads.firstIteration)
  obtain ⟨t, ht, he⟩ := ok_of_map (show (run Threads.step { log := {
      running := false, nextBuffer := none, buffers := List.replicate 26 (some .empty) } } Threads.firstIteration).map
        (fun s => (s.log.thread.pc, s.log.thread.newBuffer2.isNone, s.log.output.isEmpty)) = .ok (.refill2, true, false)
    by decide +kernel)
  have hst : s = t := by
    rw [run_append, Threads.run_fillings hline 25, ok_bind, ht] at hs
    exact (Except.ok.inj hs).symm
  obtain ⟨hpc, hn, ho⟩ : s.log.thread.pc = .refill2 ∧ s.log.thread.newBuffer2 = none ∧ s.log.output ≠ [] := by
    simpa [hst] using he
  exact ⟨s, hs, hpc, hn, ho, h hpc hn⟩

end AsyncLogging

end Zhengqi
