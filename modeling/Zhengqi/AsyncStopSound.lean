import Mathlib.Algebra.Order.BigOperators.Group.List
import Mathlib.Algebra.Order.Group.Nat
import Zhengqi.AsyncLoggingSound

/-!
# What `stop` leaves behind

`threadFunc` looks at `running_` before its critical section, so it takes the buffers once more
only where `stop` finds it between the two. `Record` is what becomes of a buffer that was taken,
and `stop_flushes_iff` says when the lines appended before `stop` were all taken.
-/

namespace Zhengqi

open Run

namespace AsyncLogging

variable {w v : AsyncLogging}

/-! ## Records -/

/-- What an iteration decides: the message that buffers were dropped, a buffer that is written, and
one that is not since more than 25 were taken. -/
inductive Record
  | message (text : Bytes)
  | written (data : Bytes)
  | discarded (data : Bytes)
  deriving DecidableEq, Repr

/-- The bytes that go to `output.append`. -/
def Record.output : Record → Bytes
  | .message text => text
  | .written data => data
  | .discarded _ => []

/-- The bytes that were logged. -/
def Record.lines : Record → Bytes
  | .message _ => []
  | .written data => data
  | .discarded data => data

def record (w : AsyncLogging) : Label → List Record
  | .threadFunc now =>
    match w.thread.pc with
    | .drop =>
      let buffers := w.thread.buffersToWrite
      if 25 < buffers.length then
        .message (dropped now buffers.length) ::
          ((buffers.take 2).map (fun p => .written (contents [p])) ++
            (buffers.drop 2).map fun p => .discarded (contents [p]))
      else buffers.map fun p => .written (contents [p])
    | _ => []
  | .append _ | .stop => []

def records : AsyncLogging → List Label → List Record
  | _, [] => []
  | w, l :: ls =>
    w.record l ++
      match w.step l with
      | .ok v => records v ls
      | .error _ => []

theorem records_cons {l : Label} {ls : List Label} (h : w.step l = .ok v) :
    w.records (l :: ls) = w.record l ++ v.records ls := by
  rw [records, h]

theorem records_append {ls ms : List Label} (h : run step w ls = .ok v) :
    w.records (ls ++ ms) = w.records ls ++ v.records ms := by
  induction ls generalizing w with
  | nil => cases h; rfl
  | cons l ls ih =>
    obtain ⟨u, hu, hr⟩ := (run_cons_ok step).mp h
    rw [List.cons_append, records_cons hu, records_cons hu, ih hr, List.append_assoc]

theorem record_of_not_writing (h : w.thread.pc.writing = false) (l : Label) : w.record l = [] := by
  cases l with
  | threadFunc now =>
    unfold record
    cases hpc : w.thread.pc with
    | drop => rw [hpc] at h; cases h
    | _ => rfl
  | _ => rfl

theorem record_of_write {i : Nat} (h : w.thread.pc = .write i) (l : Label) : w.record l = [] := by
  cases l with
  | threadFunc now => simp only [record, h]
  | _ => rfl

theorem contents_map_written (ps : List BufferPtr) :
    (ps.map fun p => Record.written (contents [p])).flatMap Record.output = contents ps ∧
      (ps.map fun p => Record.written (contents [p])).flatMap Record.lines = contents ps := by
  simp [List.flatMap_map, Record.output, Record.lines, contents]

theorem contents_map_discarded (ps : List BufferPtr) :
    (ps.map fun p => Record.discarded (contents [p])).flatMap Record.output = [] ∧
      (ps.map fun p => Record.discarded (contents [p])).flatMap Record.lines = contents ps := by
  simp [List.flatMap_map, Record.output, Record.lines, contents]

/-! ## Every byte is accounted for -/

/-- The buffers that were taken and not decided about. -/
def Locals.taken (t : Locals) : List BufferPtr := if t.pc = .drop then t.buffersToWrite else []

/-- The buffers that were decided about and have still to be written. -/
def Locals.kept (t : Locals) : List BufferPtr :=
  match t.pc with
  | .write i => t.buffersToWrite.drop i
  | _ => []

theorem Locals.taken_of {t : Locals} (h : t.pc.writing = false) : t.taken = [] := by
  refine if_neg fun hpc => ?_
  rw [hpc] at h
  cases h

theorem Locals.kept_of {t : Locals} (h : t.pc.writing = false) : t.kept = [] := by
  unfold Locals.kept
  cases hpc : t.pc with
  | write i => rw [hpc] at h; cases h
  | _ => rfl

theorem Locals.kept_write {t : Locals} {i : Nat} (h : t.pc = .write i) : t.kept = t.buffersToWrite.drop i := by
  rw [Locals.kept, h]

theorem Locals.kept_drop {t : Locals} (h : t.pc = .drop) : t.kept = [] := by rw [Locals.kept, h]

theorem Locals.taken_write {t : Locals} {i : Nat} (h : t.pc = .write i) : t.taken = [] := by simp [Locals.taken, h]

/-- The lines that the back end has taken. -/
def gone (w : AsyncLogging) (rs : List Record) : Bytes := rs.flatMap Record.lines ++ contents w.thread.taken

/-- The lines as the logger has got them. -/
def received (w : AsyncLogging) (rs : List Record) : Bytes := w.gone rs ++ w.front

structure Accounts (w : AsyncLogging) (rs : List Record) (lines : Bytes) : Prop where
  output : rs.flatMap Record.output = w.output ++ contents w.thread.kept
  lines : w.gone rs ++ w.front = lines

/-- Every buffer that was taken is decided about, and those that are kept have still to be written. -/
theorem Accounts.decides {rs rs' : List Record} {lines : Bytes} {i : Nat} (ha : Accounts w rs lines)
    (hpc : w.thread.pc = .drop) (hlines : rs'.flatMap Record.lines = contents w.thread.buffersToWrite)
    (hout : w.output ++ rs'.flatMap Record.output = v.output ++ contents v.thread.kept) (hv : v.thread.pc = .write i)
    (hfront : v.front = w.front) : Accounts v (rs ++ rs') lines := by
  obtain ⟨ho, hl⟩ := ha
  rw [Locals.kept_drop hpc, contents_nil, List.append_nil] at ho
  rw [gone, Locals.taken, if_pos hpc] at hl
  constructor
  · rw [List.flatMap_append, ho, hout]
  · rw [gone, Locals.taken_write hv, List.flatMap_append, hlines, hfront, ← hl, contents_nil, List.append_nil]

section
variable {rs : List Record} {lines now : Bytes} (h : Pool w) (ha : Accounts w rs lines)
include h ha

theorem Turn.accounts (ht : Turn w now v) : Accounts v (rs ++ w.record (.threadFunc now)) lines := by
  have ho := ha.output
  have hl := ha.lines
  rw [gone, front] at hl
  cases ht with
  | goes t hw ht hin =>
    rw [record_of_not_writing hw, List.append_nil]
    rw [Locals.kept_of hw] at ho
    rw [Locals.taken_of hw] at hl
    exact ⟨by rw [Locals.kept_of ht]; exact ho, by rw [gone, front, Locals.taken_of ht]; exact hl⟩
  | takes ht hin =>
    have hw := Pc.writing_of_locking hin
    obtain ⟨q, -, htake⟩ := h.take_eq ht
    rw [record_of_not_writing hw, List.append_nil, htake]
    rw [Locals.kept_of hw] at ho
    rw [Locals.taken_of hw] at hl
    refine ⟨ho, ?_⟩
    rw [← hl]
    simp [gone, front, Locals.taken, contents]
  | keeps hpc hle =>
    have hr : w.record (.threadFunc now) = w.thread.buffersToWrite.map fun p => .written (contents [p]) := by
      simp [record, hpc, Nat.not_lt.mpr hle]
    obtain ⟨hout, hlines⟩ := contents_map_written w.thread.buffersToWrite
    rw [hr]
    apply ha.decides hpc hlines
    · rw [hout]
      rfl
    · rfl
    · rfl
  | cuts hpc hlt =>
    have hr : w.record (.threadFunc now) = .message (dropped now w.thread.buffersToWrite.length) ::
        ((w.thread.buffersToWrite.take 2).map (fun p => .written (contents [p])) ++
          (w.thread.buffersToWrite.drop 2).map fun p => .discarded (contents [p])) := by
      simp [record, hpc, hlt]
    obtain ⟨hout, hlines⟩ := contents_map_written (w.thread.buffersToWrite.take 2)
    obtain ⟨hout', hlines'⟩ := contents_map_discarded (w.thread.buffersToWrite.drop 2)
    rw [hr]
    apply ha.decides hpc
    · rw [List.flatMap_cons, List.flatMap_append, hlines, hlines', ← contents_append, List.take_append_drop]
      rfl
    · rw [List.flatMap_cons, List.flatMap_append, hout, hout', List.append_nil, ← List.append_assoc]
      rfl
    · rfl
    · rfl
  | @writes i b hpc hi =>
    obtain ⟨hlt, hget⟩ := List.getElem?_eq_some_iff.mp hi
    rw [record_of_write hpc, List.append_nil]
    rw [Locals.kept_write hpc] at ho
    rw [Locals.taken_write hpc] at hl
    constructor
    · rw [ho, List.drop_eq_getElem_cons hlt, hget, Locals.kept_write rfl]
      simp [contents]
    · rw [← hl, gone, front, Locals.taken_write rfl]
  | @ends i hpc hi =>
    rw [record_of_write hpc, List.append_nil]
    rw [Locals.kept_write hpc, List.drop_eq_nil_of_le hi] at ho
    rw [Locals.taken_write hpc] at hl
    exact ⟨ho, hl⟩

end

/-- The front end is emptied in the critical section only, and `threadFunc` comes to it only with `running_`. -/
theorem Turn.front {now : Bytes} (h : Pool w) (ht : Turn w now v) :
    v.running = w.running ∧
    (v.front = w.front ∧ (v.thread.pc.locking = w.thread.pc.locking ∨ w.running = true ∧ w.thread.pc.locking = false) ∨
      w.thread.pc.locking = true ∧ v.front = []) := by
  cases ht with
  | goes t hw ht hin => exact ⟨rfl, .inl ⟨rfl, hin⟩⟩
  | takes ht hin =>
    obtain ⟨q, -, htake⟩ := h.take_eq ht
    rw [htake]
    exact ⟨rfl, .inr ⟨hin, rfl⟩⟩
  | keeps hpc hle => exact ⟨rfl, .inl ⟨rfl, .inl (by rw [hpc]; rfl)⟩⟩
  | cuts hpc hlt => exact ⟨rfl, .inl ⟨rfl, .inl (by rw [hpc]; rfl)⟩⟩
  | writes hpc hi => exact ⟨rfl, .inl ⟨rfl, .inl (by rw [hpc]; rfl)⟩⟩
  | ends hpc hi => exact ⟨rfl, .inl ⟨rfl, .inl (by rw [hpc]; rfl)⟩⟩

/-! ## Runs -/

/-- A line as it is stored. -/
def Label.stored (l : Label) : Bytes := if l.line.length < kLargeBuffer then l.line else []

section
variable {rs : List Record} {lines : Bytes} (h : Pool w) (ha : Accounts w rs lines)
include h ha

theorem Pool.accounted (l : Label) :
    ∃ v, w.step l = .ok v ∧ Pool v ∧ Accounts v (rs ++ w.record l) (lines ++ l.stored) := by
  obtain ⟨ho, hl⟩ := ha
  cases l with
  | append line =>
    obtain ⟨v, hv, hp, happ⟩ := h.append line
    refine ⟨v, hv, hp, ?_⟩
    rw [record, List.append_nil]
    constructor
    · rw [ho, happ.output, happ.thread]
    · rw [gone, happ.thread, happ.front, ← List.append_assoc, ← hl]
      rfl
  | stop =>
    refine ⟨_, rfl, h.setRunning false, ?_⟩
    rw [record, List.append_nil, Label.stored, Label.line, ite_self, List.append_nil]
    exact ⟨ho, hl⟩
  | threadFunc now =>
    obtain ⟨v, hv, hp, ht⟩ := h.acts now
    refine ⟨v, hv, hp, ?_⟩
    rw [Label.stored, Label.line, ite_self, List.append_nil]
    exact ht.accounts h ⟨ho, hl⟩

/-- What a step makes of the lines that were taken. -/
theorem Pool.step_gone {l : Label} (hs : w.step l = .ok v) :
    (w.running = false → v.running = false) ∧
    (v.gone (rs ++ w.record l) = w.gone rs ∧
        (v.thread.pc.locking = w.thread.pc.locking ∨ w.running = true ∧ w.thread.pc.locking = false) ∨
      w.thread.pc.locking = true ∧ v.gone (rs ++ w.record l) = lines) := by
  cases l with
  | append line =>
    obtain ⟨v', hv, -, happ⟩ := h.append line
    obtain rfl : v' = v := Except.ok.inj (hv.symm.trans hs)
    rw [happ.running, record, List.append_nil, gone, happ.thread]
    exact ⟨id, .inl ⟨rfl, .inl rfl⟩⟩
  | stop =>
    cases hs
    rw [record, List.append_nil]
    exact ⟨fun _ => rfl, .inl ⟨rfl, .inl rfl⟩⟩
  | threadFunc now =>
    obtain ⟨v', hv, -, ht⟩ := h.acts now
    obtain rfl : v' = v := Except.ok.inj (hv.symm.trans hs)
    have hl := (ht.accounts h ha).lines
    obtain ⟨hr, ⟨hf, hin⟩ | ⟨hin, hf⟩⟩ := ht.front h
    · rw [hf, ← ha.lines] at hl
      exact ⟨fun hn => hr.trans hn, .inl ⟨List.append_cancel_right hl, hin⟩⟩
    · rw [hf, List.append_nil] at hl
      exact ⟨fun hn => hr.trans hn, .inr ⟨hin, hl⟩⟩

end

/-- What is kept by a step, with the records and the lines that are stored, is kept by a run. -/
theorem run_accounts {I : AsyncLogging → List Record → Bytes → Prop}
    (hI : ∀ w rs lines l v, Pool w → Accounts w rs lines → I w rs lines → w.step l = .ok v →
      I v (rs ++ w.record l) (lines ++ l.stored)) (ls : List Label) :
    ∀ {w : AsyncLogging} {rs : List Record} {lines : Bytes}, Pool w → Accounts w rs lines → I w rs lines →
      ∃ v, run step w ls = .ok v ∧ Pool v ∧ Accounts v (rs ++ w.records ls) (lines ++ ls.flatMap Label.stored) ∧
        I v (rs ++ w.records ls) (lines ++ ls.flatMap Label.stored) := by
  induction ls with
  | nil =>
    intro w rs lines h ha hi
    simp only [records, List.flatMap_nil, List.append_nil]
    exact ⟨w, rfl, h, ha, hi⟩
  | cons l ls ih =>
    intro w rs lines h ha hi
    obtain ⟨u, hu, hp, hau⟩ := h.accounted ha l
    obtain ⟨v, hv, hpv, hav, hiv⟩ := ih hp hau (hI w rs lines l u h ha hi hu)
    rw [records_cons hu, List.flatMap_cons, ← List.append_assoc, ← List.append_assoc]
    exact ⟨v, (run_cons_ok step).mpr ⟨u, hu, hv⟩, hpv, hav, hiv⟩

/-- The lines `ls` were taken, or the critical section is ahead. -/
def Safe (ls : Bytes) (w : AsyncLogging) (rs : List Record) (lines : Bytes) : Prop :=
  ls <+: w.gone rs ∨ w.thread.pc.locking = true ∧ ls <+: lines

/-- Without `running_` and behind the critical section no line is taken any more. -/
def Lost (ls : Bytes) (w : AsyncLogging) (rs : List Record) : Prop :=
  w.running = false ∧ w.thread.pc.locking = false ∧ w.gone rs = ls

section
variable {rs : List Record} {lines ls : Bytes} {l : Label} (h : Pool w) (ha : Accounts w rs lines)
  (hs : w.step l = .ok v)
include h ha hs

theorem Safe.step (hsafe : Safe ls w rs lines) : Safe ls v (rs ++ w.record l) (lines ++ l.stored) := by
  obtain ⟨-, ⟨hg, hin⟩ | ⟨hin, hg⟩⟩ := h.step_gone ha hs
  · rcases hsafe with hp | ⟨hl, hp⟩
    · left
      rw [hg]
      exact hp
    · rcases hin with hin | ⟨-, hin⟩
      · exact .inr ⟨hin.trans hl, hp.trans (List.prefix_append ..)⟩
      · rw [hl] at hin
        cases hin
  · left
    rw [hg]
    rcases hsafe with hp | ⟨-, hp⟩
    · rw [← ha.lines]
      exact hp.trans (List.prefix_append ..)
    · exact hp

theorem Lost.step (hlost : Lost ls w rs) : Lost ls v (rs ++ w.record l) := by
  obtain ⟨hr, hpc, hg⟩ := hlost
  obtain ⟨hrun, ⟨hsame, hin⟩ | ⟨hin, -⟩⟩ := h.step_gone ha hs
  · refine ⟨hrun hr, ?_, hsame.trans hg⟩
    rcases hin with hin | ⟨hin, -⟩
    · exact hin.trans hpc
    · rw [hr] at hin
      cases hin
  · rw [hpc] at hin
    cases hin

end

theorem Accounts.output_done {rs : List Record} {lines : Bytes} (ha : Accounts w rs lines) (hd : w.thread.pc = .done) :
    w.output = rs.flatMap Record.output := by
  rw [ha.output, Locals.kept_of (by rw [hd]; rfl)]
  simp [contents]

theorem gone_done (hd : w.thread.pc = .done) (rs : List Record) : w.gone rs = rs.flatMap Record.lines := by
  rw [gone, Locals.taken_of (by rw [hd]; rfl)]
  simp [contents]

/-- All that is at the front end will be taken. -/
def Settled (w : AsyncLogging) : Prop := w.thread.pc = .lock ∨ w.thread.pc = .wait ∨ w.front = []

theorem locking_of_not_settled (h : ¬ Settled w) : w.thread.pc.locking = false := by
  cases hpc : w.thread.pc with
  | lock => exact absurd (.inl hpc) h
  | wait => exact absurd (.inr (.inl hpc)) h
  | _ => rfl

theorem Settled.safe {rs : List Record} {lines : Bytes} (h : Settled w) (ha : Accounts w rs lines) :
    Safe lines w rs lines := by
  rcases h with hpc | hpc | hf
  · exact .inr ⟨by rw [hpc]; rfl, List.prefix_rfl⟩
  · exact .inr ⟨by rw [hpc]; rfl, List.prefix_rfl⟩
  · left
    have hall : w.gone rs = lines := by
      rw [← ha.lines, hf, List.append_nil]
    exact hall ▸ List.prefix_rfl

theorem Label.length_stored_le (l : Label) : l.stored.length ≤ l.line.length := by
  unfold stored
  split
  · exact Nat.le_refl _
  · exact Nat.zero_le _

/-- A line that is not stored is missed. -/
theorem flatMap_stored_eq_iff {ls : List Label} :
    ls.flatMap Label.line = ls.flatMap Label.stored ↔ ∀ line, .append line ∈ ls → line.length < kLargeBuffer := by
  constructor
  · intro h line hline
    by_contra hlong
    have hle := List.sum_lt_sum (fun l : Label => l.stored.length) (fun l => l.line.length)
      (fun l _ => l.length_stored_le)
      ⟨_, hline, by
        rw [Label.stored, Label.line, if_neg hlong]
        exact Nat.lt_of_lt_of_le (by decide) (Nat.not_lt.mp hlong)⟩
    have hlen := congrArg List.length h
    rw [List.length_flatMap, List.length_flatMap] at hlen
    omega
  · intro h
    apply List.flatMap_congr
    intro l hl
    cases l with
    | append line => exact (if_pos (h line hl)).symm
    | _ => rfl

/-- When `stop` returns, all that was written is a message or a buffer that was taken. The lines
appended before it are what the logger has got, and all of that was taken, to be written or discarded
with more than 25 buffers, exactly if each fits into a buffer and `stop` finds `threadFunc` on its way
into the critical section or finds no line at the front end. -/
theorem stop_flushes_iff (before after : List Label) :
    ∃ u w, run step {} before = .ok u ∧ run step {} (before ++ .stop :: after) = .ok w ∧
      (w.thread.pc = .done →
        w.output = (records {} (before ++ .stop :: after)).flatMap Record.output ∧
        (before.flatMap Label.line = u.received (records {} before) ∧
            u.received (records {} before) <+: (records {} (before ++ .stop :: after)).flatMap Record.lines ↔
          (∀ line, .append line ∈ before → line.length < kLargeBuffer) ∧
            (u.thread.pc = .lock ∨ u.thread.pc = .wait ∨ contents u.buffers ++ contents [u.currentBuffer] = []))) := by
  have hstart : Accounts {} [] [] := ⟨rfl, rfl⟩
  obtain ⟨u, hu, hpu, hau, -⟩ :=
    run_accounts (I := fun _ _ _ => True) (fun _ _ _ _ _ _ _ _ _ => trivial) before pool_start hstart trivial
  rw [List.nil_append, List.nil_append] at hau
  have hp : Pool { u with running := false } := hpu.setRunning false
  have ha : Accounts { u with running := false } (records {} before) (before.flatMap Label.stored) :=
    ⟨hau.output, hau.lines⟩
  have hstop : u.step .stop = .ok { u with running := false } := rfl
  have hrun : run step {} (before ++ .stop :: after) = run step { u with running := false } after := by
    rw [run_append, hu, ok_bind, run_cons, hstop, ok_bind]
  have hrec : records {} (before ++ .stop :: after) =
      records {} before ++ records { u with running := false } after := by
    rw [records_append hu, records_cons hstop]
    rfl
  have hgot : u.received (records {} before) = before.flatMap Label.stored := hau.lines
  rw [hrun, hrec]
  by_cases hset : Settled u
  · obtain ⟨w, hw, -, haw, hsafe⟩ := run_accounts (I := Safe (before.flatMap Label.stored))
      (fun _ _ _ _ _ h ha hi hs => hi.step h ha hs) after hp ha
        (Settled.safe (w := { u with running := false }) hset ha)
    refine ⟨u, w, hu, hw, fun hd => ⟨haw.output_done hd, ?_⟩⟩
    rw [hgot, flatMap_stored_eq_iff]
    refine and_congr_right fun _ => iff_of_true ?_ hset
    rcases hsafe with hsafe | ⟨hin, -⟩
    · rwa [gone_done hd] at hsafe
    · rw [hd] at hin
      cases hin
  · obtain ⟨w, hw, -, haw, -, -, hlost⟩ := run_accounts (I := fun w rs _ => Lost (u.gone (records {} before)) w rs)
      (fun _ _ _ _ _ h ha hi hs => hi.step h ha hs) after hp ha ⟨rfl, locking_of_not_settled hset, rfl⟩
    refine ⟨u, w, hu, hw, fun hd => ⟨haw.output_done hd, ?_⟩⟩
    rw [hgot, flatMap_stored_eq_iff]
    refine and_congr_right fun _ => iff_of_false (fun hpre => hset ?_) hset
    -- what was taken is shorter than what was appended by the front end
    rw [← gone_done hd, hlost, ← hau.lines] at hpre
    have hlen := hpre.length_le
    rw [List.length_append] at hlen
    exact .inr (.inr (List.eq_nil_of_length_eq_zero (by omega)))

/-- A line appended while `threadFunc` goes to its critical section. -/
theorem stop_flushes_iff_locked :
    ∃ w, run step {} ([.threadFunc [], .append (ascii "a\n")] ++ .stop :: List.replicate 10 (.threadFunc [])) = .ok w ∧
      w.thread.pc = .done ∧ w.output = ascii "a\n" ∧
      ascii "a\n" <+: (records {} ([.threadFunc [], .append (ascii "a\n")] ++
        .stop :: List.replicate 10 (.threadFunc []))).flatMap Record.lines := by
  have hlen : ∀ line, Label.append line ∈ [.threadFunc [], .append (ascii "a\n")] → line.length < kLargeBuffer := by
    intro line hline
    obtain rfl : line = ascii "a\n" := by simpa using hline
    decide
  obtain ⟨u, w, hu, hw, h⟩ := stop_flushes_iff [.threadFunc [], .append (ascii "a\n")]
    (List.replicate 10 (.threadFunc []))
  obtain ⟨u', hu', hpc⟩ := ok_of_map (show (run step {} [.threadFunc [], .append (ascii "a\n")]).map
    (fun w => w.thread.pc) = .ok .lock by decide +kernel)
  obtain ⟨w', hw', he⟩ := ok_of_map (show (run step {} ([.threadFunc [], .append (ascii "a\n")] ++
    .stop :: List.replicate 10 (.threadFunc []))).map (fun w => (w.thread.pc, w.output)) =
      .ok (.done, ascii "a\n") by decide +kernel)
  obtain rfl : u = u' := by simpa using hu.symm.trans hu'
  obtain rfl : w = w' := by simpa using hw.symm.trans hw'
  obtain ⟨hd, ho⟩ := Prod.mk.inj he
  obtain ⟨hgot, htaken⟩ := (h hd).2.mpr ⟨hlen, .inl hpc⟩
  rw [← hgot] at htaken
  exact ⟨w, hw, hd, ho, htaken⟩

/-- A line appended while the buffers before it are written is not written any more. -/
theorem stop_loses_line :
    ∃ w, run step {} ([.append (ascii "a\n"), .threadFunc [], .threadFunc [], .threadFunc [], .append (ascii "b\n")] ++
        .stop :: List.replicate 8 (.threadFunc [])) = .ok w ∧
      w.thread.pc = .done ∧ w.output = ascii "a\n" ∧
      records {} ([.append (ascii "a\n"), .threadFunc [], .threadFunc [], .threadFunc [], .append (ascii "b\n")] ++
        .stop :: List.replicate 8 (.threadFunc [])) = [.written (ascii "a\n")] := by
  obtain ⟨w, hw, he⟩ := ok_of_map (show (run step {} ([.append (ascii "a\n"), .threadFunc [], .threadFunc [],
    .threadFunc [], .append (ascii "b\n")] ++ .stop :: List.replicate 8 (.threadFunc []))).map
      (fun w => (w.thread.pc, w.output)) = .ok (.done, ascii "a\n") by decide +kernel)
  obtain ⟨hd, ho⟩ := Prod.mk.inj he
  exact ⟨w, hw, hd, ho, by decide +kernel⟩

end AsyncLogging

end Zhengqi
