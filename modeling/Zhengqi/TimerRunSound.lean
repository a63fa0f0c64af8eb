import Zhengqi.TimerQueueSound

/-!
# Runs of a timer queue

The queue and its callbacks in any order: no assertion fails, the two sets agree
on the live timers, the timers of the running batch are live and in neither set,
and each timer is deleted at most once (`timer_queue_consistent`). A cancelled
timer is deleted between the two erasures, while `activeTimers_` still names it.
-/

namespace Zhengqi

open Run

namespace TimerQueue

/-- What the heap and the history say of each other. -/
structure Ledger (heap : Addr → Option Timer) (numCreated : Nat) (created : List ActiveTimer)
    (deleted : List Deletion) : Prop where
  numbered : created.map (·.sequence) = List.range' 1 numCreated
  live : ∀ p t, heap p = some t → ⟨p, t.sequence⟩ ∈ created
  once : (deleted.map (·.sequence)).Nodup
  deleted_created : ∀ s ∈ deleted.map (·.sequence), s ∈ created.map (·.sequence)
  dead : ∀ p t, heap p = some t → t.sequence ∉ deleted.map (·.sequence)
  accounted : ∀ id ∈ created,
    (∃ t, heap id.timer = some t ∧ t.sequence = id.sequence) ∨ id.sequence ∈ deleted.map (·.sequence)
  flags : ∀ d ∈ deleted, d.inTimers = false ∧ d.inActive = d.byCancel

section
variable {heap : Addr → Option Timer} {numCreated : Nat} {created : List ActiveTimer} {deleted : List Deletion}

theorem Ledger.sequence_le (h : Ledger heap numCreated created deleted) {s : Nat}
    (hs : s ∈ created.map (·.sequence)) : s ≤ numCreated := by
  rw [h.numbered, List.mem_range'] at hs
  omega

theorem Ledger.unique (h : Ledger heap numCreated created deleted) {a b : ActiveTimer} (ha : a ∈ created)
    (hb : b ∈ created) (hs : a.sequence = b.sequence) : a = b := by
  have hnd : (created.map (·.sequence)).Nodup := by
    rw [h.numbered]; exact List.nodup_range'
  exact List.inj_on_of_nodup_map hnd ha hb hs

theorem Ledger.create (h : Ledger heap numCreated created deleted) {p : Addr} (hp : heap p = none) {t : Timer}
    (ht : t.sequence = numCreated + 1) :
    Ledger (Function.update heap p (some t)) (numCreated + 1) (created ++ [⟨p, numCreated + 1⟩]) deleted := by
  have hnew : numCreated + 1 ∉ created.map (·.sequence) := by
    intro hs
    have := h.sequence_le hs
    omega
  constructor
  · rw [List.map_append, h.numbered, List.range'_concat]
    simp [Nat.add_comm]
  · intro p' t' ht'
    rcases update_some_iff.mp ht' with ⟨rfl, he⟩ | ⟨-, ht'⟩
    · cases he
      simp [ht]
    · exact List.mem_append_left _ (h.live p' t' ht')
  · exact h.once
  · intro s hs
    rw [List.map_append]
    exact List.mem_append_left _ (h.deleted_created s hs)
  · intro p' t' ht'
    rcases update_some_iff.mp ht' with ⟨rfl, he⟩ | ⟨-, ht'⟩
    · cases he
      intro hs
      rw [ht] at hs
      exact hnew (h.deleted_created _ hs)
    · exact h.dead p' t' ht'
  · intro id hid
    rcases List.mem_append.mp hid with hid | hid
    · rcases h.accounted id hid with ⟨t', ht', hs'⟩ | hd
      · left
        have hne : id.timer ≠ p := by
          intro he
          rw [he, hp] at ht'; cases ht'
        exact ⟨t', update_some_iff.mpr (.inr ⟨hne, ht'⟩), hs'⟩
      · exact .inr hd
    · rw [List.mem_singleton] at hid
      subst hid
      exact .inl ⟨t, Function.update_self .., ht⟩
  · exact h.flags

theorem Ledger.delete (h : Ledger heap numCreated created deleted) {p : Addr} {t : Timer} (hp : heap p = some t)
    {d : Deletion} (hd : d.sequence = t.sequence) (hf : d.inTimers = false ∧ d.inActive = d.byCancel) :
    Ledger (Function.update heap p none) numCreated created (deleted ++ [d]) := by
  have hmem : ∀ s, s ∈ (deleted ++ [d]).map (·.sequence) ↔ s ∈ deleted.map (·.sequence) ∨ s = t.sequence := by
    intro s
    simp [← hd]
  constructor
  · exact h.numbered
  · intro p' t' ht'
    exact h.live p' t' (update_none_iff.mp ht').2
  · rw [List.map_append, List.map_singleton, hd]
    exact h.once.append (List.nodup_singleton _) (List.disjoint_singleton.mpr (h.dead p t hp))
  · intro s hs
    rcases (hmem s).mp hs with hs | rfl
    · exact h.deleted_created s hs
    · exact List.mem_map.mpr ⟨_, h.live p t hp, rfl⟩
  · intro p' t' ht' hs
    obtain ⟨hne, ht'⟩ := update_none_iff.mp ht'
    rcases (hmem _).mp hs with hs | hs
    · exact h.dead p' t' ht' hs
    · have he := h.unique (h.live p' t' ht') (h.live p t hp) hs
      exact hne (congrArg ActiveTimer.timer he)
  · intro id hid
    rcases h.accounted id hid with ⟨t', ht', hs'⟩ | hs
    · by_cases hpp : id.timer = p
      · right
        rw [hpp, hp] at ht'; cases ht'
        exact (hmem _).mpr (.inr hs'.symm)
      · exact .inl ⟨t', update_none_iff.mpr ⟨hpp, ht'⟩, hs'⟩
    · exact .inr ((hmem _).mpr (.inl hs))
  · intro d' hd'
    rcases List.mem_append.mp hd' with hd' | hd'
    · exact h.flags d' hd'
    · rw [List.mem_singleton] at hd'
      exact hd' ▸ hf

theorem Ledger.restart (h : Ledger heap numCreated created deleted) {p : Addr} {t t' : Timer} (hp : heap p = some t)
    (hs : t'.sequence = t.sequence) : Ledger (Function.update heap p (some t')) numCreated created deleted := by
  have hold : ∀ p' u, Function.update heap p (some t') p' = some u →
      ∃ u', heap p' = some u' ∧ u'.sequence = u.sequence := by
    intro p' u hu
    rcases update_some_iff.mp hu with ⟨rfl, he⟩ | ⟨-, hu⟩
    · cases he
      exact ⟨t, hp, hs.symm⟩
    · exact ⟨u, hu, rfl⟩
  refine ⟨h.numbered, ?_, h.once, h.deleted_created, ?_, ?_, h.flags⟩
  · intro p' u hu
    obtain ⟨u', hu', he⟩ := hold p' u hu
    exact he ▸ h.live p' u' hu'
  · intro p' u hu
    obtain ⟨u', hu', he⟩ := hold p' u hu
    exact he ▸ h.dead p' u' hu'
  · intro id hid
    rcases h.accounted id hid with ⟨u, hu, he⟩ | hd
    · left
      by_cases hpp : id.timer = p
      · rw [hpp, hp] at hu; cases hu
        exact ⟨t', by rw [hpp, Function.update_self], hs.trans he⟩
      · exact ⟨u, update_some_iff.mpr (.inr ⟨hpp, hu⟩), he⟩
    · exact .inr hd

end

/-! ## The invariant -/

/-- The entries that `handleRead` took out of the sets and `reset` will put back. -/
def batch (q : TimerQueue) : List Entry := q.running.elim [] (·.expired)

structure Inv (q : TimerQueue) : Prop where
  rep : q.Rep q.batch
  ledger : Ledger q.heap q.numCreated q.created q.deleted
  rest : ∀ b, q.running = some b → b.rest <:+ b.expired
  -- Nothing inserts into `cancelingTimers_`
  canceling : ∀ id, id ∉ q.cancelingTimers
  fired : ∀ f ∈ q.fired, f.batch ≤ q.batches

theorem Inv.init : Inv {} where
  rep := by
    refine ⟨?_, ?_, ?_, ?_, rfl, ?_, List.nodup_nil, ?_, List.nodup_nil, ?_⟩ <;> simp [batch]
  ledger := by
    refine ⟨rfl, ?_, List.nodup_nil, ?_, ?_, ?_, ?_⟩ <;> simp
  rest := by simp
  canceling := by simp
  fired := by simp

variable {q : TimerQueue}

/-! ## One step -/

def due (q : TimerQueue) (now : Timestamp) (activeTimers : OrdSet ActiveTimer) : TimerQueue :=
  { q with
    timers := q.timers.above ⟨now, UINTPTR_MAX⟩, activeTimers
    callingExpiredTimers := true, cancelingTimers := .empty
    running := some ⟨now, q.timers.below ⟨now, UINTPTR_MAX⟩, q.timers.below ⟨now, UINTPTR_MAX⟩⟩
    batches := q.batches + 1 }

def started (q : TimerQueue) (b : Batch) (e : Entry) (rest : List Entry) (t : Timer) : TimerQueue :=
  { q with running := some { b with rest }, fired := q.fired ++ [⟨t.sequence, e.expiration, b.now, q.batches⟩] }

def called (q : TimerQueue) : TimerQueue := { q with callingExpiredTimers := false, running := none }

/-- What a step makes of the queue. -/
inductive Effect (q : TimerQueue) : TimerOp → TimerQueue → Prop
  | idle {op : TimerOp} : Effect q op q
  | addTimer {p : Addr} {when : Timestamp} {interval : Interval} {now : Timestamp} (armings : List Arming)
      (hp : q.heap p = none) : Effect q (.addTimer p when interval now)
        { (q.create p when interval).schedule ⟨when, p⟩ (q.numCreated + 1) with armings }
  | newTimer {p : Addr} {when : Timestamp} {interval : Interval} (hp : q.heap p = none) :
      Effect q (.newTimer p when interval) { q.create p when interval with inflight := p :: q.inflight }
  | addTimerInLoop {p : Addr} {now : Timestamp} {t : Timer} (armings : List Arming) (hp : p ∈ q.inflight)
      (ht : q.heap p = some t) : Effect q (.addTimerInLoop p now)
        { q.schedule ⟨t.expiration, p⟩ t.sequence with inflight := q.inflight.erase p, armings }
  | cancelInLoop {id : ActiveTimer} {t : Timer} (ha : id ∈ q.activeTimers) (ht : q.heap id.timer = some t)
      (hs : t.sequence = id.sequence) : Effect q (.cancelInLoop id) (q.cancelled id t.expiration)
  | handleRead {now : Timestamp} {a : OrdSet ActiveTimer} (hq : q.running = none)
      (ha : ∀ x ∈ a, x ∈ q.activeTimers) : Effect q (.handleRead now) (q.due now a)
  | runNext {b : Batch} {e : Entry} {rest : List Entry} {t : Timer} (hq : q.running = some b)
      (hb : b.rest = e :: rest) (ht : q.heap e.timer = some t) : Effect q .runNext (q.started b e rest t)
  | finishRead {clock : Timestamp} {b : Batch} {q' : TimerQueue} (armings : List Arming)
      (hq : q.running = some b) (hb : b.rest = []) (hr : Resets b.now b.expired q.called q') :
      Effect q (.finishRead clock) { q' with armings }

theorem Inv.newTimer (h : q.Inv) {p : Addr} (hp : q.allocates p = true) (when : Timestamp) (interval : Interval) :
    q.heap p = none ∧ Inv { q.create p when interval with inflight := p :: q.inflight } := by
  have hfree : q.heap p = none := by
    simp only [allocates, Bool.and_eq_true, Option.isNone_iff_eq_none] at hp
    exact hp.1.1
  exact ⟨hfree, h.rep.create hp when interval, h.ledger.create hfree rfl, h.rest, h.canceling, h.fired⟩

theorem Inv.addTimerInLoop (h : q.Inv) {p : Addr} (hp : p ∈ q.inflight) (now : Timestamp) :
    ∃ t, q.heap p = some t ∧
      TimerQueue.addTimerInLoop { q with inflight := q.inflight.erase p } p now =
        .ok { q.schedule ⟨t.expiration, p⟩ t.sequence with
          inflight := q.inflight.erase p, armings := q.armingsAdd t.expiration now } ∧
      Inv { q.schedule ⟨t.expiration, p⟩ t.sequence with
        inflight := q.inflight.erase p, armings := q.armingsAdd t.expiration now } := by
  obtain ⟨t, ht, hr⟩ := h.rep.land hp
  obtain ⟨t', ht', hok, hr'⟩ := hr.addTimerInLoop now
  obtain rfl := heap_unique ht ht'
  exact ⟨t, ht, hok, hr', h.ledger, h.rest, h.canceling, h.fired⟩

-- in the loop's thread the two halves of addTimer follow each other
theorem Inv.addTimer (h : q.Inv) {p : Addr} (hp : q.allocates p = true) (when : Timestamp) (interval : Interval)
    (now : Timestamp) :
    (q.create p when interval).addTimerInLoop p now =
        .ok { (q.create p when interval).schedule ⟨when, p⟩ (q.numCreated + 1) with
          armings := q.armingsAdd when now } ∧
      Inv { (q.create p when interval).schedule ⟨when, p⟩ (q.numCreated + 1) with
        armings := q.armingsAdd when now } := by
  obtain ⟨t, ht, hok, hi⟩ := (h.newTimer hp when interval).2.addTimerInLoop (List.mem_cons_self ..) now
  have hu : (q.create p when interval).heap p = some ⟨when, interval, q.numCreated + 1⟩ := Function.update_self ..
  obtain rfl := Option.some.inj (hu.symm.trans ht)
  simp only [List.erase_cons_head] at hok hi
  exact ⟨hok, hi⟩

theorem Inv.handleRead (h : q.Inv) (hq : q.running = none) (now : Timestamp) :
    ∃ a, q.handleRead now = .ok (q.due now a) ∧ (∀ x ∈ a, x ∈ q.activeTimers) ∧ (q.due now a).Inv := by
  have hrep : q.Rep [] := by
    have := h.rep
    rwa [batch, hq] at this
  obtain ⟨a, hok, ha, hr⟩ := hrep.getExpired now
  refine ⟨a, ?_, ha, ?_⟩
  · unfold TimerQueue.handleRead
    rw [hok]
    rfl
  · refine ⟨?_, h.ledger, ?_, ?_, ?_⟩
    · exact hr.congr rfl rfl rfl rfl rfl
    · intro b hb
      cases hb
      exact List.suffix_refl _
    · intro id
      exact OrdSet.not_mem_empty
    · intro f hf
      exact Nat.le_succ_of_le (h.fired f hf)

theorem Inv.runNext (h : q.Inv) {b : Batch} {e : Entry} {rest : List Entry} (hq : q.running = some b)
    (hb : b.rest = e :: rest) :
    ∃ t, q.heap e.timer = some t ∧ q.runNext = .ok (q.started b e rest t) ∧ (q.started b e rest t).Inv := by
  obtain ⟨now, expired, rest'⟩ := b
  simp only at hb
  subst hb
  have hsuf := h.rest _ hq
  have hb : q.batch = expired := by rw [batch, hq]; rfl
  have hr := h.rep
  rw [hb] at hr
  obtain ⟨t, ht, -⟩ := hr.loose e (hsuf.subset (List.mem_cons_self ..))
  refine ⟨t, ht, ?_, ?_, h.ledger, ?_, h.canceling, ?_⟩
  · simp only [TimerQueue.runNext, hq, deref_ok ht, ok_bind]
    rfl
  · exact hr.congr rfl rfl rfl rfl rfl
  · intro b hb
    cases hb
    exact (List.suffix_cons ..).trans hsuf
  · intro f hf
    rcases List.mem_append.mp hf with hf | hf
    · exact h.fired f hf
    · rw [List.mem_singleton] at hf
      exact hf ▸ Nat.le_refl _

theorem Resets.ledger {now : Timestamp} {es : List Entry} {q q' : TimerQueue} (h : Resets now es q q')
    (hl : Ledger q.heap q.numCreated q.created q.deleted) : Ledger q'.heap q'.numCreated q'.created q'.deleted := by
  refine Resets.inv (P := fun q => Ledger q.heap q.numCreated q.created q.deleted) ?_ ?_ h hl
  · intro q₁ p t ht _ hl
    exact hl.restart ht (restart_sequence t now)
  · intro q₁ p t ht _ hl
    exact hl.delete ht rfl ⟨rfl, rfl⟩

theorem Inv.finishRead (h : q.Inv) {b : Batch} (hq : q.running = some b) (hb : b.rest = []) (clock : Timestamp) :
    ∃ q', q.finishRead clock = .ok { q' with armings := q'.armingsReset clock } ∧ Resets b.now b.expired q.called q' ∧
      Inv { q' with armings := q'.armingsReset clock } := by
  have hr : q.called.Rep b.expired := by
    have hr := h.rep
    rw [batch, hq] at hr
    exact hr.congr rfl rfl rfl rfl rfl
  obtain ⟨q', hok, hr', hm⟩ := hr.reset b.now clock
  obtain ⟨hn, hc, hf, hbs, -⟩ := hm.frame
  have hl := hm.ledger h.ledger
  have hn : q'.running = none := hn
  refine ⟨q', ?_, hm, ?_, hl, ?_, ?_, ?_⟩
  · obtain ⟨now, expired, rest⟩ := b
    simp only at hb
    subst hb
    simp only [TimerQueue.finishRead, hq]
    exact hok
  · have hbatch : TimerQueue.batch { q' with armings := q'.armingsReset clock } = [] := by simp [batch, hn]
    rw [hbatch]
    exact hr'.congr rfl rfl rfl rfl rfl
  · simp [hn]
  · rw [hc]; exact h.canceling
  · rw [hf, hbs]; exact h.fired

/-- Every step succeeds and keeps the invariant. -/
theorem Inv.step (h : q.Inv) (op : TimerOp) : ∃ q', q.step op = .ok q' ∧ q'.Inv ∧ q.Effect op q' := by
  cases op with
  | addTimer p when interval now =>
    by_cases hp : q.allocates p = true
    · obtain ⟨hok, hi⟩ := h.addTimer hp when interval now
      exact ⟨_, by simp only [TimerQueue.step, hp, if_true, hok], hi, .addTimer _ (h.newTimer hp when interval).1⟩
    · exact ⟨q, by simp [TimerQueue.step, hp], h, .idle⟩
  | newTimer p when interval =>
    by_cases hp : q.allocates p = true
    · obtain ⟨hfree, hi⟩ := h.newTimer hp when interval
      exact ⟨_, by simp only [TimerQueue.step, hp, if_true, pure_eq_ok], hi, .newTimer hfree⟩
    · exact ⟨q, by simp [TimerQueue.step, hp], h, .idle⟩
  | addTimerInLoop p now =>
    by_cases hp : p ∈ q.inflight
    · obtain ⟨t, ht, hok, hi⟩ := h.addTimerInLoop hp now
      exact ⟨_, by simp only [TimerQueue.step, hp, if_true, hok], hi, .addTimerInLoop _ hp ht⟩
    · exact ⟨q, by simp [TimerQueue.step, hp], h, .idle⟩
  | cancelInLoop id =>
    rcases h.rep.cancelInLoop id with ⟨-, hok⟩ | ⟨t, ha, ht, hs, hok, hr⟩
    · exact ⟨q, hok, h, .idle⟩
    · have hl := h.ledger.delete ht hs.symm (d := ⟨id.sequence, false, true, true⟩) ⟨rfl, rfl⟩
      exact ⟨_, hok, ⟨hr, hl, h.rest, h.canceling, h.fired⟩, .cancelInLoop ha ht hs⟩
  | handleRead now =>
    by_cases hr : q.running = none
    · obtain ⟨a, hok, ha, hi⟩ := h.handleRead hr now
      exact ⟨_, by simp [TimerQueue.step, hr, hok], hi, .handleRead hr ha⟩
    · exact ⟨q, by simp [TimerQueue.step, hr], h, .idle⟩
  | runNext =>
    rcases hq : q.running with _ | ⟨now, expired, _ | ⟨e, rest⟩⟩
    · exact ⟨q, by simp [TimerQueue.step, TimerQueue.runNext, hq], h, .idle⟩
    · exact ⟨q, by simp [TimerQueue.step, TimerQueue.runNext, hq], h, .idle⟩
    · obtain ⟨t, ht, hok, hi⟩ := h.runNext hq rfl
      exact ⟨_, hok, hi, .runNext hq rfl ht⟩
  | finishRead clock =>
    rcases hq : q.running with _ | ⟨now, expired, _ | ⟨e, rest⟩⟩
    · exact ⟨q, by simp [TimerQueue.step, TimerQueue.finishRead, hq], h, .idle⟩
    · obtain ⟨q', hok, hm, hi⟩ := h.finishRead hq rfl clock
      exact ⟨_, hok, hi, .finishRead _ hq rfl hm⟩
    · exact ⟨q, by simp [TimerQueue.step, TimerQueue.finishRead, hq], h, .idle⟩

theorem Inv.effect (h : q.Inv) {op : TimerOp} {q' : TimerQueue} (hs : q.step op = .ok q') :
    q'.Inv ∧ q.Effect op q' := by
  obtain ⟨r, hr, hi, he⟩ := h.step op
  rw [hr] at hs; cases hs
  exact ⟨hi, he⟩

theorem Inv.run (h : q.Inv) (ops : List TimerOp) : ∃ q', run TimerQueue.step q ops = .ok q' ∧ q'.Inv := by
  refine run_total ?_ h
  intro s op hs
  obtain ⟨t, ht, hi, -⟩ := hs.step op
  exact ⟨t, ht, hi⟩

end TimerQueue

open TimerQueue

/-- Over every run: no assertion fails; the two sets describe the same live timers;
the timers of the running batch are live and in neither set; every timer is live
somewhere until it is deleted, and deleted once; and at its deletion a timer is not
in `timers_`, nor in `activeTimers_` unless `cancelInLoop` deletes it. -/
theorem timer_queue_consistent (ops : List TimerOp) :
    ∃ q, run TimerQueue.step {} ops = .ok q ∧
      (∀ x p, ⟨x, p⟩ ∈ q.timers ↔ ∃ t, q.heap p = some t ∧ t.expiration = x ∧ ⟨p, t.sequence⟩ ∈ q.activeTimers) ∧
      (∀ p s, ⟨p, s⟩ ∈ q.activeTimers → ∃ t, q.heap p = some t ∧ t.sequence = s) ∧
      (∀ b, q.running = some b → ∀ e ∈ b.expired,
        (∃ t, q.heap e.timer = some t) ∧ (∀ x, ⟨x, e.timer⟩ ∉ q.timers) ∧ ∀ s, ⟨e.timer, s⟩ ∉ q.activeTimers) ∧
      (∀ p t, q.heap p = some t →
        ⟨p, t.sequence⟩ ∈ q.activeTimers ∨ p ∈ q.batch.map (·.timer) ∨ p ∈ q.inflight) ∧
      (q.deleted.map (·.sequence)).Nodup ∧
      (∀ id ∈ q.created,
        (∃ t, q.heap id.timer = some t ∧ t.sequence = id.sequence) ↔ id.sequence ∉ q.deleted.map (·.sequence)) ∧
      ∀ d ∈ q.deleted, d.inTimers = false ∧ d.inActive = d.byCancel := by
  obtain ⟨q, hok, hi⟩ := Inv.init.run ops
  refine ⟨q, hok, hi.rep.timers, hi.rep.active, ?_, hi.rep.placed, hi.ledger.once, ?_, hi.ledger.flags⟩
  · intro b hb e he
    have hm : e ∈ q.batch := by rw [batch, hb]; exact he
    obtain ⟨t, ht, -, ha, -⟩ := hi.rep.loose e hm
    obtain ⟨hna, hnt⟩ := hi.rep.not_active ht ha
    exact ⟨⟨t, ht⟩, hnt, hna⟩
  · intro id hid
    constructor
    · rintro ⟨t, ht, hs⟩
      exact hs ▸ hi.ledger.dead _ t ht
    · intro hn
      rcases hi.ledger.accounted id hid with hl | hd
      · exact hl
      · exact absurd hd hn

/-- A cancelled timer is deleted while `activeTimers_` still holds it. -/
theorem cancel_deletes_active_timer :
    ∃ q, run TimerQueue.step {} [.addTimer 1 10 ⟨false, 0, by decide⟩ 0, .cancelInLoop ⟨1, 1⟩] = .ok q ∧
      ∃ d ∈ q.deleted, d.inActive = true := by
  obtain ⟨q, hq, hd⟩ := ok_of_map (show (run TimerQueue.step {}
    [.addTimer 1 10 ⟨false, 0, by decide⟩ 0, .cancelInLoop ⟨1, 1⟩]).map (·.deleted) = .ok [⟨1, false, true, true⟩] by
      decide +kernel)
  exact ⟨q, hq, _, hd ▸ List.mem_singleton.mpr rfl, rfl⟩

end Zhengqi
