import Zhengqi.TimerRunSound

/-!
# Which callbacks run

`timers_fire_when_due`: a `handleRead` runs the callbacks of the timers that are due, each
once and in the order of their expirations, whatever the callbacks do; a timer that does
not repeat runs once at most, and not before its expiration; a timer that repeats is put
back for the reading of the clock at which its batch was taken.
-/

namespace Zhengqi

open Run

namespace TimerQueue

variable {q q' : TimerQueue} {s n : Nat} {x : Timestamp}

/-! ## What `reset` leaves of the batch -/

theorem Resets.heap {now : Timestamp} {es : List Entry} (h : Resets now es q q') (hn : (es.map (·.timer)).Nodup) :
    (∀ p, p ∉ es.map (·.timer) → q'.heap p = q.heap p) ∧
      ∀ e ∈ es, ∀ t, q.heap e.timer = some t →
        (t.repeats = false → q'.heap e.timer = none) ∧
        (t.repeats = true → (∀ id, id ∉ q.cancelingTimers) → q'.heap e.timer = some (t.restart now)) := by
  induction h with
  | done => exact ⟨fun p _ => rfl, fun e he => by cases he⟩
  | @goes q q' e es t ht hr hc h ih =>
    obtain ⟨hne, hn⟩ := List.nodup_cons.mp hn
    obtain ⟨hout, hin⟩ := ih hn
    have hother : ∀ p, p ≠ e.timer → (q.rescheduled e.timer t now).heap p = q.heap p :=
      fun p hp => Function.update_of_ne hp ..
    constructor
    · intro p hp
      rw [List.map_cons, List.mem_cons, not_or] at hp
      rw [hout p hp.2, hother p hp.1]
    · intro e' he' t' ht'
      rcases List.mem_cons.mp he' with rfl | he'
      · obtain rfl := heap_unique ht ht'
        refine ⟨fun hf => absurd hr (by simp [hf]), fun _ _ => ?_⟩
        rw [hout _ hne]
        exact Function.update_self ..
      · have hee : e'.timer ≠ e.timer := fun hc => hne (List.mem_map.mpr ⟨e', he', hc⟩)
        exact hin e' he' t' ((hother _ hee).trans ht')
  | @ends q q' e es t ht hc h ih =>
    obtain ⟨hne, hn⟩ := List.nodup_cons.mp hn
    obtain ⟨hout, hin⟩ := ih hn
    have hother : ∀ p, p ≠ e.timer → (q.discarded e.timer t).heap p = q.heap p :=
      fun p hp => Function.update_of_ne hp ..
    constructor
    · intro p hp
      rw [List.map_cons, List.mem_cons, not_or] at hp
      rw [hout p hp.2, hother p hp.1]
    · intro e' he' t' ht'
      rcases List.mem_cons.mp he' with rfl | he'
      · obtain rfl := heap_unique ht ht'
        refine ⟨fun _ => ?_, fun hr hcan => absurd (hc hr) (hcan _)⟩
        rw [hout _ hne]
        exact Function.update_self ..
      · have hee : e'.timer ≠ e.timer := fun hc => hne (List.mem_map.mpr ⟨e', he', hc⟩)
        exact hin e' he' t' ((hother _ hee).trans ht')

theorem Inv.batch_eq {b : Batch} (hq : q.running = some b) : q.batch = b.expired := by rw [batch, hq]; rfl

theorem Inv.loose (h : q.Inv) {b : Batch} (hq : q.running = some b) {e : Entry} (he : e ∈ b.expired) :
    ∃ t, q.heap e.timer = some t ∧ t.expiration = e.expiration ∧ ⟨e.timer, t.sequence⟩ ∉ q.activeTimers ∧
      e.timer ∉ q.inflight := by
  refine h.rep.loose e ?_
  rw [Inv.batch_eq hq]; exact he

theorem Inv.expired_nodup (h : q.Inv) {b : Batch} (hq : q.running = some b) : (b.expired.map (·.timer)).Nodup := by
  have := h.rep.nodup
  rwa [Inv.batch_eq hq] at this

-- a timer that is live when handleRead returns was not in the batch, or has been restarted
theorem Inv.live_after (h : q.Inv) {b : Batch} (hq : q.running = some b) (hr : Resets b.now b.expired q.called q')
    {p : Addr} {t : Timer} (ht : q'.heap p = some t) :
    (p ∉ b.expired.map (·.timer) ∧ q.heap p = some t) ∨
      ∃ t₀, q.heap p = some t₀ ∧ t₀.repeats = true ∧ t = t₀.restart b.now := by
  obtain ⟨hout, hin⟩ := hr.heap (h.expired_nodup hq)
  by_cases hm : p ∈ b.expired.map (·.timer)
  · right
    obtain ⟨e, he, rfl⟩ := List.mem_map.mp hm
    obtain ⟨t₀, ht₀, -⟩ := h.loose hq he
    obtain ⟨hone, hrs⟩ := hin e he t₀ ht₀
    cases hr₀ : t₀.repeats with
    | false => rw [hone hr₀] at ht; cases ht
    | true =>
      rw [hrs hr₀ h.canceling] at ht; cases ht
      exact ⟨t₀, ht₀, hr₀, rfl⟩
  · exact .inl ⟨hm, (hout p hm).symm.trans ht⟩

theorem Inv.rescheduled (h : q.Inv) {b : Batch} (hq : q.running = some b) (hb : b.rest = []) (clock : Timestamp) :
    ∃ q', q.step (.finishRead clock) = .ok q' ∧ ∀ e ∈ b.expired, ∀ t, q.heap e.timer = some t → t.repeats = true →
      ⟨b.now + t.interval.micros, e.timer⟩ ∈ q'.timers ∧ ⟨e.timer, t.sequence⟩ ∈ q'.activeTimers := by
  obtain ⟨q', hok, hres, hi⟩ := h.finishRead hq hb clock
  refine ⟨_, hok, ?_⟩
  intro e he t ht hr
  obtain ⟨hn, -, -, -, hf, -⟩ := hres.frame
  have ht' := ((hres.heap (h.expired_nodup hq)).2 e he t ht).2 hr h.canceling
  have hx : (t.restart b.now).expiration = b.now + t.interval.micros := by simp [Timer.restart, hr]
  have hbatch : TimerQueue.batch { q' with armings := q'.armingsReset clock } = [] := by
    have hn : q'.running = none := hn
    simp [batch, hn]
  rcases hi.rep.placed e.timer _ ht' with ha | hl | hl
  · rw [restart_sequence] at ha
    refine ⟨(hi.rep.timers _ _).mpr ⟨_, ht', hx, ?_⟩, ha⟩
    rw [restart_sequence]; exact ha
  · rw [hbatch] at hl; cases hl
  · obtain ⟨-, -, -, -, hi⟩ := h.loose hq he
    have hl : e.timer ∈ q'.inflight := hl
    rw [hf] at hl
    exact absurd hl hi

/-! ## The batch of one `handleRead` -/

def firing (q : TimerQueue) (now : Timestamp) (batch : Nat) (e : Entry) : Firing :=
  ⟨(q.heap e.timer).elim 0 (·.sequence), e.expiration, now, batch⟩

/-- The timers that are due at `now`, in the order of `timers_`. -/
def dueFirings (q : TimerQueue) (now : Timestamp) : List Firing :=
  (q.timers.toList.filter (·.expiration ≤ now)).map (q.firing now (q.batches + 1))

/-- The callbacks that the running `handleRead` has not started. -/
def pending (q : TimerQueue) : List Firing := q.running.elim [] fun b => b.rest.map (q.firing b.now q.batches)

theorem Inv.below_eq (h : q.Inv) (now : Timestamp) :
    q.timers.below ⟨now, UINTPTR_MAX⟩ = q.timers.toList.filter (·.expiration ≤ now) := by
  apply List.filter_congr
  intro e he
  have hsentry : ⟨now, UINTPTR_MAX⟩ ≤ e ↔ now < e.expiration := h.rep.sentry_le he
  rw [decide_eq_decide, ← not_le, hsentry, not_lt]

theorem Inv.pending_congr (h : q.Inv) (hr : q'.running = q.running) (hb : q'.batches = q.batches)
    (hh : ∀ e ∈ q.batch, q'.heap e.timer = q.heap e.timer) : q'.pending = q.pending := by
  unfold pending
  rw [hr, hb]
  cases hq : q.running with
  | none => rfl
  | some b =>
    apply List.map_congr_left
    intro e he
    have hm : e ∈ q.batch := by rw [Inv.batch_eq hq]; exact (h.rest b hq).subset he
    simp only [firing, hh e hm]

-- a timer of the batch is live, so new does not answer its address
theorem Inv.create_batch (h : q.Inv) {p : Addr} (hp : q.heap p = none) (when : Timestamp) (interval : Interval) :
    ∀ e ∈ q.batch, (q.create p when interval).heap e.timer = q.heap e.timer := by
  intro e he
  obtain ⟨t, ht, -⟩ := h.rep.loose e he
  refine Function.update_of_ne ?_ ..
  intro hc
  rw [hc, hp] at ht; cases ht

theorem Inv.cancelled_batch (h : q.Inv) {id : ActiveTimer} {t : Timer} (ha : id ∈ q.activeTimers)
    (ht : q.heap id.timer = some t) (hs : t.sequence = id.sequence) (x : Timestamp) :
    ∀ e ∈ q.batch, (q.cancelled id x).heap e.timer = q.heap e.timer := by
  intro e he
  refine Function.update_of_ne ?_ ..
  intro hc
  refine h.rep.not_loose ht ?_ (List.mem_map.mpr ⟨e, he, hc⟩)
  rw [hs]; exact ha

/-- Of the callbacks `fs`, `handleRead` number `n` has run the first `k`, or all, and will run the others. -/
structure Fires (q : TimerQueue) (n : Nat) (fs : List Firing) (k : Nat) : Prop where
  current : n ≤ q.batches
  fired : q.fired.filter (·.batch = n) = fs.take k
  pending : (if q.batches = n then q.pending else []) = fs.drop k

variable {fs : List Firing} {k : Nat}

theorem Fires.congr (h : q.Fires n fs k) (hb : q'.batches = q.batches) (hf : q'.fired = q.fired)
    (hp : q'.pending = q.pending) : q'.Fires n fs k := by
  refine ⟨?_, ?_, ?_⟩
  · rw [hb]; exact h.current
  · rw [hf]; exact h.fired
  · rw [hb, hp]; exact h.pending

theorem pending_of_done (h : q.running.elim [] (·.rest) = []) : q.pending = [] := by
  unfold pending
  cases hq : q.running with
  | none => rfl
  | some b =>
    rw [hq] at h
    have h : b.rest = [] := h
    simp [h]

theorem Fires.all_of_drop (h : q.Fires n fs k) (hd : fs.drop k = []) : q.fired.filter (·.batch = n) = fs := by
  rw [h.fired, List.take_of_length_le (List.drop_eq_nil_iff.mp hd)]

theorem Fires.more (h : q.Fires n fs k) (hd : fs.drop k = []) : q.Fires n fs (k + 1) := by
  have hk : fs.length ≤ k := List.drop_eq_nil_iff.mp hd
  refine ⟨h.current, ?_, ?_⟩
  · rw [h.all_of_drop hd, List.take_of_length_le (Nat.le_succ_of_le hk)]
  · rw [h.pending, hd, List.drop_eq_nil_of_le (Nat.le_succ_of_le hk)]

theorem Fires.runNext (h : q.Fires n fs k) (hi : q.Inv) : ∃ q', q.runNext = .ok q' ∧ q'.Fires n fs (k + 1) := by
  unfold TimerQueue.runNext
  split
  · rename_i now expired e rest hq
    have hm : e ∈ expired := (hi.rest _ hq).subset (List.mem_cons_self ..)
    obtain ⟨t, ht, -⟩ := hi.loose hq hm
    have hfe : q.firing now q.batches e = ⟨t.sequence, e.expiration, now, q.batches⟩ := by simp [firing, ht]
    have hp : q.pending = q.firing now q.batches e :: rest.map (q.firing now q.batches) := by
      simp [TimerQueue.pending, hq]
    rw [deref_ok ht, ok_bind]
    by_cases hn : q.batches = n
    · have hd := h.pending
      rw [if_pos hn, hp, hfe] at hd
      refine ⟨_, rfl, h.current, ?_, ?_⟩
      · change (q.fired ++ [(⟨t.sequence, e.expiration, now, q.batches⟩ : Firing)]).filter _ = _
        rw [List.filter_append, h.fired, List.filter_cons_of_pos (by simp [hn]), List.filter_nil, List.take_add,
          ← hd]
        rfl
      · change (if q.batches = n then rest.map (q.firing now q.batches) else []) = _
        rw [if_pos hn, ← List.drop_drop, ← hd]
        rfl
    · have hd := h.pending
      rw [if_neg hn] at hd
      have hall := h.more hd.symm
      refine ⟨_, rfl, h.current, ?_, ?_⟩
      · change (q.fired ++ [(⟨t.sequence, e.expiration, now, q.batches⟩ : Firing)]).filter _ = _
        rw [List.filter_append, List.filter_cons_of_neg (by simp [hn]), List.filter_nil, List.append_nil]
        exact hall.fired
      · change (if q.batches = n then _ else []) = _
        rw [if_neg hn, ← hall.pending, if_neg hn]
  · rename_i hq
    refine ⟨q, rfl, h.more ?_⟩
    rw [← h.pending, pending_of_done, ite_self]
    cases hr : q.running with
    | none => rfl
    | some b =>
      obtain ⟨now, expired, rest⟩ := b
      cases rest with
      | nil => rfl
      | cons e rest => exact absurd hr (hq now expired e rest)

end TimerQueue

def TimerOp.runsNext : TimerOp → Bool
  | .runNext => true
  | _ => false

namespace TimerQueue

variable {q q' : TimerQueue} {s n : Nat} {x : Timestamp} {fs : List Firing} {k : Nat}

theorem Fires.effect (h : q.Fires n fs k) (hi : q.Inv) {op : TimerOp} (hop : op.runsNext = false)
    (he : q.Effect op q') : q'.Fires n fs k := by
  cases he with
  | idle => exact h
  | addTimer armings hp => exact h.congr rfl rfl (hi.pending_congr rfl rfl (hi.create_batch hp _ _))
  | newTimer hp => exact h.congr rfl rfl (hi.pending_congr rfl rfl (hi.create_batch hp _ _))
  | addTimerInLoop armings hp ht => exact h.congr rfl rfl (hi.pending_congr rfl rfl fun _ _ => rfl)
  | cancelInLoop ha ht hs => exact h.congr rfl rfl (hi.pending_congr rfl rfl (hi.cancelled_batch ha ht hs _))
  | handleRead hq ha =>
    have hlt := Nat.lt_succ_of_le h.current
    have hp := h.pending
    rw [pending_of_done (by rw [hq]; rfl), ite_self] at hp
    refine ⟨hlt.le, h.fired, ?_⟩
    change (if q.batches + 1 = n then _ else []) = _
    rw [if_neg hlt.ne']
    exact hp
  | runNext => cases hop
  | @finishRead clock b q' armings hq hb hr =>
    obtain ⟨hn, -, hfr, hbs, -⟩ := hr.frame
    have hn : q'.running = none := hn
    refine h.congr hbs hfr ?_
    rw [pending_of_done (q := q) (by rw [hq]; exact hb)]
    exact pending_of_done (by simp [hn])

theorem Fires.step (h : q.Fires n fs k) (hi : q.Inv) {op : TimerOp} (hs : q.step op = .ok q') :
    q'.Fires n fs (k + op.runsNext.toNat) := by
  by_cases hop : op.runsNext = true
  · cases op with
    | runNext =>
      obtain ⟨v, hv, hf⟩ := h.runNext hi
      cases hv.symm.trans hs
      exact hf
    | _ => cases hop
  · have hop := eq_false_of_ne_true hop
    rw [hop]
    exact h.effect hi hop (hi.effect hs).2

theorem Fires.run (h : q.Fires n fs k) (hi : q.Inv) :
    ∀ ops : List TimerOp, ∃ q', run TimerQueue.step q ops = .ok q' ∧ q'.Inv ∧
      q'.Fires n fs (k + ops.countP (·.runsNext)) := by
  intro ops
  induction ops generalizing q k with
  | nil => exact ⟨q, rfl, hi, h⟩
  | cons op ops ih =>
    obtain ⟨u, hu, hiu, -⟩ := hi.step op
    obtain ⟨v, hv, hiv, hf⟩ := ih (h.step hi hu) hiu
    refine ⟨v, (run_cons_ok _).mpr ⟨u, hu, hv⟩, hiv, ?_⟩
    rw [List.countP_cons, Nat.add_comm (List.countP ..), ← Nat.add_assoc]
    cases op <;> exact hf

theorem Fires.done (h : q.Fires n fs k) (hd : q.running = none ∨ n < q.batches) :
    q.fired.filter (·.batch = n) = fs := by
  apply h.all_of_drop
  rw [← h.pending]
  rcases hd with hd | hd
  · rw [pending_of_done (by rw [hd]; rfl), ite_self]
  · rw [if_neg hd.ne']

/-- Once the callbacks have run, `handleRead` returns. -/
theorem Fires.returns (h : q.Fires n fs k) (hi : q.Inv) (hk : fs.length ≤ k) (hn : q.batches = n) (clock : Timestamp) :
    ∃ q', q.step (.finishRead clock) = .ok q' ∧ q'.running = none ∧ q'.fired = q.fired := by
  have hp := h.pending
  rw [if_pos hn, List.drop_eq_nil_of_le hk] at hp
  cases hq : q.running with
  | none => exact ⟨q, by rw [TimerQueue.step, TimerQueue.finishRead, hq]; rfl, hq, rfl⟩
  | some b =>
    have hb : b.rest = [] := by
      rw [TimerQueue.pending, hq] at hp
      exact List.map_eq_nil_iff.mp hp
    obtain ⟨q', hok, hres, -⟩ := hi.finishRead hq hb clock
    obtain ⟨hnone, -, hfr, -⟩ := hres.frame
    exact ⟨_, hok, hnone, hfr⟩

theorem Inv.fires_due (h : q.Inv) (now : Timestamp) (a : OrdSet ActiveTimer) :
    (q.due now a).Fires (q.batches + 1) (q.dueFirings now) 0 := by
  refine ⟨le_refl _, ?_, ?_⟩
  · change q.fired.filter _ = []
    rw [List.filter_eq_nil_iff]
    intro f hf
    have := h.fired f hf
    simp only [decide_eq_true_eq]
    omega
  · change (if q.batches + 1 = q.batches + 1 then _ else []) = q.dueFirings now
    rw [if_pos rfl, dueFirings, ← h.below_eq now]
    rfl

theorem dueFirings_sorted (q : TimerQueue) (now : Timestamp) :
    ((q.dueFirings now).map (·.expiration)).Pairwise (· ≤ ·) := by
  rw [dueFirings, List.map_map, List.pairwise_map]
  refine (q.timers.sorted.filter _).imp ?_
  intro a b hab
  exact Entry.expiration_le hab.le

theorem Inv.dueFirings_nodup (h : q.Inv) (now : Timestamp) : ((q.dueFirings now).map (·.sequence)).Nodup := by
  rw [dueFirings, List.map_map]
  refine List.Nodup.map_on ?_ (q.timers.nodup.filter _)
  intro e he e' he' hs
  have he := (List.mem_filter.mp he).1
  have he' := (List.mem_filter.mp he').1
  obtain ⟨t, ht, -⟩ := (h.rep.timers e.expiration e.timer).mp he
  obtain ⟨t', ht', -⟩ := (h.rep.timers e'.expiration e'.timer).mp he'
  simp only [Function.comp_apply, firing, ht, ht', Option.elim_some] at hs
  exact h.rep.entry_unique he he' (h.rep.inj _ _ t t' ht ht' hs)

/-! ## Timers that do not repeat -/

/-- The running `handleRead` has started the callback of the timer at `p`. -/
def Began (q : TimerQueue) (p : Addr) : Prop :=
  ∃ b, q.running = some b ∧ p ∈ b.expired.map (·.timer) ∧ p ∉ b.rest.map (·.timer)

def runs (q : TimerQueue) (s : Nat) : Nat := q.fired.countP (·.sequence = s)

/-- The timer with number `s` does not repeat and expires at `x`. -/
structure Once (q : TimerQueue) (s : Nat) (x : Timestamp) : Prop where
  created : s ≤ q.numCreated
  live : ∀ p t, q.heap p = some t → t.sequence = s → t.repeats = false ∧ t.expiration = x ∧
    ∀ f ∈ q.fired, f.sequence = s → q.Began p ∧ f.batch = q.batches
  once : q.runs s ≤ 1
  fired : ∀ f ∈ q.fired, f.sequence = s → f.expiration = x ∧ x ≤ f.now

structure Punctual (q : TimerQueue) : Prop where
  due : ∀ b, q.running = some b → ∀ e ∈ b.expired, e.expiration ≤ b.now
  ran : ∀ b, q.running = some b → ∀ e ∈ b.expired, e ∈ b.rest ∨ q.firing b.now q.batches e ∈ q.fired
  fired : ∀ f ∈ q.fired, f.sequence ≤ q.numCreated ∧ f.expiration ≤ f.now
  once : ∀ p t, q.heap p = some t → t.repeats = false → q.Once t.sequence t.expiration

theorem runs_eq_zero (h : ∀ f ∈ q.fired, f.sequence ≠ s) : q.runs s = 0 := by
  rw [runs, List.countP_eq_zero]
  intro f hf
  simp [h f hf]

theorem Once.congr (h : q.Once s x) (hn : q.numCreated ≤ q'.numCreated) (hr : q'.running = q.running)
    (hb : q'.batches = q.batches) (hf : q'.fired = q.fired)
    (hh : ∀ p t, q'.heap p = some t → t.sequence = s → q.heap p = some t) : q'.Once s x := by
  refine ⟨h.created.trans hn, ?_, ?_, ?_⟩
  · intro p t ht hs
    have := h.live p t (hh p t ht hs) hs
    simpa only [Began, hr, hf, hb] using this
  · simpa only [runs, hf] using h.once
  · rw [hf]; exact h.fired

theorem Once.create (h : q.Once s x) (p : Addr) (when : Timestamp) (interval : Interval) :
    ∀ p' t, (q.create p when interval).heap p' = some t → t.sequence = s → q.heap p' = some t := by
  intro p' t ht hs
  have hc := h.created
  rcases create_heap_iff.mp ht with ⟨rfl, rfl⟩ | ⟨-, ht⟩
  · simp only at hs
    omega
  · exact ht

theorem runs_started {b : Batch} {e : Entry} {rest : List Entry} {t : Timer} :
    (q.started b e rest t).runs s = q.runs s + if t.sequence = s then 1 else 0 := by
  simp only [runs, started, List.countP_append, List.countP_singleton, decide_eq_true_eq]

theorem Began.started {p : Addr} {b : Batch} {e : Entry} {rest : List Entry} {t : Timer} (hq : q.running = some b)
    (hb : b.rest = e :: rest) (h : q.Began p) : (q.started b e rest t).Began p := by
  obtain ⟨b', hb', hin, hout⟩ := h
  rw [hq] at hb'; cases hb'
  refine ⟨_, rfl, hin, fun hr => hout ?_⟩
  rw [hb]; exact List.mem_cons_of_mem _ hr

theorem Once.started (h : q.Once s x) (hi : q.Inv) (hp : q.Punctual) {b : Batch} {e : Entry} {rest : List Entry}
    {t : Timer} (hq : q.running = some b) (hb : b.rest = e :: rest) (ht : q.heap e.timer = some t) :
    (q.started b e rest t).Once s x := by
  have hsuf := hi.rest b hq
  rw [hb] at hsuf
  have hm : e ∈ b.expired := hsuf.subset (List.mem_cons_self ..)
  have hnd : ((e :: rest).map (·.timer)).Nodup := (hi.expired_nodup hq).sublist (hsuf.sublist.map _)
  rw [List.map_cons, List.nodup_cons] at hnd
  have hwait : ¬ q.Began e.timer := by
    rintro ⟨b', hb', -, hn⟩
    rw [hq] at hb'; cases hb'
    exact hn (by rw [hb]; exact List.mem_cons_self ..)
  obtain ⟨t', ht', hx, -⟩ := hi.loose hq hm
  obtain rfl := heap_unique ht ht'
  by_cases hs : t.sequence = s
  · obtain ⟨hr, hx', hold⟩ := h.live e.timer t ht hs
    have hnone : ∀ f ∈ q.fired, f.sequence ≠ s := fun f hf hfs => hwait (hold f hf hfs).1
    refine ⟨h.created, ?_, ?_, ?_⟩
    · intro p t' ht' hs'
      have hpe : p = e.timer := hi.rep.inj p e.timer t' t ht' ht (hs'.trans hs.symm)
      obtain ⟨h₁, h₂, -⟩ := h.live p t' ht' hs'
      refine ⟨h₁, h₂, ?_⟩
      intro f hf hfs
      rcases List.mem_append.mp hf with hf | hf
      · exact absurd hfs (hnone f hf)
      · rw [List.mem_singleton.mp hf, hpe]
        exact ⟨⟨_, rfl, List.mem_map.mpr ⟨e, hm, rfl⟩, hnd.1⟩, rfl⟩
    · rw [runs_started, runs_eq_zero hnone, if_pos hs]
    · intro f hf hfs
      rcases List.mem_append.mp hf with hf | hf
      · exact h.fired f hf hfs
      · rw [List.mem_singleton.mp hf]
        refine ⟨hx.symm.trans hx', ?_⟩
        have := hp.due b hq e hm
        rw [← hx, hx'] at this
        exact this
  · have hold : ∀ f ∈ (q.started b e rest t).fired, f.sequence = s → f ∈ q.fired := by
      intro f hf hfs
      rcases List.mem_append.mp hf with hf | hf
      · exact hf
      · rw [List.mem_singleton.mp hf] at hfs
        exact absurd hfs hs
    refine ⟨h.created, ?_, ?_, ?_⟩
    · intro p t' ht' hs'
      obtain ⟨h₁, h₂, h₃⟩ := h.live p t' ht' hs'
      refine ⟨h₁, h₂, ?_⟩
      intro f hf hfs
      obtain ⟨hbegan, hcur⟩ := h₃ f (hold f hf hfs) hfs
      exact ⟨hbegan.started hq hb, hcur⟩
    · rw [runs_started, if_neg hs]; exact h.once
    · intro f hf hfs
      exact h.fired f (hold f hf hfs) hfs

theorem Once.effect (h : q.Once s x) (hi : q.Inv) (hp : q.Punctual) {op : TimerOp} (he : q.Effect op q') :
    q'.Once s x := by
  cases he with
  | idle => exact h
  | addTimer armings hp => exact h.congr (Nat.le_succ _) rfl rfl rfl (h.create _ _ _)
  | newTimer hp => exact h.congr (Nat.le_succ _) rfl rfl rfl (h.create _ _ _)
  | addTimerInLoop armings hp ht => exact h.congr (le_refl _) rfl rfl rfl fun _ _ ht _ => ht
  | cancelInLoop ha ht hs => exact h.congr (le_refl _) rfl rfl rfl fun _ _ ht _ => (update_none_iff.mp ht).2
  | handleRead hq ha =>
    refine ⟨h.created, ?_, h.once, h.fired⟩
    intro p t ht hs
    obtain ⟨h₁, h₂, h₃⟩ := h.live p t ht hs
    refine ⟨h₁, h₂, ?_⟩
    intro f hf hfs
    obtain ⟨⟨b, hb, -⟩, -⟩ := h₃ f hf hfs
    rw [hq] at hb; cases hb
  | runNext hq hb ht => exact h.started hi hp hq hb ht
  | @finishRead clock b q' armings hq hb hr =>
    obtain ⟨-, -, hfr, -, -, hnum⟩ := hr.frame
    have hfr : q'.fired = q.fired := hfr
    have hnum : q'.numCreated = q.numCreated := hnum
    refine ⟨hnum ▸ h.created, ?_, ?_, ?_⟩
    · intro p t ht hs
      rcases hi.live_after hq hr ht with ⟨hm, ht⟩ | ⟨t₀, ht₀, hr₀, rfl⟩
      · -- it was not in the batch, so it has not run in it
        obtain ⟨h₁, h₂, h₃⟩ := h.live p t ht hs
        refine ⟨h₁, h₂, ?_⟩
        intro f hf hfs
        obtain ⟨⟨b', hb', hm', -⟩, -⟩ := h₃ f (hfr ▸ hf) hfs
        rw [hq] at hb'; cases hb'
        exact absurd hm' hm
      · rw [restart_sequence] at hs
        rw [(h.live p t₀ ht₀ hs).1] at hr₀; cases hr₀
    · simpa only [runs, hfr] using h.once
    · intro f hf
      exact h.fired f (hfr ▸ hf)

theorem Punctual.fresh (h : q.Punctual) (hi : q.Inv) {p : Addr} {when : Timestamp} {interval : Interval}
    (hp : interval.positive = false) (hh : q'.heap = (q.create p when interval).heap)
    (hn : q'.numCreated = q.numCreated + 1) (hf : q'.fired = q.fired) : q'.Once (q.numCreated + 1) when := by
  have hnone : ∀ f ∈ q'.fired, f.sequence ≠ q.numCreated + 1 := by
    intro f hm he
    rw [hf] at hm
    have := (h.fired f hm).1
    omega
  refine ⟨hn.ge, ?_, ?_, ?_⟩
  · intro p' t ht hs
    rw [hh] at ht
    rcases create_heap_iff.mp ht with ⟨rfl, rfl⟩ | ⟨-, ht⟩
    · exact ⟨hp, rfl, fun f hm hs => absurd hs (hnone f hm)⟩
    · have := (hi.rep.bounds p' t ht).2
      omega
  · rw [runs_eq_zero hnone]
    exact Nat.zero_le 1
  · intro f hm hs
    exact absurd hs (hnone f hm)

theorem Punctual.ran_congr (h : q.Punctual) (hr : q'.running = q.running) (hb : q'.batches = q.batches)
    (hf : q'.fired = q.fired) (hh : ∀ e ∈ q.batch, q'.heap e.timer = q.heap e.timer) :
    ∀ b, q'.running = some b → ∀ e ∈ b.expired, e ∈ b.rest ∨ q'.firing b.now q'.batches e ∈ q'.fired := by
  intro b hq e he
  rw [hr] at hq
  have hm : e ∈ q.batch := by rw [Inv.batch_eq hq]; exact he
  have := h.ran b hq e he
  simpa only [firing, hh e hm, hb, hf] using this

theorem Punctual.create (h : q.Punctual) (hi : q.Inv) {p : Addr} {when : Timestamp} {interval : Interval}
    (hfree : q.heap p = none) (hh : q'.heap = (q.create p when interval).heap)
    (hn : q'.numCreated = q.numCreated + 1) (hr : q'.running = q.running) (hb : q'.batches = q.batches)
    (hf : q'.fired = q.fired) : q'.Punctual := by
  refine ⟨?_, h.ran_congr hr hb hf (hh ▸ hi.create_batch hfree when interval), ?_, ?_⟩
  · rw [hr]; exact h.due
  · rw [hf, hn]
    intro f hm
    exact ⟨Nat.le_succ_of_le (h.fired f hm).1, (h.fired f hm).2⟩
  · intro p' t ht hrep
    rw [hh] at ht
    rcases create_heap_iff.mp ht with ⟨rfl, rfl⟩ | ⟨-, ht⟩
    · exact h.fresh hi hrep hh hn hf
    · have ho := h.once p' t ht hrep
      refine ho.congr (by omega) hr hb hf ?_
      rw [hh]
      exact ho.create p when interval

theorem Punctual.effect (h : q.Punctual) (hi : q.Inv) {op : TimerOp} (he : q.Effect op q') : q'.Punctual := by
  -- a timer that does not repeat is as it was
  have honce : (∀ p t, q'.heap p = some t → t.repeats = false → q.heap p = some t) →
      ∀ p t, q'.heap p = some t → t.repeats = false → q'.Once t.sequence t.expiration :=
    fun hold p t ht hr => (h.once p t (hold p t ht hr) hr).effect hi h he
  cases he with
  | idle => exact h
  | addTimer armings hp => exact h.create hi hp rfl rfl rfl rfl rfl
  | newTimer hp => exact h.create hi hp rfl rfl rfl rfl rfl
  | addTimerInLoop armings hp ht =>
    exact ⟨h.due, h.ran_congr rfl rfl rfl fun _ _ => rfl, h.fired, honce fun _ _ ht _ => ht⟩
  | cancelInLoop ha ht hs =>
    exact ⟨h.due, h.ran_congr rfl rfl rfl (hi.cancelled_batch ha ht hs _), h.fired,
      honce fun _ _ ht _ => (update_none_iff.mp ht).2⟩
  | @handleRead now a hq ha =>
    refine ⟨?_, ?_, h.fired, honce fun _ _ ht _ => ht⟩
    · intro b hb e he
      cases hb
      rw [hi.below_eq] at he
      simpa using (List.mem_filter.mp he).2
    · intro b hb e he
      cases hb
      exact .inl he
  | @runNext b e rest t hq hb ht =>
    have hm : e ∈ b.expired := (hi.rest b hq).subset (hb ▸ List.mem_cons_self ..)
    refine ⟨?_, ?_, ?_, honce fun _ _ ht _ => ht⟩
    · intro b' hb'
      cases hb'
      exact h.due b hq
    · intro b' hb' e' he'
      cases hb'
      rcases h.ran b hq e' he' with hr | hr
      · rw [hb] at hr
        rcases List.mem_cons.mp hr with rfl | hr
        · right
          refine List.mem_append_right _ (List.mem_singleton.mpr ?_)
          change q.firing b.now q.batches e' = _
          simp [firing, ht]
        · exact .inl hr
      · exact .inr (List.mem_append_left _ hr)
    · intro f hf
      rcases List.mem_append.mp hf with hf | hf
      · exact h.fired f hf
      · rw [List.mem_singleton.mp hf]
        exact ⟨(hi.rep.bounds e.timer t ht).2, h.due b hq e hm⟩
  | @finishRead clock b q' armings hq hb hr =>
    obtain ⟨hn, -, hfr, -, -, hnum⟩ := hr.frame
    have hn : q'.running = none := hn
    have hfr : q'.fired = q.fired := hfr
    have hnum : q'.numCreated = q.numCreated := hnum
    refine ⟨by simp [hn], by simp [hn], by simpa only [hfr, hnum] using h.fired, honce ?_⟩
    intro p t ht hrep
    rcases hi.live_after hq hr ht with ⟨-, ht⟩ | ⟨t₀, -, hr₀, rfl⟩
    · exact ht
    · rw [restart_repeats, hr₀] at hrep; cases hrep

theorem Punctual.init : Punctual {} := by
  refine ⟨?_, ?_, ?_, ?_⟩ <;> simp

theorem punctual_run (ops : List TimerOp) : ∃ q, run TimerQueue.step {} ops = .ok q ∧ q.Inv ∧ q.Punctual := by
  refine run_total (I := fun q : TimerQueue => q.Inv ∧ q.Punctual) ?_ ⟨Inv.init, Punctual.init⟩
  intro q op h
  obtain ⟨q', hok, hi, he⟩ := h.1.step op
  exact ⟨q', hok, hi, h.2.effect h.1 he⟩

theorem Once.run (h : q.Once s x) (hi : q.Inv) (hp : q.Punctual) {ops : List TimerOp}
    (hr : run TimerQueue.step q ops = .ok q') : q'.Once s x := by
  have := run_inv (I := fun q => q.Once s x ∧ q.Inv ∧ q.Punctual) ?_ ⟨h, hi, hp⟩ hr
  · exact this.1
  · intro q op q' hq hs
    obtain ⟨hi, he⟩ := hq.2.1.effect hs
    exact ⟨hq.1.effect hq.2.1 hq.2.2 he, hi, hq.2.2.effect hq.2.1 he⟩

end TimerQueue

open TimerQueue

/-- Over every run: of the timers that were due when a `handleRead` took its batch, the
callbacks of the first `k` have run after `k` turns of its loop, whatever else has
happened, and all of them when it has returned or another has started; after as many
turns as there are timers it returns. The list is in the order of the expirations, and no
timer is in it twice; what stays in `timers_` expires later. A timer that does not repeat
runs once at most, when its expiration has been reached. A timer of the batch that
repeats is put back for the batch's reading of the clock. -/
theorem timers_fire_when_due (ops : List TimerOp) :
    ∃ q, run TimerQueue.step {} ops = .ok q ∧
      (q.running = none → ∀ now, ∃ q₁, q.step (.handleRead now) = .ok q₁ ∧
        (∀ e ∈ q₁.timers, now < e.expiration) ∧
        ((q.dueFirings now).map (·.expiration)).Pairwise (· ≤ ·) ∧ ((q.dueFirings now).map (·.sequence)).Nodup ∧
        ∀ later, ∃ v, run TimerQueue.step q₁ later = .ok v ∧
          v.fired.filter (·.batch = q.batches + 1) = (q.dueFirings now).take (later.countP (·.runsNext)) ∧
          (v.running = none ∨ q.batches + 1 < v.batches →
            v.fired.filter (·.batch = q.batches + 1) = q.dueFirings now) ∧
          ((q.dueFirings now).length ≤ later.countP (·.runsNext) → v.batches = q.batches + 1 → ∀ clock,
            ∃ w, v.step (.finishRead clock) = .ok w ∧ w.running = none ∧
              w.fired.filter (·.batch = q.batches + 1) = q.dueFirings now)) ∧
      (∀ p t, q.heap p = some t → t.repeats = false → ∀ later v, run TimerQueue.step q later = .ok v →
        v.fired.countP (·.sequence = t.sequence) ≤ 1 ∧
        ∀ f ∈ v.fired, f.sequence = t.sequence → f.expiration = t.expiration ∧ t.expiration ≤ f.now) ∧
      ∀ b, q.running = some b → b.rest = [] → ∀ clock, ∃ q', q.step (.finishRead clock) = .ok q' ∧
        ∀ e ∈ b.expired, ∀ t, q.heap e.timer = some t → t.repeats = true →
          ⟨b.now + t.interval.micros, e.timer⟩ ∈ q'.timers ∧ ⟨e.timer, t.sequence⟩ ∈ q'.activeTimers := by
  obtain ⟨q, hok, hi, hp⟩ := punctual_run ops
  refine ⟨q, hok, ?_, ?_, ?_⟩
  · intro hq now
    obtain ⟨a, hread, -, hi₁⟩ := hi.handleRead hq now
    refine ⟨q.due now a, by simp [TimerQueue.step, hq, hread], ?_, dueFirings_sorted q now, hi.dueFirings_nodup now, ?_⟩
    · intro e he
      obtain ⟨he, hle⟩ := OrdSet.mem_above.mp he
      exact (hi.rep.sentry_le he).mp hle
    · intro later
      obtain ⟨v, hv, hiv, hf⟩ := (hi.fires_due now a).run hi₁ later
      rw [Nat.zero_add] at hf
      refine ⟨v, hv, hf.fired, hf.done, fun hk hn clock => ?_⟩
      obtain ⟨w, hw, hnone, hfr⟩ := hf.returns hiv hk hn clock
      refine ⟨w, hw, hnone, ?_⟩
      rw [hfr, hf.fired, List.take_of_length_le hk]
  · intro p t ht hr later v hv
    have ho := (hp.once p t ht hr).run hi hp hv
    exact ⟨ho.once, ho.fired⟩
  · intro b hb hrest clock
    exact hi.rescheduled hb hrest clock

/-- Timer 1 is due once at 100, timer 2 every 30 from 50 on. -/
def twoTimers : List TimerOp :=
  [.addTimer 16 100 ⟨false, 0, fun h => by cases h⟩ 0, .addTimer 32 50 ⟨true, 30, fun _ => by decide⟩ 0]

/-- The callback of timer 2 adds a timer that has been due for long. -/
def lateTimer : List TimerOp := [.runNext, .addTimer 48 10 ⟨false, 0, fun h => by cases h⟩ 121, .runNext]

/-- At 120 both timers run, the one that expired first before the other and without the one
that was added; then `handleRead` returns. -/
theorem timers_fire_when_due_both :
    ∃ q q₁ v w, run TimerQueue.step {} twoTimers = .ok q ∧ q.step (.handleRead 120) = .ok q₁ ∧
      run TimerQueue.step q₁ lateTimer = .ok v ∧ v.step (.finishRead 122) = .ok w ∧ w.running = none ∧
      w.fired.filter (·.batch = 1) = [⟨2, 50, 120, 1⟩, ⟨1, 100, 120, 1⟩] := by
  obtain ⟨q, hq, hread, -⟩ := timers_fire_when_due twoTimers
  have hdue : (run TimerQueue.step {} twoTimers).map (fun q => (q.running.isNone, q.batches, q.dueFirings 120)) =
      .ok (true, 0, [⟨2, 50, 120, 1⟩, ⟨1, 100, 120, 1⟩]) := by
    decide +kernel
  rw [hq] at hdue
  obtain ⟨hnone, hfirings⟩ := Prod.mk.inj (Except.ok.inj hdue)
  obtain ⟨hbatches, hfirings⟩ := Prod.mk.inj hfirings
  obtain ⟨q₁, hq₁, -, -, -, hlater⟩ := hread (Option.isNone_iff_eq_none.mp hnone) 120
  obtain ⟨v, hv, -, -, hreturns⟩ := hlater lateTimer
  have hcount : (run TimerQueue.step {} (twoTimers ++ .handleRead 120 :: lateTimer)).map (·.batches) = .ok 1 := by
    decide +kernel
  rw [run_append, hq, ok_bind, run_cons, hq₁, ok_bind, hv] at hcount
  rw [hfirings, hbatches] at hreturns
  obtain ⟨w, hw, hend, hfired⟩ := hreturns (by decide) (Except.ok.inj hcount) 122
  exact ⟨q, q₁, v, w, hq, hq₁, hv, hw, hend, hfired⟩

end Zhengqi
