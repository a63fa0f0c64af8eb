import Zhengqi.TimerRunSound

/-!
# Cancelled timers

Nothing inserts into `cancelingTimers_`, so `reset` puts a repeating timer back
that was cancelled while its batch ran. `cancelled_timer_stays_cancelled`: this is
the only cancellation that does not hold. A timer that is `Gone` cannot come back.
-/

namespace Zhengqi

open Run

def TimerOp.inLoop : TimerOp → Bool
  | .newTimer .. | .addTimerInLoop .. => false
  | _ => true

namespace TimerQueue

variable {q q' : TimerQueue} {s n : Nat}

def Scheduled (q : TimerQueue) (s : Nat) : Prop :=
  ∃ x p t, ⟨x, p⟩ ∈ q.timers ∧ q.heap p = some t ∧ t.sequence = s

/-- `id` is a repeating timer of the batch whose callbacks are running. -/
def RepeatsInBatch (q : TimerQueue) (id : ActiveTimer) : Prop :=
  id.timer ∈ q.batch.map (·.timer) ∧ ∃ t, q.heap id.timer = some t ∧ t.sequence = id.sequence ∧ t.repeats = true

/-- The timer with number `s` is deleted, or will be by the end of the `handleRead` with
count `n`, the last that starts its callback. -/
structure Gone (q : TimerQueue) (s n : Nat) : Prop where
  created : s ≤ q.numCreated
  current : n ≤ q.batches
  live : ∀ p t, q.heap p = some t → t.sequence = s →
    t.repeats = false ∧ ⟨p, s⟩ ∉ q.activeTimers ∧ p ∉ q.inflight
  fired : ∀ f ∈ q.fired, f.sequence = s → f.batch ≤ n
  rest : n < q.batches → ∀ b, q.running = some b → ∀ e ∈ b.rest, ∀ t, q.heap e.timer = some t → t.sequence ≠ s

/-! ## A timer that is gone -/

theorem Gone.not_scheduled (h : q.Gone s n) (hi : q.Inv) : ¬ q.Scheduled s := by
  rintro ⟨x, p, t, hm, ht, rfl⟩
  obtain ⟨t', ht', -, ha⟩ := (hi.rep.timers x p).mp hm
  obtain rfl := heap_unique ht ht'
  exact (h.live p t ht rfl).2.1 ha

-- the sets, the heap and the functors in flight are all that live reads
theorem Gone.rescheduled (h : q.Gone s n) {p : Addr} {t : Timer} {now : Timestamp} (ht : q.heap p = some t)
    (hr : t.repeats = true) (hq : q.running = none) : (q.rescheduled p t now).Gone s n := by
  have hne : t.sequence ≠ s := by
    intro he
    rw [(h.live p t ht he).1] at hr; cases hr
  refine ⟨h.created, h.current, ?_, h.fired, ?_⟩
  · intro p' t' ht' hs'
    rcases update_some_iff.mp ht' with ⟨rfl, hu⟩ | ⟨hpp, hu⟩
    · cases hu
      exact absurd ((restart_sequence t now).symm.trans hs') hne
    · obtain ⟨h₁, h₂, h₃⟩ := h.live p' t' hu hs'
      refine ⟨h₁, ?_, h₃⟩
      intro ha
      rcases mem_schedule_active.mp ha with ha | ha
      · exact hpp (congrArg ActiveTimer.timer ha)
      · exact h₂ ha
  · intro _ b hb
    rw [show (q.rescheduled p t now).running = q.running from rfl, hq] at hb
    cases hb

theorem Gone.discarded (h : q.Gone s n) (p : Addr) (t : Timer) : (q.discarded p t).Gone s n := by
  refine ⟨h.created, h.current, ?_, h.fired, ?_⟩
  · intro p' t' ht'
    exact h.live p' t' (update_none_iff.mp ht').2
  · intro hn b hb e he t' ht'
    exact h.rest hn b hb e he t' (update_none_iff.mp ht').2

theorem Gone.create (h : q.Gone s n) (p : Addr) (when : Timestamp) (interval : Interval) {active : OrdSet ActiveTimer}
    {inflight : List Addr} (ha : ∀ p', p' ≠ p → ⟨p', s⟩ ∈ active → ⟨p', s⟩ ∈ q.activeTimers)
    (hf : ∀ p', p' ≠ p → p' ∈ inflight → p' ∈ q.inflight) {timers : OrdSet Entry} {armings : List Arming} :
    Gone { q.create p when interval with timers, activeTimers := active, inflight, armings } s n := by
  have hnew : ∀ p' t, (q.create p when interval).heap p' = some t → t.sequence = s → p' ≠ p ∧ q.heap p' = some t := by
    intro p' t ht hs
    have := h.created
    rcases create_heap_iff.mp ht with ⟨rfl, rfl⟩ | hu
    · simp only at hs
      omega
    · exact hu
  refine ⟨Nat.le_succ_of_le h.created, h.current, ?_, h.fired, ?_⟩
  · intro p' t ht hs
    obtain ⟨hpp, ht⟩ := hnew p' t ht hs
    obtain ⟨h₁, h₂, h₃⟩ := h.live p' t ht hs
    exact ⟨h₁, fun hm => h₂ (ha p' hpp hm), fun hm => h₃ (hf p' hpp hm)⟩
  · intro hn b hb e he t ht hs
    exact h.rest hn b hb e he t (hnew _ t ht hs).2 hs

theorem Gone.effect (h : q.Gone s n) (hi : q.Inv) {op : TimerOp} (he : q.Effect op q') : q'.Gone s n := by
  cases he with
  | idle => exact h
  | addTimer armings hp =>
    refine h.create _ _ _ ?_ ?_
    · intro p' hpp hm
      rcases mem_schedule_active.mp hm with hm | hm
      · exact absurd (congrArg ActiveTimer.timer hm) hpp
      · exact hm
    · intro p' _ hm
      exact hm
  | newTimer hp =>
    refine h.create _ _ _ ?_ ?_
    · intro p' _ hm
      exact hm
    · intro p' hpp hm
      rcases List.mem_cons.mp hm with hm | hm
      · exact absurd hm hpp
      · exact hm
  | addTimerInLoop armings hp ht =>
    refine ⟨h.created, h.current, ?_, h.fired, h.rest⟩
    intro p' t' ht' hs'
    obtain ⟨h₁, h₂, h₃⟩ := h.live p' t' ht' hs'
    refine ⟨h₁, ?_, fun hm => h₃ (List.mem_of_mem_erase hm)⟩
    intro hm
    rcases mem_schedule_active.mp hm with hm | hm
    · have hpp := congrArg ActiveTimer.timer hm
      simp only at hpp
      exact h₃ (hpp ▸ hp)
    · exact h₂ hm
  | cancelInLoop ha ht hs =>
    refine ⟨h.created, h.current, ?_, h.fired, ?_⟩
    · intro p' t' ht' hs'
      obtain ⟨h₁, h₂, h₃⟩ := h.live p' t' (update_none_iff.mp ht').2 hs'
      exact ⟨h₁, fun hm => h₂ (OrdSet.mem_erase.mp hm).1, h₃⟩
    · intro hn b hb e he t' ht'
      exact h.rest hn b hb e he t' (update_none_iff.mp ht').2
  | handleRead hq ha =>
    refine ⟨h.created, Nat.le_succ_of_le h.current, ?_, h.fired, ?_⟩
    · intro p' t' ht' hs'
      obtain ⟨h₁, h₂, h₃⟩ := h.live p' t' ht' hs'
      exact ⟨h₁, fun hm => h₂ (ha _ hm), h₃⟩
    · -- the new batch comes out of timers_
      intro _ b hb e he t ht hs
      cases hb
      refine h.not_scheduled hi ⟨e.expiration, e.timer, t, (OrdSet.mem_below.mp he).1, ht, hs⟩
  | runNext hq hb ht =>
    rename_i b e rest t
    refine ⟨h.created, h.current, h.live, ?_, ?_⟩
    · intro f hf hs
      rcases List.mem_append.mp hf with hf | hf
      · exact h.fired f hf hs
      · rw [List.mem_singleton] at hf
        subst hf
        by_contra hn
        exact h.rest (Nat.lt_of_not_le hn) b hq e (hb ▸ List.mem_cons_self ..) t ht hs
    · intro hn b' hb' e' he' t' ht'
      cases hb'
      exact h.rest hn b hq e' (hb ▸ List.mem_cons_of_mem _ he') t' ht'
  | finishRead armings hq hb hr =>
    have hg : Gone q.called s n := ⟨h.created, h.current, h.live, h.fired, fun _ b hb => by cases hb⟩
    have := Resets.inv (P := fun q => q.running = none ∧ q.Gone s n)
      (fun q p t ht hrep hk => ⟨hk.1, hk.2.rescheduled ht hrep hk.1⟩)
      (fun q p t ht _ hk => ⟨hk.1, hk.2.discarded p t⟩) hr ⟨rfl, hg⟩
    exact ⟨this.2.created, this.2.current, this.2.live, this.2.fired, this.2.rest⟩

theorem Gone.run {ops : List TimerOp} (h : q.Gone s n) (hi : q.Inv) (hr : run TimerQueue.step q ops = .ok q') :
    q'.Gone s n ∧ q'.Inv := by
  refine run_inv (I := fun q => q.Gone s n ∧ q.Inv) ?_ ⟨h, hi⟩ hr
  intro q op q' hq hs
  obtain ⟨hi, he⟩ := hq.2.effect hs
  exact ⟨hq.1.effect hq.2 he, hi⟩

/-! ## The loop's thread -/

theorem Effect.inflight {op : TimerOp} (h : q.Effect op q') (ho : op.inLoop = true) : q'.inflight = q.inflight := by
  cases h with
  | newTimer hp => cases ho
  | addTimerInLoop armings hp ht => cases ho
  | finishRead armings hq hb hr => exact hr.frame.2.2.2.2.1
  | _ => rfl

theorem inLoop_run {ops : List TimerOp} (ho : ∀ op ∈ ops, op.inLoop = true)
    (hr : run TimerQueue.step {} ops = .ok q) : q.Inv ∧ q.inflight = [] := by
  refine Meets.inv (C := fun _ op => op.inLoop = true) (I := fun q => q.Inv ∧ q.inflight = []) ?_
    (Meets.of_forall fun op hm _ => ho op hm) ⟨Inv.init, rfl⟩ hr
  intro q op q' hq hop hs
  obtain ⟨hi, he⟩ := hq.1.effect hs
  exact ⟨hi, (he.inflight hop).trans hq.2⟩

theorem Inv.gone_of_cancelled (h : q.Inv) {id : ActiveTimer} (hid : id ∈ q.created) {t : Timer}
    (ht : q.heap id.timer = some t) (hs : t.sequence = id.sequence) :
    (q.cancelled id t.expiration).Gone id.sequence q.batches := by
  refine ⟨h.ledger.sequence_le (List.mem_map.mpr ⟨id, hid, rfl⟩), Nat.le_refl _, ?_, fun f hf _ => h.fired f hf,
    fun hn => absurd hn (Nat.lt_irrefl _)⟩
  intro p t' ht' hs'
  obtain ⟨hne, ht'⟩ := update_none_iff.mp ht'
  exact absurd (h.rep.inj p id.timer t' t ht' ht (hs'.trans hs.symm)) hne

-- a timer that is neither active nor in flight is in the batch
theorem Inv.gone_of_not_active (h : q.Inv) (hq : q.inflight = []) {id : ActiveTimer} (hid : id ∈ q.created)
    (ha : id ∉ q.activeTimers) (hb : ¬ q.RepeatsInBatch id) : q.Gone id.sequence q.batches := by
  refine ⟨h.ledger.sequence_le (List.mem_map.mpr ⟨id, hid, rfl⟩), Nat.le_refl _, ?_, fun f hf _ => h.fired f hf,
    fun hn => absurd hn (Nat.lt_irrefl _)⟩
  intro p t ht hs
  obtain rfl : ⟨p, t.sequence⟩ = id := h.ledger.unique (h.ledger.live p t ht) hid hs
  rw [hq]
  refine ⟨?_, ha, List.not_mem_nil⟩
  by_contra hr
  rw [Bool.not_eq_false] at hr
  rcases h.rep.placed p t ht with ha' | hm | hf
  · exact ha ha'
  · exact hb ⟨hm, t, ht, rfl, hr⟩
  · rw [hq] at hf; cases hf

/-! ## A repeating timer of the running batch -/

theorem Inv.run_rest {rest : List Entry} : ∀ {q : TimerQueue} {b : Batch}, q.Inv → q.running = some b → b.rest = rest →
    ∃ q', Run.run TimerQueue.step q (List.replicate rest.length .runNext) = .ok q' ∧ q'.Inv ∧
      q'.running = some { b with rest := [] } ∧ q'.heap = q.heap ∧ q'.inflight = q.inflight := by
  induction rest with
  | nil =>
    intro q b h hq hb
    exact ⟨q, rfl, h, by rw [hq, ← hb], rfl, rfl⟩
  | cons e rest ih =>
    intro q b h hq hb
    obtain ⟨t, -, hok, hi⟩ := h.runNext hq hb
    obtain ⟨q', hr, hi', h₁, h₂, h₃⟩ := ih (b := { b with rest }) hi rfl rfl
    refine ⟨q', ?_, hi', h₁, h₂, h₃⟩
    rw [List.length_cons, List.replicate_succ]
    exact (run_cons_ok _).mpr ⟨_, hok, hr⟩

theorem Resets.keeps_repeating {now : Timestamp} {es : List Entry} (h : Resets now es q q')
    (hc : ∀ id, id ∉ q.cancelingTimers) {p : Addr} (ha : ∃ t, q.heap p = some t ∧ t.sequence = s ∧ t.repeats = true) :
    ∃ t, q'.heap p = some t ∧ t.sequence = s ∧ t.repeats = true := by
  have := Resets.inv (P := fun q => (∀ id, id ∉ q.cancelingTimers) ∧
    ∃ t, q.heap p = some t ∧ t.sequence = s ∧ t.repeats = true) ?_ ?_ h ⟨hc, ha⟩
  · exact this.2
  · rintro q p' t' ht' hr' ⟨hc, t, ht, hs, hr⟩
    refine ⟨hc, ?_⟩
    by_cases hpp : p = p'
    · subst hpp
      obtain rfl := heap_unique ht ht'
      exact ⟨t.restart now, Function.update_self .., (restart_sequence t now).trans hs,
        (restart_repeats t now).trans hr⟩
    · exact ⟨t, (Function.update_of_ne hpp ..).trans ht, hs, hr⟩
  · rintro q p' t' ht' hr' ⟨hc, t, ht, hs, hr⟩
    refine ⟨hc, ?_⟩
    by_cases hpp : p = p'
    · subst hpp
      obtain rfl := heap_unique ht ht'
      exact absurd (hr' hr) (hc _)
    · exact ⟨t, (Function.update_of_ne hpp ..).trans ht, hs, hr⟩

theorem Inv.repeats_again (h : q.Inv) (hq : q.inflight = []) {id : ActiveTimer} (hb : q.RepeatsInBatch id) :
    ∃ later q', (∀ op ∈ later, op.inLoop = true) ∧ Run.run TimerQueue.step q later = .ok q' ∧ q'.running = none ∧
      q'.Scheduled id.sequence := by
  obtain ⟨hm, ha⟩ := hb
  cases hr : q.running with
  | none => rw [batch, hr] at hm; cases hm
  | some b =>
    obtain ⟨q₁, hr₁, hi₁, hb₁, hh₁, hf₁⟩ := h.run_rest hr rfl
    obtain ⟨q₂, hok, hres, hi₂⟩ := hi₁.finishRead hb₁ rfl 0
    obtain ⟨hn, -, -, -, hf₂, -⟩ := hres.frame
    obtain ⟨t, ht, hs, -⟩ := hres.keeps_repeating hi₁.canceling (p := id.timer) (by rw [← hh₁] at ha; exact ha)
    have hrun : Run.run TimerQueue.step q₁ [.finishRead 0] = .ok { q₂ with armings := q₂.armingsReset 0 } :=
      (run_cons_ok _).mpr ⟨_, hok, rfl⟩
    refine ⟨List.replicate b.rest.length .runNext ++ [.finishRead 0], { q₂ with armings := q₂.armingsReset 0 }, ?_,
      (run_append_ok _).mpr ⟨q₁, hr₁, hrun⟩, hn, ?_⟩
    · intro op hop
      rcases List.mem_append.mp hop with hop | hop
      · rw [List.eq_of_mem_replicate hop]; rfl
      · rw [List.mem_singleton.mp hop]; rfl
    · have hbatch : TimerQueue.batch { q₂ with armings := q₂.armingsReset 0 } = [] := by
        have hn : q₂.running = none := hn
        simp [batch, hn]
      rcases hi₂.rep.placed id.timer t ht with ha | hb | hf
      · exact ⟨t.expiration, id.timer, t, (hi₂.rep.timers _ _).mpr ⟨t, ht, rfl, ha⟩, ht, hs⟩
      · rw [hbatch] at hb; cases hb
      · have hf : id.timer ∈ q₂.inflight := hf
        rw [hf₂] at hf
        have hf : id.timer ∈ q₁.inflight := hf
        rw [hf₁, hq] at hf; cases hf

end TimerQueue

open TimerQueue

/-- From any state of the loop's thread, a timer that is cancelled is out of `timers_`
once the current `handleRead` has returned, and no later `handleRead` starts its
callback, exactly when it is not a repeating timer of the batch being run. -/
theorem cancelled_timer_stays_cancelled {ops : List TimerOp} {u : TimerQueue} {id : ActiveTimer}
    (hl : ∀ op ∈ ops, op.inLoop = true) (hu : run TimerQueue.step {} ops = .ok u) (hid : id ∈ u.created) :
    ∃ u', u.step (.cancelInLoop id) = .ok u' ∧
      ((∀ later v, (∀ op ∈ later, op.inLoop = true) → run TimerQueue.step u' later = .ok v →
          (v.running = none → ¬ v.Scheduled id.sequence) ∧
          ∀ f ∈ v.fired, f.sequence = id.sequence → f.batch ≤ u.batches) ↔
        ¬ u.RepeatsInBatch id) := by
  obtain ⟨hi, hf⟩ := inLoop_run hl hu
  obtain ⟨u', hs, hi', he⟩ := hi.step (.cancelInLoop id)
  refine ⟨u', hs, ?_, ?_⟩
  · intro hstay hb
    have hna : id ∉ u.activeTimers := by
      obtain ⟨hm, t, ht, hs, -⟩ := hb
      obtain ⟨e, he, hee⟩ := List.mem_map.mp hm
      obtain ⟨t', ht', -, ha, -⟩ := hi.rep.loose e he
      rw [hee] at ht' ha
      obtain rfl := heap_unique ht ht'
      rwa [hs] at ha
    have hu' : u' = u := by
      cases he with
      | idle => rfl
      | cancelInLoop ha ht hs => exact absurd ha hna
    subst hu'
    obtain ⟨later, v, hlater, hrun, hn, hv⟩ := hi.repeats_again hf hb
    exact (hstay later v hlater hrun).1 hn hv
  · intro hb later v _ hrun
    have hg : u'.Gone id.sequence u.batches := by
      rcases hi.rep.cancelInLoop id with ⟨hna, hok⟩ | ⟨t, -, ht, hseq, hok, -⟩
      · rw [show u.step (.cancelInLoop id) = .ok u from hok] at hs; cases hs
        exact hi.gone_of_not_active hf hid hna hb
      · rw [show u.step (.cancelInLoop id) = .ok (u.cancelled id t.expiration) from hok] at hs; cases hs
        exact hi.gone_of_cancelled hid ht hseq
    obtain ⟨hgv, hiv⟩ := hg.run hi' hrun
    exact ⟨fun _ => hgv.not_scheduled hiv, hgv.fired⟩

theorem cancelled_timer_stays_cancelled_before_due :
    ∃ u u', run TimerQueue.step {}
        [.addTimer 1 10 ⟨true, 5, by decide⟩ 0, .addTimer 2 5 ⟨false, 0, by decide⟩ 0, .handleRead 5, .runNext] =
          .ok u ∧
      u.step (.cancelInLoop ⟨1, 1⟩) = .ok u' ∧
      ∀ later v, (∀ op ∈ later, op.inLoop = true) → run TimerQueue.step u' later = .ok v →
        (v.running = none → ¬ v.Scheduled 1) ∧ ∀ f ∈ v.fired, f.sequence = 1 → f.batch ≤ u.batches := by
  obtain ⟨u, hu, he⟩ := ok_of_map (show (run TimerQueue.step {}
    [.addTimer 1 10 ⟨true, 5, by decide⟩ 0, .addTimer 2 5 ⟨false, 0, by decide⟩ 0, .handleRead 5, .runNext]).map
      (fun u => (decide (⟨1, 1⟩ ∈ u.created), u.batch.map (·.timer))) = .ok (true, [2]) by decide +kernel)
  simp only [Prod.mk.injEq, decide_eq_true_eq] at he
  obtain ⟨u', hs, hiff⟩ := cancelled_timer_stays_cancelled (by decide) hu he.1
  refine ⟨u, u', hu, hs, hiff.mpr ?_⟩
  rintro ⟨hm, -⟩
  rw [he.2] at hm
  exact absurd hm (by decide)

/-- A repeating timer that its own callback cancels is in `timers_` when `handleRead`
returns, and the next `handleRead` starts its callback. -/
theorem cancel_in_own_callback_is_lost :
    ∃ u w v, run TimerQueue.step {} [.addTimer 1 10 ⟨true, 5, by decide⟩ 0, .handleRead 10, .runNext] = .ok u ∧
      ⟨1, 1⟩ ∈ u.created ∧
      run TimerQueue.step u [.cancelInLoop ⟨1, 1⟩, .finishRead 10] = .ok w ∧ w.running.isNone = true ∧
      w.timers.toList = [⟨15, 1⟩] ∧ (w.heap 1).map (·.sequence) = some 1 ∧
      run TimerQueue.step w [.handleRead 15, .runNext] = .ok v ∧
      v.fired = [⟨1, 10, 10, u.batches⟩, ⟨1, 15, 15, u.batches + 1⟩] := by
  obtain ⟨u, hu, he⟩ := ok_of_map (show (run TimerQueue.step {}
    [.addTimer 1 10 ⟨true, 5, by decide⟩ 0, .handleRead 10, .runNext]).map (fun u => (decide (⟨1, 1⟩ ∈ u.created),
      (run TimerQueue.step u [.cancelInLoop ⟨1, 1⟩, .finishRead 10]).map fun w =>
        (decide (w.running.isNone = true ∧ w.timers.toList = [⟨15, 1⟩] ∧ (w.heap 1).map (·.sequence) = some 1),
          (run TimerQueue.step w [.handleRead 15, .runNext]).map fun v =>
            decide (v.fired = [⟨1, 10, 10, u.batches⟩, ⟨1, 15, 15, u.batches + 1⟩]))))
      = .ok (true, .ok (true, .ok true)) by decide +kernel)
  simp only [Prod.mk.injEq, decide_eq_true_eq] at he
  obtain ⟨w, hw, he'⟩ := ok_of_map he.2
  simp only [Prod.mk.injEq, decide_eq_true_eq] at he'
  obtain ⟨⟨h₁, h₂, h₃⟩, he'⟩ := he'
  obtain ⟨v, hv, hf⟩ := ok_of_map he'
  exact ⟨u, w, v, hu, he.1, hw, h₁, h₂, h₃, hv, of_decide_eq_true hf⟩

end Zhengqi
