import Zhengqi.TimerThreads
import Zhengqi.TimerIdSound

/-!
# The number that addTimer reads

Between the second and the third step of `addTimer` the loop may run the timer's callback,
and delete the timer if it does not repeat. `addTimer_reads_live_timer`: the timer has been
deleted exactly when the `handleRead` that ran its callback has returned. As long as every
call has read the number of its own timer, no code knows a `TimerId` of a timer whose call
has not returned, so none of these can have been cancelled.
-/

namespace Zhengqi

open Run TimerQueue

namespace TimerThreads

variable {q q' : TimerQueue} {c : AddTimer}

theorem finished_iff {s : Nat} :
    finished q s = true ↔ ∃ f ∈ q.fired, f.sequence = s ∧ (q.running = none ∨ f.batch < q.batches) := by
  simp [finished, List.any_eq_true]

theorem finished_effect (hi : q.Inv) {op : TimerOp} (he : q.Effect op q') {s : Nat} (h : finished q s = true) :
    finished q' s = true := by
  obtain ⟨f, hf, hs, hb⟩ := finished_iff.mp h
  rw [finished_iff]
  cases he with
  | idle => exact ⟨f, hf, hs, hb⟩
  | addTimer armings hp => exact ⟨f, hf, hs, hb⟩
  | newTimer hp => exact ⟨f, hf, hs, hb⟩
  | addTimerInLoop armings hp ht => exact ⟨f, hf, hs, hb⟩
  | cancelInLoop ha ht hs' => exact ⟨f, hf, hs, hb⟩
  | handleRead hq ha => exact ⟨f, hf, hs, .inr (Nat.lt_succ_of_le (hi.fired f hf))⟩
  | runNext hq hb' ht =>
    refine ⟨f, List.mem_append_left _ hf, hs, .inr (hb.resolve_left ?_)⟩
    rw [hq]
    exact Option.some_ne_none _
  | finishRead armings hq hb' hr =>
    obtain ⟨hn, -, hfr, -⟩ := hr.frame
    refine ⟨f, ?_, hs, .inl hn⟩
    exact hfr ▸ hf

/-- Where the timer of a call is: still live, or deleted at the end of a `handleRead`. -/
structure TimerOf (q : TimerQueue) (c : AddTimer) : Prop where
  created : c.sequence ≤ q.numCreated
  kind : ∀ p t, q.heap p = some t → t.sequence = c.sequence → t.repeats = c.repeats
  place : (∃ t, q.heap c.timer = some t ∧ t.sequence = c.sequence) ∨
    (c.repeats = false ∧ finished q c.sequence = true)

theorem TimerOf.create (h : TimerOf q c) {p : Addr} (hp : q.heap p = none) {when : Timestamp} {interval : Interval}
    (hh : q'.heap = (q.create p when interval).heap) (hn : q'.numCreated = q.numCreated + 1)
    (hf : finished q c.sequence = true → finished q' c.sequence = true) : TimerOf q' c := by
  have hc := h.created
  refine ⟨by omega, ?_, ?_⟩
  · intro p' t ht hs
    rw [hh] at ht
    rcases create_heap_iff.mp ht with ⟨rfl, rfl⟩ | ⟨-, ht⟩
    · simp only at hs
      omega
    · exact h.kind p' t ht hs
  · rcases h.place with ⟨t, ht, hs⟩ | ⟨hr, hd⟩
    · left
      refine ⟨t, ?_, hs⟩
      rw [hh]
      refine create_heap_iff.mpr (.inr ⟨?_, ht⟩)
      intro he
      rw [he, hp] at ht; cases ht
    · exact .inr ⟨hr, hf hd⟩

theorem TimerOf.finishRead (h : TimerOf q c) (hi : q.Inv) (hp : q.Punctual) {b : Batch} {clock : Timestamp}
    (hq : q.running = some b) (hb : b.rest = []) (he : q.Effect (.finishRead clock) q')
    (hr : Resets b.now b.expired q.called q') : TimerOf q' c := by
  obtain ⟨hn, -, hfr, -, -, hnum⟩ := hr.frame
  have hn : q'.running = none := hn
  have hfr : q'.fired = q.fired := hfr
  have hnum : q'.numCreated = q.numCreated := hnum
  obtain ⟨hout, hin⟩ := hr.heap (hi.expired_nodup hq)
  refine ⟨hnum ▸ h.created, ?_, ?_⟩
  · intro p t ht hs
    rcases hi.live_after hq hr ht with ⟨-, ht⟩ | ⟨t₀, ht₀, -, rfl⟩
    · exact h.kind p t ht hs
    · rw [restart_sequence] at hs
      rw [restart_repeats]
      exact h.kind p t₀ ht₀ hs
  · rcases h.place with ⟨t, ht, hs⟩ | ⟨hrep, hd⟩
    · by_cases hm : c.timer ∈ b.expired.map (·.timer)
      · obtain ⟨e, hee, hec⟩ := List.mem_map.mp hm
        rw [← hec] at ht
        obtain ⟨hone, hrs⟩ := hin e hee t ht
        cases hrep : t.repeats with
        | true =>
          left
          refine ⟨t.restart b.now, ?_, (restart_sequence t b.now).trans hs⟩
          rw [← hec]
          exact hrs hrep hi.canceling
        | false =>
          -- its callback has been started, as all of the batch
          right
          refine ⟨(h.kind _ t ht hs).symm.trans hrep, finished_iff.mpr ⟨q.firing b.now q.batches e, ?_, ?_, .inl hn⟩⟩
          · rw [hfr]
            refine (hp.ran b hq e hee).resolve_left ?_
            rw [hb]
            exact List.not_mem_nil
          · simp [firing, ht, hs]
      · exact .inl ⟨t, (hout _ hm).trans ht, hs⟩
    · exact .inr ⟨hrep, finished_effect hi he hd⟩

theorem TimerOf.effect (h : TimerOf q c) (hi : q.Inv) (hp : q.Punctual) {op : TimerOp} (he : q.Effect op q')
    (hcancel : ∀ id, op = .cancelInLoop id → id ∈ q.activeTimers → id.sequence ≠ c.sequence) : TimerOf q' c := by
  have hfin := finished_effect hi he (s := c.sequence)
  have hsame : q'.heap = q.heap → q'.numCreated = q.numCreated → TimerOf q' c := by
    intro hh hn
    refine ⟨hn ▸ h.created, hh ▸ h.kind, ?_⟩
    rw [hh]
    exact h.place.imp_right fun hd => ⟨hd.1, hfin hd.2⟩
  cases he with
  | idle => exact h
  | addTimer armings hp => exact h.create hp rfl rfl hfin
  | newTimer hp => exact h.create hp rfl rfl hfin
  | addTimerInLoop armings hp ht => exact hsame rfl rfl
  | @cancelInLoop id t ha ht hs =>
    refine ⟨h.created, fun p t' ht' => h.kind p t' (update_none_iff.mp ht').2, ?_⟩
    rcases h.place with ⟨t', ht', hs'⟩ | hd
    · left
      refine ⟨t', update_none_iff.mpr ⟨?_, ht'⟩, hs'⟩
      intro hc
      rw [hc] at ht'
      obtain rfl := heap_unique ht ht'
      exact hcancel id rfl ha (hs.symm.trans hs')
    · exact .inr ⟨hd.1, hfin hd.2⟩
  | handleRead hq ha => exact hsame rfl rfl
  | runNext hq hb ht => exact hsame rfl rfl
  | @finishRead clock b q' armings hq hb hr =>
    have heff : q.Effect (.finishRead clock) q' := .finishRead q'.armings hq hb hr
    have := h.finishRead hi hp hq hb heff hr
    exact ⟨this.created, this.kind, this.place⟩

theorem TimerOf.not_live (h : TimerOf q c) (hp : q.Punctual) (hr : c.repeats = false)
    (hf : finished q c.sequence = true) {p : Addr} {t : Timer} (ht : q.heap p = some t) : t.sequence ≠ c.sequence := by
  intro hs
  obtain ⟨f, hm, hfs, hb⟩ := finished_iff.mp hf
  obtain ⟨-, -, hcur⟩ := (hp.once p t ht ((h.kind p t ht hs).trans hr)).live p t ht rfl
  obtain ⟨⟨b, hq, -⟩, hbatch⟩ := hcur f hm (hfs.trans hs.symm)
  rcases hb with hb | hb
  · rw [hq] at hb; cases hb
  · omega

/-! ## The invariant -/

variable {s s' : TimerThreads}

/-- Every call that has returned has read the number of its own timer. -/
structure Tracked (s : TimerThreads) : Prop where
  inv : s.queue.Inv
  punctual : s.queue.Punctual
  distinct : (s.calls.map (·.sequence)).Nodup
  timers : ∀ c ∈ s.calls, TimerOf s.queue c
  right : ∀ r ∈ s.returned, r.timerId = r.created
  known : ∀ r ∈ s.returned, r.created.sequence ≤ s.queue.numCreated ∧ ∀ c ∈ s.calls, c.sequence ≠ r.created.sequence

theorem Tracked.not_known (h : s.Tracked) {id : ActiveTimer} (hk : s.knows id = true)
    (ha : id ∈ s.queue.activeTimers) (hc : c ∈ s.calls) : id.sequence ≠ c.sequence := by
  simp only [knows, Bool.or_eq_true, decide_eq_true_eq, List.any_eq_true] at hk
  rcases hk with rfl | ⟨r, hr, rfl⟩
  · have := h.inv.ledger.pos (h.inv.active_live ha).1
    exact absurd this (Nat.lt_irrefl 0)
  · rw [h.right r hr]
    exact ((h.known r hr).2 c hc).symm

theorem numCreated_effect {op : TimerOp} (he : q.Effect op q') : q.numCreated ≤ q'.numCreated := by
  cases he with
  | addTimer armings hp => exact Nat.le_succ _
  | newTimer hp => exact Nat.le_succ _
  | finishRead armings hq hb hr => exact hr.frame.2.2.2.2.2.ge
  | _ => exact le_refl _

theorem Tracked.queue (h : s.Tracked) {op : TimerOp} (hq : s.queue.step op = .ok q')
    (hcancel : ∀ id, op = .cancelInLoop id → s.knows id = true) : Tracked { s with queue := q' } := by
  obtain ⟨hi, he⟩ := h.inv.effect hq
  refine ⟨hi, h.punctual.effect h.inv he, h.distinct, ?_, h.right, ?_⟩
  · intro c hc
    exact (h.timers c hc).effect h.inv h.punctual he fun id hid ha => h.not_known (hcancel id hid) ha hc
  · intro r hr
    exact ⟨(h.known r hr).1.trans (numCreated_effect he), (h.known r hr).2⟩

theorem Tracked.loop (h : s.Tracked) {op : TimerOp} (hcancel : ∀ id, op = .cancelInLoop id → s.knows id = true) :
    ∃ s', s.loop op = .ok s' ∧ s'.Tracked := by
  obtain ⟨q', hq, -⟩ := h.inv.step op
  exact ⟨_, by rw [TimerThreads.loop, hq]; rfl, h.queue hq hcancel⟩

theorem Tracked.create (h : s.Tracked) {p : Addr} (hp : s.queue.allocates p = true) (when : Timestamp)
    (interval : Interval) : ∃ s', s.create p when interval = .ok s' ∧ s'.Tracked := by
  have hq : s.queue.step (.newTimer p when interval) =
      .ok { s.queue.create p when interval with inflight := p :: s.queue.inflight } := by
    simp only [TimerQueue.step, hp, if_true, pure_eq_ok]
  have ht := h.queue hq (by simp)
  refine ⟨{ s with
    queue := { s.queue.create p when interval with inflight := p :: s.queue.inflight }
    calls := s.calls ++ [{ timer := p, sequence := s.queue.numCreated + 1, repeats := interval.positive }] },
    ?_, ht.inv, ht.punctual, ?_, ?_, h.right, ?_⟩
  · rw [TimerThreads.create, hq]
    rfl
  · rw [List.map_append, List.map_singleton]
    refine List.Nodup.append h.distinct (List.nodup_singleton _) (List.disjoint_singleton.mpr ?_)
    intro hm
    obtain ⟨c, hc, hs⟩ := List.mem_map.mp hm
    have := (h.timers c hc).created
    simp only at hs
    omega
  · intro c hc
    rcases List.mem_append.mp hc with hc | hc
    · exact ht.timers c hc
    · rw [List.mem_singleton.mp hc]
      refine ⟨le_refl _, ?_, .inl ⟨_, Function.update_self .., rfl⟩⟩
      intro p' t ht' hs
      rcases create_heap_iff.mp ht' with ⟨-, rfl⟩ | ⟨-, ht'⟩
      · rfl
      · have := (h.inv.rep.bounds p' t ht').2
        change t.sequence = s.queue.numCreated + 1 at hs
        omega
  · intro r hr
    refine ⟨(ht.known r hr).1, ?_⟩
    intro c hc
    rcases List.mem_append.mp hc with hc | hc
    · exact (ht.known r hr).2 c hc
    · have := (h.known r hr).1
      rw [List.mem_singleton.mp hc]
      change s.queue.numCreated + 1 ≠ _
      omega

theorem Tracked.enqueue (h : s.Tracked) (n : Nat) : (s.enqueue n).Tracked := by
  have hmem : ∀ c ∈ s.calls.map (fun c => if c.sequence = n then { c with queued := true } else c),
      ∃ c₀ ∈ s.calls, c.timer = c₀.timer ∧ c.sequence = c₀.sequence ∧ c.repeats = c₀.repeats := by
    intro c hc
    obtain ⟨c₀, hc₀, rfl⟩ := List.mem_map.mp hc
    refine ⟨c₀, hc₀, ?_⟩
    split <;> exact ⟨rfl, rfl, rfl⟩
  refine ⟨h.inv, h.punctual, ?_, ?_, h.right, ?_⟩
  · have hseq : (s.enqueue n).calls.map (·.sequence) = s.calls.map (·.sequence) := by
      rw [TimerThreads.enqueue, List.map_map]
      apply List.map_congr_left
      intro c _
      by_cases hc : c.sequence = n <;> simp [hc]
    rw [hseq]
    exact h.distinct
  · intro c hc
    obtain ⟨c₀, hc₀, h₁, h₂, h₃⟩ := hmem c hc
    have := h.timers c₀ hc₀
    exact ⟨h₂ ▸ this.created, by rw [h₂, h₃]; exact this.kind, by rw [h₁, h₂, h₃]; exact this.place⟩
  · intro r hr
    refine ⟨(h.known r hr).1, ?_⟩
    intro c hc
    obtain ⟨c₀, hc₀, -, h₂, -⟩ := hmem c hc
    rw [h₂]
    exact (h.known r hr).2 c₀ hc₀

theorem reader_spec {n : Nat} (h : s.reader n = some c) : c ∈ s.calls ∧ c.sequence = n := by
  refine ⟨List.mem_of_find?_eq_some h, ?_⟩
  have := List.find?_some h
  simp only [Bool.and_eq_true, decide_eq_true_eq] at this
  exact this.1

theorem Tracked.readSequence (h : s.Tracked) (hc : c ∈ s.calls)
    (hl : ¬ (c.repeats = false ∧ finished s.queue c.sequence = true)) :
    ∃ s', s.readSequence c = .ok s' ∧ s'.Tracked := by
  have ht := h.timers c hc
  obtain ⟨t, hheap, hs⟩ := ht.place.resolve_right hl
  unfold TimerThreads.readSequence
  rw [deref_ok hheap, ok_bind]
  refine ⟨_, rfl, h.inv, h.punctual, ?_, ?_, ?_, ?_⟩
  · exact h.distinct.sublist (List.filter_sublist.map _)
  · intro c' hc'
    exact h.timers c' (List.mem_filter.mp hc').1
  · intro r hr
    rcases List.mem_append.mp hr with hr | hr
    · exact h.right r hr
    · rw [List.mem_singleton.mp hr, hs]
  · intro r hr
    rcases List.mem_append.mp hr with hr | hr
    · exact ⟨(h.known r hr).1, fun c' hc' => (h.known r hr).2 c' (List.mem_filter.mp hc').1⟩
    · rw [List.mem_singleton.mp hr]
      refine ⟨ht.created, ?_⟩
      intro c' hc'
      simpa using (List.mem_filter.mp hc').2

theorem Tracked.addTimer (h : s.Tracked) {p : Addr} (hp : s.queue.allocates p = true) (when : Timestamp)
    (interval : Interval) (now : Timestamp) : ∃ s', s.addTimer p when interval now = .ok s' ∧ s'.Tracked := by
  obtain ⟨hok, -⟩ := h.inv.addTimer hp when interval now
  have hstep : s.queue.step (.addTimer p when interval now) =
      (s.queue.create p when interval).addTimerInLoop p now := by
    simp only [TimerQueue.step, hp, if_true]
  obtain ⟨q', hq, hheap, hn⟩ : ∃ q', s.queue.step (.addTimer p when interval now) = .ok q' ∧
      q'.heap p = some ⟨when, interval, s.queue.numCreated + 1⟩ ∧ q'.numCreated = s.queue.numCreated + 1 :=
    ⟨_, hstep.trans hok, Function.update_self .., rfl⟩
  have ht := h.queue hq (by simp)
  refine ⟨{ s with
      queue := q'
      returned := s.returned ++ [⟨⟨p, s.queue.numCreated + 1⟩, ⟨p, s.queue.numCreated + 1⟩⟩] }, ?_,
    ht.inv, ht.punctual, ht.distinct, ht.timers, ?_, ?_⟩
  · rw [TimerThreads.addTimer, hq, ok_bind, deref_ok hheap]
    rfl
  · intro r hr
    rcases List.mem_append.mp hr with hr | hr
    · exact h.right r hr
    · rw [List.mem_singleton.mp hr]
  · intro r hr
    rcases List.mem_append.mp hr with hr | hr
    · exact ht.known r hr
    · rw [List.mem_singleton.mp hr]
      refine ⟨hn.ge, ?_⟩
      intro c hc
      have := (h.timers c hc).created
      simp only
      omega

theorem Tracked.step (h : s.Tracked) {l : ThreadStep} (hl : s.late l = false) :
    ∃ s', s.step l = .ok s' ∧ s'.Tracked := by
  cases l with
  | create p when interval =>
    by_cases hp : s.queue.allocates p = true
    · simp only [TimerThreads.step, hp, if_true]
      exact h.create hp when interval
    · exact ⟨s, by simp [TimerThreads.step, hp], h⟩
  | enqueue n => exact ⟨_, rfl, h.enqueue n⟩
  | readSequence n =>
    cases hr : s.reader n with
    | none => exact ⟨s, by simp [TimerThreads.step, hr], h⟩
    | some c =>
      obtain ⟨hc, rfl⟩ := reader_spec hr
      simp only [TimerThreads.step, hr, Option.elim_some]
      refine h.readSequence hc ?_
      rintro ⟨hrep, hf⟩
      simp [late, hr, hrep, hf] at hl
  | loop op =>
    cases op with
    | addTimer p when interval now =>
      by_cases hp : s.queue.allocates p = true
      · simp only [TimerThreads.step, hp, if_true]
        exact h.addTimer hp when interval now
      · exact ⟨s, by simp [TimerThreads.step, hp], h⟩
    | newTimer p when interval => exact ⟨s, rfl, h⟩
    | addTimerInLoop p now =>
      simp only [TimerThreads.step]
      split
      · exact ⟨s, rfl, h⟩
      · exact h.loop (by simp)
    | cancelInLoop id =>
      by_cases hk : s.knows id = true
      · simp only [TimerThreads.step, hk, if_true]
        refine h.loop ?_
        intro id' hid
        cases hid
        exact hk
      · exact ⟨s, by simp [TimerThreads.step, hk], h⟩
    | handleRead now => exact h.loop (by simp)
    | runNext => exact h.loop (by simp)
    | finishRead clock => exact h.loop (by simp)

-- a late read finds no timer, or another one
theorem Tracked.late_step (h : s.Tracked) {l : ThreadStep} (hl : ¬ s.late l = false) (hs : s.step l = .ok s') :
    ¬ ∀ r ∈ s'.returned, r.timerId = r.created := by
  rw [Bool.not_eq_false] at hl
  cases l with
  | create p when interval => cases hl
  | enqueue n => cases hl
  | loop op => cases hl
  | readSequence n =>
    cases hr : s.reader n with
    | none => simp [late, hr] at hl
    | some c =>
      obtain ⟨hc, rfl⟩ := reader_spec hr
      simp only [late, hr, Option.any_some, Bool.and_eq_true, Bool.not_eq_true'] at hl
      simp only [TimerThreads.step, hr, Option.elim_some] at hs
      obtain ⟨t, ht, hs⟩ := bind_ok.mp hs
      cases hs
      intro hall
      have heq := hall ⟨⟨c.timer, c.sequence⟩, ⟨c.timer, t.sequence⟩⟩
        (List.mem_append_right _ (List.mem_singleton.mpr rfl))
      refine (h.timers c hc).not_live h.punctual hl.1 hl.2 (p := c.timer) ?_ (congrArg ActiveTimer.sequence heq)
      unfold deref at ht
      split at ht
      · cases ht
        assumption
      · cases ht

theorem returned_mono {l : ThreadStep} (hs : s.step l = .ok s') : s.returned ⊆ s'.returned := by
  have hstay : s.returned ⊆ s.returned := List.Subset.refl _
  have hloop : ∀ {op t}, s.loop op = .ok t → s.returned ⊆ t.returned := by
    intro op t h
    obtain ⟨q, -, h⟩ := bind_ok.mp h
    cases h
    exact hstay
  cases l with
  | create p when interval =>
    refine ite_pure_inv (I := fun t => s.returned ⊆ t.returned) (fun _ hs => ?_) hstay hs
    obtain ⟨q, -, hs⟩ := bind_ok.mp hs
    cases hs
    exact hstay
  | enqueue n => cases hs; exact hstay
  | readSequence n =>
    cases hr : s.reader n with
    | none =>
      simp only [TimerThreads.step, hr, Option.elim_none] at hs
      cases hs
      exact hstay
    | some c =>
      simp only [TimerThreads.step, hr, Option.elim_some] at hs
      obtain ⟨t, -, hs⟩ := bind_ok.mp hs
      cases hs
      exact List.subset_append_left ..
  | loop op =>
    cases op with
    | addTimer p when interval now =>
      refine ite_pure_inv (I := fun t => s.returned ⊆ t.returned) (fun _ hs => ?_) hstay hs
      obtain ⟨q, -, hs⟩ := bind_ok.mp hs
      obtain ⟨t, -, hs⟩ := bind_ok.mp hs
      cases hs
      exact List.subset_append_left ..
    | newTimer p when interval => cases hs; exact hstay
    | addTimerInLoop p now =>
      rcases ite_ok hs with ⟨-, hs⟩ | ⟨-, hs⟩
      · cases hs
        exact hstay
      · exact hloop hs
    | cancelInLoop id => exact ite_pure_inv (I := fun t => s.returned ⊆ t.returned) (fun _ => hloop) hstay hs
    | handleRead now => exact hloop hs
    | runNext => exact hloop hs
    | finishRead clock => exact hloop hs

theorem Tracked.init : Tracked {} :=
  ⟨Inv.init, Punctual.init, List.nodup_nil, by simp, by simp, by simp⟩

end TimerThreads

open TimerThreads

/-- In an interleaving of `addTimer` calls with the loop's thread, no call uses a deleted
timer and every `TimerId` carries the number of the timer that was created for it, exactly
when no call reads the number of a timer that does not repeat after the `handleRead` that
ran its callback has returned. -/
theorem addTimer_reads_live_timer (ls : List ThreadStep) :
    (∃ s, run TimerThreads.step {} ls = .ok s ∧ ∀ r ∈ s.returned, r.timerId = r.created) ↔
      Meets TimerThreads.step (fun s l => s.late l = false) {} ls := by
  refine run_good_iff_meets (I := Tracked) (fun s h => h.right) (fun s l h hl => h.step hl)
    (fun s l t h hl ht => h.late_step hl ht) ?_ Tracked.init
  intro s l t hs hg r hr
  exact hg r (returned_mono hs hr)

/-- A timer for a time that has come is fired and deleted between the second and the third
step of `addTimer`: the call reads freed memory, or the number of the next timer at the
address. -/
theorem addTimer_reads_deleted_timer :
    run TimerThreads.step {} [.create 1 10 ⟨false, 0, by decide⟩, .enqueue 1, .loop (.addTimerInLoop 1 10),
        .loop (.handleRead 10), .loop .runNext, .loop (.finishRead 10), .readSequence 1] = .error .useAfterFree ∧
      ∃ s, run TimerThreads.step {} [.create 1 10 ⟨false, 0, by decide⟩, .enqueue 1, .loop (.addTimerInLoop 1 10),
          .loop (.handleRead 10), .loop .runNext, .loop (.finishRead 10), .create 1 50 ⟨false, 0, by decide⟩,
          .readSequence 1] = .ok s ∧
        s.returned.map (fun r => (r.created, r.timerId)) = [(⟨1, 1⟩, ⟨1, 2⟩)] := by
  refine ⟨error_of_map (f := fun _ => ()) (by decide +kernel), ?_⟩
  obtain ⟨s, hs, he⟩ := ok_of_map (show (run TimerThreads.step {} [.create 1 10 ⟨false, 0, by decide⟩, .enqueue 1,
    .loop (.addTimerInLoop 1 10), .loop (.handleRead 10), .loop .runNext, .loop (.finishRead 10),
    .create 1 50 ⟨false, 0, by decide⟩, .readSequence 1]).map
      (fun s => s.returned.map fun r => (r.created, r.timerId)) = .ok [(⟨1, 1⟩, ⟨1, 2⟩)] by decide +kernel)
  exact ⟨s, hs, he⟩

end Zhengqi
