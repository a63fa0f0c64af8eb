import Zhengqi.Timerfd
import Zhengqi.TimerRunSound

/-!
# The timerfd is armed

While a timer waits in `timers_`, its descriptor is armed for an instant that is not
later than the timer's expiration, or than 100 microseconds after the arming
(`timerfd_armed_for_earliest`). `reset` does not arm the descriptor for a timer at or
before the epoch. Such a timer can only have been added by a callback of the batch, and
`addTimerInLoop` armed the descriptor then.
-/

namespace Zhengqi

open Run TimerQueue

/-! ## Requests -/

theorem howMuchTimeFromNow_eq (when now : Timestamp) :
    howMuchTimeFromNow when now =
      ⟨(max (when - now) 100).tdiv (1000 * 1000), (max (when - now) 100).tmod (1000 * 1000) * 1000⟩ := by
  unfold howMuchTimeFromNow kMicroSecondsPerSecond
  by_cases h : when - now < 100
  · simp only [h, if_true, max_eq_right h.le]
  · simp only [h, if_false, max_eq_left (not_lt.mp h)]

theorem tdiv_tmod_micros {m : Int} (h : 0 ≤ m) :
    0 ≤ m.tdiv (1000 * 1000) ∧ 0 ≤ m.tmod (1000 * 1000) ∧ m.tmod (1000 * 1000) < 1000 * 1000 ∧
      m.tdiv (1000 * 1000) * (1000 * 1000) + m.tmod (1000 * 1000) = m := by
  rw [Int.tdiv_eq_ediv_of_nonneg h, Int.tmod_eq_emod_of_nonneg h]
  omega

theorem howMuchTimeFromNow_arms (when now : Timestamp) : (howMuchTimeFromNow when now).Arms := by
  rw [howMuchTimeFromNow_eq]
  have hm : (100 : Int) ≤ max (when - now) 100 := le_max_right ..
  obtain ⟨h₁, h₂, h₃, h₄⟩ := tdiv_tmod_micros ((show (0 : Int) ≤ 100 by decide).trans hm)
  constructor <;> dsimp only <;> omega

theorem deadline_howMuchTimeFromNow (when now : Timestamp) :
    (⟨now, howMuchTimeFromNow when now⟩ : Arming).deadline = max when (now + 100) := by
  have hm : (100 : Int) ≤ max (when - now) 100 := le_max_right ..
  obtain ⟨-, -, -, h⟩ := tdiv_tmod_micros ((show (0 : Int) ≤ 100 by decide).trans hm)
  have hadd : ∀ a b : Int, b + max (a - b) 100 = max a (b + 100) := by
    intro a b; omega
  simp only [Arming.deadline, howMuchTimeFromNow_eq, kMicroSecondsPerSecond,
    Int.mul_ediv_cancel _ (show (1000 : Int) ≠ 0 by decide), h]
  exact hadd when now

@[simp] theorem timerfdSettime_self (fd : Option Arming) (l : List Arming) : timerfdSettime fd l l = fd :=
  if_neg (Nat.lt_irrefl _)

@[simp] theorem timerfdSettime_snoc (fd : Option Arming) (l : List Arming) (a : Arming) :
    timerfdSettime fd l (l ++ [a]) = some a := by
  simp [timerfdSettime]

/-! ## The invariant -/

/-- The descriptor wakes the loop for a timer that expires at `x`. -/
def Covers (timerfd : Option Arming) (x : Timestamp) : Prop :=
  ∃ a, timerfd = some a ∧ a.deadline ≤ max x (a.now + 100)

theorem Covers.mono {fd : Option Arming} {x y : Timestamp} (h : Covers fd x) (hxy : x ≤ y) : Covers fd y := by
  obtain ⟨a, ha, hd⟩ := h
  exact ⟨a, ha, hd.trans (max_le (hxy.trans (le_max_left ..)) (le_max_right ..))⟩

theorem Covers.resetTimerfd (x now : Timestamp) : Covers (some ⟨now, howMuchTimeFromNow x now⟩) x :=
  ⟨_, rfl, (deadline_howMuchTimeFromNow x now).le⟩

/-- While callbacks run only the timers that `reset` would pass over need to be covered. -/
structure Armed (q : TimerQueue) (fd : Option Arming) : Prop where
  requests : ∀ a ∈ q.armings, a.value.Arms
  batch : ∀ b, q.running = some b → 0 < b.now
  covers : ∀ e ∈ q.timers, (q.running ≠ none → e.expiration ≤ 0) → Covers fd e.expiration

variable {q q' : TimerQueue} {fd : Option Arming}

theorem Armed.congr (h : Armed q fd) (ha : q'.armings = q.armings) (hr : q'.running = q.running)
    (ht : q'.timers = q.timers) : Armed q' fd := by
  refine ⟨?_, ?_, ?_⟩
  · rw [ha]; exact h.requests
  · rw [hr]; exact h.batch
  · rw [ht, hr]; exact h.covers

theorem requests_snoc (h : ∀ a ∈ q.armings, a.value.Arms) (when now : Timestamp) :
    ∀ a ∈ (q.resetTimerfd when now).armings, a.value.Arms := by
  intro a ha
  rcases List.mem_append.mp ha with ha | ha
  · exact h a ha
  · rw [List.mem_singleton.mp ha]
    exact howMuchTimeFromNow_arms when now

theorem Armed.add (h : Armed q fd) {e : Entry} {now : Timestamp} (ha : q'.armings = q.armingsAdd e.expiration now)
    (hr : q'.running = q.running) (ht : q'.timers = q.timers.insert e) :
    Armed q' (timerfdSettime fd q.armings q'.armings) := by
  by_cases hc : q.earliestChanged e.expiration = true
  · have ha : q'.armings = (q.resetTimerfd e.expiration now).armings := by rw [ha, armingsAdd, if_pos hc]
    have hfd : timerfdSettime fd q.armings q'.armings = some ⟨now, howMuchTimeFromNow e.expiration now⟩ := by
      rw [ha]; exact timerfdSettime_snoc ..
    refine ⟨by rw [ha]; exact requests_snoc h.requests _ _, by rw [hr]; exact h.batch, ?_⟩
    intro e' he' _
    rw [hfd]
    refine (Covers.resetTimerfd e.expiration now).mono ?_
    rw [ht] at he'
    rcases OrdSet.mem_insert.mp he' with rfl | he'
    · exact le_refl _
    · unfold earliestChanged at hc
      cases hf : q.timers.first with
      | none => exact absurd he' (OrdSet.not_mem_of_first_none hf)
      | some e₀ =>
        rw [hf] at hc
        exact (of_decide_eq_true hc).le.trans (Entry.expiration_le (OrdSet.first_le hf he'))
  · have ha : q'.armings = q.armings := by rw [ha, armingsAdd, if_neg hc]
    rw [ha, timerfdSettime_self]
    refine ⟨by rw [ha]; exact h.requests, by rw [hr]; exact h.batch, ?_⟩
    intro e' he' hb
    rw [ht] at he'
    rw [hr] at hb
    rcases OrdSet.mem_insert.mp he' with rfl | he'
    · -- an earlier timer is waiting
      unfold earliestChanged at hc
      cases hf : q.timers.first with
      | none => rw [hf] at hc; exact absurd rfl hc
      | some e₀ =>
        rw [hf] at hc
        have hle : e₀.expiration ≤ e'.expiration := by simpa using hc
        exact (h.covers e₀ (OrdSet.first_mem hf) fun hn => hle.trans (hb hn)).mono hle
    · exact h.covers e' he' hb

theorem Armed.cancelled (h : Armed q fd) (id : ActiveTimer) (x : Timestamp) : Armed (q.cancelled id x) fd :=
  ⟨h.requests, h.batch, fun e he => h.covers e (OrdSet.mem_erase.mp he).1⟩

-- what getExpired leaves in timers_ is due after the epoch
theorem Armed.due (h : Armed q fd) {now : Timestamp} (hn : 0 < now) (fd' : Option Arming)
    (a : OrdSet ActiveTimer) : Armed (q.due now a) fd' := by
  refine ⟨h.requests, ?_, ?_⟩
  · intro b hb
    cases hb
    exact hn
  · intro e he hb
    have hx := hb (by simp [TimerQueue.due])
    have hle := (OrdSet.mem_above.mp he).2
    exact absurd (hn.trans_le (Entry.expiration_le hle)) (not_lt.mpr hx)

theorem Resets.timers {now : Timestamp} {es : List Entry} (h : Resets now es q q') :
    ∀ e ∈ q'.timers, e ∈ q.timers ∨ now ≤ e.expiration := by
  refine Resets.inv (P := fun r => ∀ e ∈ r.timers, e ∈ q.timers ∨ now ≤ e.expiration) ?_ ?_ h fun e he => .inl he
  · intro r p t ht hr ih e he
    rcases mem_schedule_timers.mp he with rfl | he
    · right
      simp only [Timer.restart, hr, if_true]
      exact Int.le_add_of_nonneg_right (t.interval.micros_nonneg hr)
    · exact ih e he
  · intro r p t ht hr ih
    exact ih

theorem Armed.finishRead (h : Armed q fd) {b : Batch} (hq : q.running = some b)
    (hr : Resets b.now b.expired q.called q') (clock : Timestamp) : Armed { q' with armings := q'.armingsReset clock }
      (timerfdSettime fd q.armings (q'.armingsReset clock)) := by
  obtain ⟨hn, -⟩ := hr.frame
  have hn : q'.running = none := hn
  have ha : q'.armings = q.armings := by
    refine Resets.inv (P := fun r => r.armings = q.armings) ?_ ?_ hr rfl
    · exact fun _ _ _ _ _ ih => ih
    · exact fun _ _ _ _ _ ih => ih
  have hreq : ∀ a ∈ q'.armings, a.value.Arms := by rw [ha]; exact h.requests
  refine ⟨?_, by simp [hn], ?_⟩
  · simp only [armingsReset]
    split
    · exact hreq
    · split
      · exact requests_snoc hreq _ _
      · exact hreq
  · intro e he _
    cases hf : q'.timers.first with
    | none => exact absurd he (OrdSet.not_mem_of_first_none hf)
    | some e₀ =>
      refine Covers.mono ?_ (Entry.expiration_le (OrdSet.first_le hf he))
      simp only [armingsReset, hf]
      by_cases hv : 0 < e₀.expiration
      · rw [if_pos hv, ← ha]
        unfold TimerQueue.resetTimerfd
        rw [timerfdSettime_snoc]
        exact .resetTimerfd ..
      · rw [if_neg hv, ha, timerfdSettime_self]
        -- a timer that reset puts back is due after the epoch
        have hm : e₀ ∈ q.timers := by
          rcases Resets.timers hr e₀ (OrdSet.first_mem hf) with hm | hm
          · exact hm
          · exact absurd ((h.batch b hq).trans_le hm) hv
        exact h.covers e₀ hm fun _ => not_lt.mp hv

/-! ## Runs -/

namespace TimedQueue

variable {s : TimedQueue}

theorem queue_step_armed {op : TimerOp} (hi : s.queue.Inv) (h : Armed s.queue s.timerfd)
    (ht : op.instant.all (s.clock.now ≤ ·) = true) :
    ∃ q, s.queue.step op = .ok q ∧ q.Inv ∧ Armed q (timerfdSettime (s.timerfdRead op) s.queue.armings q.armings) := by
  have hidle : Armed s.queue (timerfdSettime s.timerfd s.queue.armings s.queue.armings) := by
    rw [timerfdSettime_self]; exact h
  cases op with
  | addTimer p when interval now =>
    by_cases hp : s.queue.allocates p = true
    · obtain ⟨hok, hi'⟩ := hi.addTimer hp when interval now
      exact ⟨_, by simp only [TimerQueue.step, hp, if_true, hok], hi', h.add rfl rfl rfl⟩
    · exact ⟨s.queue, by simp [TimerQueue.step, hp], hi, hidle⟩
  | newTimer p when interval =>
    by_cases hp : s.queue.allocates p = true
    · obtain ⟨-, hi'⟩ := hi.newTimer hp when interval
      exact ⟨_, by simp only [TimerQueue.step, hp, if_true, pure_eq_ok], hi', hidle.congr rfl rfl rfl⟩
    · exact ⟨s.queue, by simp [TimerQueue.step, hp], hi, hidle⟩
  | addTimerInLoop p now =>
    by_cases hp : p ∈ s.queue.inflight
    · obtain ⟨t, -, hok, hi'⟩ := hi.addTimerInLoop hp now
      exact ⟨_, by simp only [TimerQueue.step, hp, if_true, hok], hi', h.add rfl rfl rfl⟩
    · exact ⟨s.queue, by simp [TimerQueue.step, hp], hi, hidle⟩
  | cancelInLoop id =>
    rcases hi.rep.cancelInLoop id with ⟨-, hok⟩ | ⟨t, -, -, -, hok, -⟩
    · exact ⟨s.queue, hok, hi, hidle⟩
    · have hs : s.queue.step (.cancelInLoop id) = .ok (s.queue.cancelled id t.expiration) := hok
      exact ⟨_, hok, (hi.effect hs).1, hidle.cancelled id t.expiration⟩
  | handleRead now =>
    have hn : 0 < now := s.clock.epoch.trans_le (by simpa [TimerOp.instant] using ht)
    by_cases hr : s.queue.running = none
    · obtain ⟨a, hok, -, hi'⟩ := hi.handleRead hr now
      exact ⟨_, by simp [TimerQueue.step, hr, hok], hi', h.due hn _ a⟩
    · refine ⟨s.queue, by simp [TimerQueue.step, hr], hi, ?_⟩
      simpa [timerfdRead, hr] using h
  | runNext =>
    rcases hq : s.queue.running with _ | ⟨now, expired, _ | ⟨e, rest⟩⟩
    · exact ⟨s.queue, by simp [TimerQueue.step, TimerQueue.runNext, hq], hi, hidle⟩
    · exact ⟨s.queue, by simp [TimerQueue.step, TimerQueue.runNext, hq], hi, hidle⟩
    · obtain ⟨t, -, hok, hi'⟩ := hi.runNext hq rfl
      refine ⟨_, hok, hi', hidle.requests, ?_, ?_⟩
      · intro b hb
        cases hb
        exact h.batch ⟨now, expired, e :: rest⟩ hq
      · intro e he hb
        exact hidle.covers e he fun _ => hb (by simp [started])
  | finishRead clock =>
    rcases hq : s.queue.running with _ | ⟨now, expired, _ | ⟨e, rest⟩⟩
    · exact ⟨s.queue, by simp [TimerQueue.step, TimerQueue.finishRead, hq], hi, hidle⟩
    · obtain ⟨q', hok, hm, hi'⟩ := hi.finishRead hq rfl clock
      exact ⟨_, hok, hi', h.finishRead hq hm clock⟩
    · exact ⟨s.queue, by simp [TimerQueue.step, TimerQueue.finishRead, hq], hi, hidle⟩

theorem step_armed (hi : s.queue.Inv) (h : Armed s.queue s.timerfd) (op : TimerOp) :
    ∃ s', s.step op = .ok s' ∧ s'.queue.Inv ∧ Armed s'.queue s'.timerfd := by
  unfold TimedQueue.step
  by_cases ht : op.instant.all (s.clock.now ≤ ·) = true
  · obtain ⟨q, hok, hi', ha⟩ := queue_step_armed hi h ht
    rw [if_pos ht, hok, ok_bind]
    exact ⟨_, rfl, hi', ha⟩
  · rw [if_neg ht]
    exact ⟨s, rfl, hi, h⟩

end TimedQueue

/-- Over every run: every arming request is for at least 100 microseconds and has its
nanoseconds in range; and when no `handleRead` is running and `timers_` is not empty, the
descriptor is armed, or readable after it was armed, for an instant not later than the
earliest expiration and 100 microseconds after the arming. -/
theorem timerfd_armed_for_earliest (clock : Clock) (ops : List TimerOp) :
    ∃ s, run TimedQueue.step { clock } ops = .ok s ∧ (∀ a ∈ s.queue.armings, a.value.Arms) ∧
      (s.queue.running = none → ∀ e, s.queue.timers.first = some e →
        ∃ a, s.timerfd = some a ∧ a.deadline ≤ max e.expiration (a.now + 100)) := by
  have hinit : Armed {} none := ⟨by simp, by simp, by simp⟩
  have htotal : ∃ s, run TimedQueue.step { clock } ops = .ok s ∧ s.queue.Inv ∧ Armed s.queue s.timerfd :=
    run_total (I := fun s : TimedQueue => s.queue.Inv ∧ Armed s.queue s.timerfd)
      (fun s op h => TimedQueue.step_armed h.1 h.2 op)
      ⟨Inv.init, hinit⟩
  obtain ⟨s, hok, hi, ha⟩ := htotal
  refine ⟨s, hok, ha.requests, ?_⟩
  intro hr e he
  exact ha.covers e (OrdSet.first_mem he) fun hn => absurd hr hn

end Zhengqi
