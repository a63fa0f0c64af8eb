import Zhengqi.Lib.Run
import Zhengqi.ThreadPool

/-!
# The pool neither loses a task nor a wake-up

Along every schedule of its threads, of the producers and of `stop`.
-/

namespace Zhengqi.ThreadPool

open Monitor Run

variable {α : Type} {s : System α} {pool pool' : ThreadPool α}

structure Bounded (pool : ThreadPool α) : Prop where
  size : 0 < pool.maxQueueSize → pool.queue.length ≤ pool.maxQueueSize
  unbounded : pool.maxQueueSize = 0 → pool.notFull.waiting = []
  stopped : pool.running = false → pool.notEmpty.waiting = [] ∧ pool.notFull.waiting = []

/-- Conditions that nobody begins to wait on. -/
theorem Bounded.conditions {notEmpty : Condition Nat} {notFull : Condition (Nat × α)} (h : Bounded pool)
    (he : pool.notEmpty.waiting = [] → notEmpty.waiting = []) (hf : pool.notFull.waiting = [] → notFull.waiting = []) :
    Bounded { pool with notEmpty, notFull } := by
  refine ⟨h.size, fun h₀ => hf (h.unbounded h₀), fun hstop => ?_⟩
  obtain ⟨he₀, hf₀⟩ := h.stopped hstop
  exact ⟨he he₀, hf hf₀⟩

/-- Every place that is free and every task that is there has a thread on its way to it, as long as
others wait for it. -/
structure Covered (pool : ThreadPool α) : Prop extends Bounded pool where
  producers : pool.notFull.Covers (pool.maxQueueSize - pool.queue.length)
  consumers : pool.notEmpty.Covers pool.queue.length

theorem isFull_iff : pool.isFull = true ↔ 0 < pool.maxQueueSize ∧ pool.maxQueueSize ≤ pool.queue.length := by
  rw [isFull, Bool.and_eq_true, decide_eq_true_iff, decide_eq_true_iff]

theorem run_covered (h : Bounded pool) (hp : pool.notFull.Covers (pool.maxQueueSize - pool.queue.length - 1))
    (hc : pool.notEmpty.Covers pool.queue.length) (p : Nat) (task : α) (pick : Nat → Bool) :
    ∃ pool' out, pool.run p task pick = .ok (pool', out) ∧ Covered pool' ∧ pool'.maxQueueSize = pool.maxQueueSize ∧
      pool'.running = pool.running ∧ pool'.queue = pool.queue ++ out.task.toList ∧
      pool'.notEmpty.members.Perm pool.notEmpty.members := by
  unfold run
  split
  · rename_i hwait
    obtain ⟨hfull, hrun⟩ := Bool.and_eq_true_iff.1 hwait
    have hmax := isFull_iff.1 hfull
    refine ⟨_, _, rfl, ⟨⟨h.size, fun h₀ => ?_, fun hstop => ?_⟩, ?_, hc⟩, rfl, rfl, (List.append_nil _).symm, .refl _⟩
    · exact absurd h₀ (Nat.ne_of_gt hmax.1)
    · cases hrun.symm.trans hstop
    · exact (Condition.Covers.zero _).mono (by show pool.maxQueueSize - pool.queue.length ≤ 0; omega)
  · split
    · rename_i hstop
      exact ⟨_, _, rfl, ⟨h, .empty (h.stopped hstop).2 _, hc⟩, rfl, rfl, (List.append_nil _).symm, .refl _⟩
    · rename_i hwait hrun
      have hfree : pool.isFull = false := by
        rw [Bool.not_eq_false] at hrun
        rwa [hrun, Bool.and_true, Bool.not_eq_true] at hwait
      have hroom : ¬ (0 < pool.maxQueueSize ∧ pool.maxQueueSize ≤ pool.queue.length) := by
        rw [← isFull_iff, hfree]
        decide
      have hlen : (pool.queue ++ [task]).length = pool.queue.length + 1 := List.length_append
      rw [check_of hfree, ok_bind]
      refine ⟨_, _, rfl, ⟨⟨fun h₀ => ?_, h.unbounded, fun hstop => absurd hstop hrun⟩, ?_, ?_⟩, rfl, rfl, rfl,
        Condition.notify_perm ..⟩
      · show (pool.queue ++ [task]).length ≤ pool.maxQueueSize
        have h₀ : 0 < pool.maxQueueSize := h₀
        omega
      · exact hp.mono (by show pool.maxQueueSize - (pool.queue ++ [task]).length ≤ _; omega)
      · show (pool.notEmpty.notify pick).Covers (pool.queue ++ [task]).length
        rw [hlen]
        exact hc.notify pick

theorem take_covered (h : Bounded pool) (hp : pool.notFull.Covers (pool.maxQueueSize - pool.queue.length))
    (hc : pool.notEmpty.Covers (pool.queue.length - 1)) (i : Nat) (pick : Nat × α → Bool) :
    ∃ pool' out, pool.take i pick = (pool', out) ∧ Covered pool' ∧ pool'.maxQueueSize = pool.maxQueueSize ∧
      pool'.running = pool.running ∧ out.task.toList ++ pool'.queue = pool.queue ∧
      (pool'.notEmpty = pool.notEmpty ∨ (pool'.notEmpty = pool.notEmpty.wait i ∧ out = .waits)) := by
  unfold take
  split
  · rename_i hnil
    have hzero : pool.queue.length ≤ 0 := by rw [hnil]; exact Nat.le_refl 0
    split
    · rename_i hrun
      refine ⟨_, _, rfl, ⟨⟨h.size, h.unbounded, fun hstop => ?_⟩, hp, ?_⟩, rfl, rfl, rfl, .inr ⟨rfl, rfl⟩⟩
      · cases hrun.symm.trans hstop
      · exact (Condition.Covers.zero _).mono hzero
    · exact ⟨_, _, rfl, ⟨h, hp, hc.mono (by omega)⟩, rfl, rfl, rfl, .inl rfl⟩
  · rename_i task rest hcons
    have hlen : pool.queue.length = rest.length + 1 := by rw [hcons, List.length_cons]
    have hnil : pool.notFull.waiting = [] →
        (if 0 < pool.maxQueueSize then pool.notFull.notify pick else pool.notFull).waiting = [] := by
      intro hw
      rw [Condition.notify_of_nil hw, ite_self]
      exact hw
    refine ⟨_, _, rfl, ⟨⟨fun h₀ => ?_, fun h₀ => hnil (h.unbounded h₀), fun hstop => ?_⟩, ?_, ?_⟩, rfl, rfl,
      hcons.symm, .inl rfl⟩
    · have := h.size h₀
      show rest.length ≤ pool.maxQueueSize
      omega
    · exact ⟨(h.stopped hstop).1, hnil (h.stopped hstop).2⟩
    · show (if 0 < pool.maxQueueSize then pool.notFull.notify pick else pool.notFull).Covers
        (pool.maxQueueSize - rest.length)
      split
      · exact (hp.notify pick).mono (by omega)
      · exact (Condition.Covers.zero _).mono (by omega)
    · exact hc.mono (by show rest.length ≤ _; omega)

/-! ## Whole runs -/

/-- The threads in the `wait` of `take` are threads of the pool, each once. -/
structure Placed (c : Condition Nat) (threads : List Phase) : Prop where
  nodup : c.members.Nodup
  waits : ∀ i ∈ c.members, threads[i]? = some .waits

structure Ordered (s : System α) (n max : Nat) : Prop where
  threads : s.threads.length = n
  maxQueueSize : s.pool.maxQueueSize = max
  covered : s.pool.Covered
  placed : Placed s.pool.notEmpty s.threads
  fifo : s.taken ++ s.pool.queue = s.accepted

variable {n max : Nat}

theorem Placed.perm {c c' : Condition Nat} {threads : List Phase} (h : Placed c threads)
    (hc : c'.members.Perm c.members) :
    Placed c' threads :=
  ⟨hc.nodup_iff.2 h.nodup, fun i hi => h.waits i (hc.mem_iff.1 hi)⟩

theorem Placed.set {c : Condition Nat} {threads : List Phase} {i : Nat} (h : Placed c threads)
    (hi : i ∉ c.members) (ph : Phase) :
    Placed c (threads.set i ph) := by
  refine ⟨h.nodup, fun j hj => ?_⟩
  have hij : i ≠ j := fun hij => hi (hij ▸ hj)
  rw [List.getElem?_set_ne hij]
  exact h.waits j hj

theorem Placed.wait {c : Condition Nat} {threads : List Phase} {i : Nat} (h : Placed c threads) (hi : i ∉ c.members)
    (hlt : i < threads.length) : Placed (c.wait i) (threads.set i .waits) := by
  have hperm := c.wait_perm i
  refine ⟨hperm.nodup_iff.2 (List.nodup_cons.2 ⟨hi, h.nodup⟩), fun j hj => ?_⟩
  rcases List.mem_cons.1 (hperm.mem_iff.1 hj) with rfl | hj
  · exact List.getElem?_set_self hlt
  · exact (h.set hi .waits).waits j hj

theorem System.run_ordered {m : Nat} (h : Ordered s n m) (hb : Bounded pool) (hq : pool.queue = s.pool.queue)
    (hm : pool.maxQueueSize = m) (he : pool.notEmpty = s.pool.notEmpty)
    (hp : pool.notFull.Covers (pool.maxQueueSize - pool.queue.length - 1)) (p : Nat) (task : α) (pick : Nat → Bool) :
      ∃ s', s.run pool p task pick = .ok s' ∧ Ordered s' n m ∧
      s'.pool.running = pool.running := by
  obtain ⟨pool', out, hrun, hcov, hm', hrunning, hqueue, hperm⟩ :=
    run_covered hb hp (by rw [he, hq]; exact h.covered.consumers) p task pick
  rw [System.run, hrun]
  refine ⟨_, rfl, ⟨h.threads, hm'.trans hm, hcov, h.placed.perm (he ▸ hperm), ?_⟩, hrunning⟩
  show s.taken ++ pool'.queue = s.accepted ++ out.task.toList
  rw [hqueue, hq, ← List.append_assoc, h.fifo]

theorem System.take_ordered {m i : Nat} (h : Ordered s n m) (hb : Bounded pool) (hq : pool.queue = s.pool.queue)
    (hm : pool.maxQueueSize = m) (hp : pool.notFull.Covers (pool.maxQueueSize - pool.queue.length))
    (hc : pool.notEmpty.Covers (pool.queue.length - 1)) (hpl : Placed pool.notEmpty s.threads)
    (hi : i ∉ pool.notEmpty.members) (hlt : i < s.threads.length) (pick : Nat × α → Bool) :
    Ordered (s.take pool i pick) n m ∧ (s.take pool i pick).pool.running = pool.running := by
  obtain ⟨pool', out, htake, hcov, hm', hrunning, hqueue, hplace⟩ := take_covered hb hp hc i pick
  rw [System.take, htake]
  refine ⟨⟨(List.length_set ..).trans h.threads, hm'.trans hm, hcov, ?_, ?_⟩, hrunning⟩
  · show Placed pool'.notEmpty (s.threads.set i out.phase)
    rcases hplace with hsame | ⟨hwait, rfl⟩
    · rw [hsame]
      exact hpl.set hi _
    · rw [hwait]
      exact hpl.wait hi hlt
  · show (s.taken ++ out.task.toList) ++ pool'.queue = s.accepted
    rw [List.append_assoc, hqueue, hq, h.fifo]

theorem Placed.not_mem {c : Condition Nat} {threads : List Phase} {i : Nat} {ph : Phase} (h : Placed c threads)
    (hi : threads[i]? = some ph) (hph : ph ≠ .waits) : i ∉ c.members := by
  intro hmem
  cases hi.symm.trans (h.waits i hmem)
  exact hph rfl

theorem Placed.resume {c c' : Condition Nat} {threads : List Phase} {i : Nat} {p : Nat → Bool} (h : Placed c threads)
    (hc : c.resume p = some (i, c')) : Placed c' threads ∧ i ∉ c'.members ∧ i < threads.length := by
  have hperm := Condition.resume_perm hc
  obtain ⟨hi, hnodup⟩ := List.nodup_cons.1 (hperm.nodup_iff.1 h.nodup)
  refine ⟨⟨hnodup, fun j hj => h.waits j (hperm.mem_iff.2 (.tail i hj))⟩, hi, ?_⟩
  exact (List.getElem?_eq_some_iff.1 (h.waits i (hperm.mem_iff.2 (.head _)))).1

/-- A thread that is not in `wait` moves on. -/
theorem Ordered.move {m i : Nat} {ph : Phase} (h : Ordered s n m) (hi : s.threads[i]? = some ph)
    (hph : ph ≠ .waits) (ph' : Phase) :
    Ordered { s with threads := s.threads.set i ph' } n m :=
  ⟨(List.length_set ..).trans h.threads, h.maxQueueSize, h.covered, h.placed.set (h.placed.not_mem hi hph) ph', h.fifo⟩

/-- One step keeps the accounts, and a pool that was stopped stays so. -/
theorem System.step_ordered {m : Nat} (h : Ordered s n m) (l : Label α) : ∃ s', s.step l = .ok s' ∧ Ordered s' n m ∧
    (s.pool.running = false → s'.pool.running = false) := by
  have hcov := h.covered
  cases l with
  | test i =>
    rw [System.step]
    split
    · rename_i hi
      exact ⟨_, rfl, h.move hi (by decide) _, id⟩
    · exact ⟨s, rfl, h, id⟩
  | take i pick =>
    rw [System.step]
    split
    · rename_i hi
      obtain ⟨hord, hrun⟩ := System.take_ordered h hcov.toBounded rfl h.maxQueueSize hcov.producers
        (hcov.consumers.mono (Nat.sub_le ..)) h.placed (h.placed.not_mem hi (by decide))
          (List.getElem?_eq_some_iff.1 hi).1 pick
      exact ⟨_, rfl, hord, fun hs => hrun.trans hs⟩
    · exact ⟨s, rfl, h, id⟩
  | resumeTake i pick =>
    rw [System.step]
    split
    · rename_i j c hc
      obtain ⟨hpl, hj, hlt⟩ := h.placed.resume hc
      have hb := hcov.conditions (Condition.resume_waiting hc).trans id
      obtain ⟨hord, hrun⟩ := System.take_ordered h hb rfl h.maxQueueSize hcov.producers
        (hcov.consumers.resume hc) hpl hj hlt pick
      exact ⟨_, rfl, hord, fun hs => hrun.trans hs⟩
    · exact ⟨s, rfl, h, id⟩
  | wakeTake i =>
    refine ⟨_, rfl, ⟨h.threads, h.maxQueueSize, ⟨?_, hcov.producers, hcov.consumers.wake _⟩,
      h.placed.perm (Condition.wake_perm ..), h.fifo⟩, id⟩
    exact hcov.conditions Condition.wake_waiting id
  | finish i =>
    rw [System.step]
    split
    · rename_i hi
      exact ⟨_, rfl, h.move hi (by decide) _, id⟩
    · exact ⟨s, rfl, h, id⟩
  | run p task pick =>
    rw [System.step]
    split
    · exact ⟨s, rfl, h, id⟩
    · obtain ⟨s', hs', hord, hrun⟩ := System.run_ordered h hcov.toBounded rfl h.maxQueueSize rfl
        (hcov.producers.mono (Nat.sub_le ..)) p task pick
      exact ⟨s', hs', hord, fun hs => hrun.trans hs⟩
  | resumeRun p pick =>
    rw [System.step]
    split
    · rename_i q task c hc
      have hb := hcov.conditions id (Condition.resume_waiting hc).trans
      obtain ⟨s', hs', hord, hrun⟩ :=
        System.run_ordered h hb rfl h.maxQueueSize rfl (hcov.producers.resume hc) q task pick
      exact ⟨s', hs', hord, fun hs => hrun.trans hs⟩
    · exact ⟨s, rfl, h, id⟩
  | wakeRun p =>
    refine ⟨_, rfl, ⟨h.threads, h.maxQueueSize, ⟨?_, hcov.producers.wake _, hcov.consumers⟩, h.placed, h.fifo⟩, id⟩
    exact hcov.conditions id Condition.wake_waiting
  | stop =>
    exact ⟨_, rfl, ⟨h.threads, h.maxQueueSize,
      ⟨⟨hcov.size, fun _ => rfl, fun _ => ⟨rfl, rfl⟩⟩, .empty rfl _, .empty rfl _⟩,
      h.placed.perm (Condition.notifyAll_perm _), h.fifo⟩, fun _ => rfl⟩

theorem init_ordered (n m : Nat) : Ordered (System.init n m : System α) n m :=
  ⟨List.length_replicate, rfl, ⟨⟨fun _ => Nat.zero_le m, fun _ => rfl, fun _ => ⟨rfl, rfl⟩⟩,
    .empty rfl _, .empty rfl _⟩, ⟨List.nodup_nil, fun _ hi => nomatch hi⟩, rfl⟩

/-- Where every thread of the pool waits un-notified, none has been notified. -/
theorem Placed.notified_nil {c : Condition Nat} {threads : List Phase} (h : Placed c threads)
    (hall : ∀ i < threads.length, i ∈ c.waiting) : c.notified = [] := by
  rw [List.eq_nil_iff_forall_not_mem]
  intro i hi
  have hmem : i ∈ c.notified ++ c.woken := List.mem_append_left _ hi
  have hlt := (List.getElem?_eq_some_iff.1 (h.waits i (List.mem_append_right _ hmem))).1
  exact (List.nodup_append.1 h.nodup).2.2 i (hall i hlt) i hmem rfl

/-- No task and no wake-up is lost, and nobody waits after `stop`. -/
theorem pool_tasks_and_wakeups {n : Nat} (hn : 1 ≤ n) (max : Nat) (ls : List (Label α)) :
    ∃ s : System α, Run.run System.step (System.init n max) ls = .ok s ∧
      (0 < max → s.pool.queue.length ≤ max) ∧ s.taken ++ s.pool.queue = s.accepted ∧
      (s.pool.running = true → ¬ (s.pool.queue ≠ [] ∧ ∀ i < n, i ∈ s.pool.notEmpty.waiting)) ∧
      (s.pool.running = true →
        ¬ (s.pool.isFull = false ∧ s.pool.notFull.waiting ≠ [] ∧ s.pool.notFull.notified = [])) ∧
      (s.pool.running = false → ∀ ms, ∃ t, Run.run System.step s ms = .ok t ∧
        t.pool.notEmpty.waiting = [] ∧ t.pool.notFull.waiting = []) := by
  have hstep : ∀ (s : System α) l, Ordered s n max → ∃ t, s.step l = .ok t ∧ Ordered t n max := by
    intro s l h
    obtain ⟨t, ht, hord, -⟩ := System.step_ordered h l
    exact ⟨t, ht, hord⟩
  obtain ⟨s, hs, hord⟩ : ∃ s, Run.run System.step (System.init n max) ls = .ok s ∧ Ordered s n max :=
    run_total hstep (init_ordered n max)
  have hcov := hord.covered
  have hsize := hcov.size
  have hp := hcov.producers
  rw [hord.maxQueueSize] at hsize hp
  refine ⟨s, hs, hsize, hord.fifo, ?_, ?_, ?_⟩
  · rintro - ⟨hne, hall⟩
    have hnone := hord.placed.notified_nil (by rwa [hord.threads])
    have hlen := hcov.consumers (List.ne_nil_of_mem (hall 0 hn))
    rw [hnone] at hlen
    exact hne (List.length_eq_zero_iff.1 (Nat.le_zero.1 hlen))
  · rintro - ⟨hfree, hw, hnone⟩
    have hlen := hp hw
    rw [hnone, List.length_nil] at hlen
    have hmax : s.pool.maxQueueSize ≠ 0 := fun h₀ => hw (hcov.unbounded h₀)
    have hfull := isFull_iff.trans (by rw [hord.maxQueueSize] : _ ↔ 0 < max ∧ max ≤ s.pool.queue.length)
    rw [hfree] at hfull
    rw [hord.maxQueueSize] at hmax
    exact absurd (hfull.2 ⟨by omega, by omega⟩) (by decide)
  · intro hstop ms
    have hkeep : ∀ (s : System α) l, Ordered s n max ∧ s.pool.running = false →
        ∃ t, s.step l = .ok t ∧ Ordered t n max ∧ t.pool.running = false := by
      intro s l h
      obtain ⟨t, ht, hord, hrun⟩ := System.step_ordered h.1 l
      exact ⟨t, ht, hord, hrun h.2⟩
    obtain ⟨t, ht, hordt, hrun⟩ : ∃ t, Run.run System.step s ms = .ok t ∧ Ordered t n max ∧ t.pool.running = false :=
      run_total hkeep ⟨hord, hstop⟩
    exact ⟨t, ht, hordt.covered.stopped hrun⟩

/-- A producer fills the queue of one worker, and another one waits until the pool is stopped. -/
theorem pool_tasks_and_wakeups_full : ∃ s : System Nat,
    Run.run System.step (System.init 1 1) [.run 7 1 fun _ => true, .run 8 2 fun _ => true, .test 0, .stop] = .ok s ∧
      s.taken ++ s.pool.queue = s.accepted ∧ s.pool.notFull.notified = [(8, 2)] := by
  obtain ⟨s, hs, -, hfifo, -⟩ :=
    pool_tasks_and_wakeups (Nat.le_refl 1) 1 [.run 7 1 fun _ => true, .run 8 2 fun _ => true, .test 0, .stop]
  refine ⟨s, hs, hfifo, ?_⟩
  cases hs
  rfl

end Zhengqi.ThreadPool
