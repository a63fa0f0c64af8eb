import Zhengqi.ThreadPoolSound

/-!
# The end of a pool

`ThreadPool::stop` joins the threads of the pool. Once it has left its critical section every thread is at most three
steps from the end of `runInThread`, whatever the producers and the other threads do in between.
-/

namespace Zhengqi.ThreadPool

open Monitor Run

variable {α : Type} {s s' : System α} {pool pool' : ThreadPool α} {n max : Nat}

/-! ## One step -/

theorem run_frame {p : Nat} {task : α} {pick : Nat → Bool} {out : Outcome α}
    (h : pool.run p task pick = .ok (pool', out)) :
    pool'.notEmpty.members.Perm pool.notEmpty.members ∧ (pool.running = false → out.task = none) := by
  unfold run at h
  split at h
  · cases h
    exact ⟨.refl _, fun _ => rfl⟩
  · split at h
    · cases h
      exact ⟨.refl _, fun _ => rfl⟩
    · rename_i hrun
      obtain ⟨-, -, h⟩ := bind_ok.mp h
      cases h
      exact ⟨Condition.notify_perm .., fun hstop => absurd hstop hrun⟩

/-- The thread that takes a task with a step. -/
def System.taker (s : System α) : Label α → Option Nat
  | .take i _ => if s.threads[i]? = some .take then s.pool.queue.head?.map fun _ => i else none
  | .resumeTake i _ => (s.pool.notEmpty.resume (· == i)).bind fun r => s.pool.queue.head?.map fun _ => r.1
  | _ => none

/-- What a step does to the threads: nothing, or one of them goes on outside of `take`, or comes to `take`. -/
inductive Steps (s : System α) : Option Nat → System α → Prop
  | stay {s' : System α} (ht : s'.threads = s.threads) (hm : s'.pool.notEmpty.members.Perm s.pool.notEmpty.members)
      (hk : s'.taken = s.taken) (ha : s.pool.running = false → s'.accepted = s.accepted) : Steps s none s'
  | tests {i : Nat} (hi : s.threads[i]? = some .test) :
      Steps s none { s with threads := s.threads.set i (if s.pool.running then .take else .done) }
  | finishes {i : Nat} (hi : s.threads[i]? = some .task) : Steps s none { s with threads := s.threads.set i .test }
  | takes {i : Nat} {pool : ThreadPool α} {pick : Nat × α → Bool}
      (hi : s.threads[i]? = some .take ∨ s.threads[i]? = some .waits)
      (hm : ∀ j, j ≠ i → j ∈ s.pool.notEmpty.members → j ∈ pool.notEmpty.members)
      (hr : pool.running = s.pool.running) (hq : pool.queue = s.pool.queue) :
      Steps s (s.pool.queue.head?.map fun _ => i) (s.take pool i pick)

theorem System.run_steps (pool : ThreadPool α) {p : Nat} {task : α} {pick : Nat → Bool}
    (he : pool.notEmpty = s.pool.notEmpty) (hr : pool.running = s.pool.running) (h : s.run pool p task pick = .ok s') :
    Steps s none s' := by
  obtain ⟨⟨pool', out⟩, hrun, h⟩ := bind_ok.mp h
  cases h
  obtain ⟨hperm, hout⟩ := run_frame hrun
  rw [he] at hperm
  refine .stay rfl hperm rfl fun hstop => ?_
  rw [hout (hr.trans hstop)]
  exact List.append_nil _

theorem System.step_steps {l : Label α} (hp : Placed s.pool.notEmpty s.threads) (h : s.step l = .ok s') :
    Steps s (s.taker l) s' := by
  have hstay : Steps s none s := .stay rfl (.refl _) rfl fun _ => rfl
  cases l with
  | test i =>
    refine ite_pure_inv (I := Steps s none) (fun hi h => ?_) hstay h
    cases h
    exact .tests hi
  | take i pick =>
    rw [System.taker]
    rcases ite_ok h with ⟨hi, h⟩ | ⟨hi, h⟩
    · cases h
      rw [if_pos hi]
      exact .takes (.inl hi) (fun _ _ => id) rfl rfl
    · cases h
      rw [if_neg hi]
      exact hstay
  | resumeTake i pick =>
    rw [System.step] at h
    rw [System.taker]
    split at h
    · rename_i j c hc
      cases h
      rw [hc]
      have hperm := Condition.resume_perm hc
      refine .takes (.inr (hp.waits j (hperm.mem_iff.2 (.head _)))) (fun k hk hm => ?_) rfl rfl
      exact (List.mem_cons.1 (hperm.mem_iff.1 hm)).resolve_left hk
    · rename_i hc
      cases h
      rw [hc]
      exact hstay
  | wakeTake i =>
    cases h
    exact .stay rfl (Condition.wake_perm ..) rfl fun _ => rfl
  | finish i =>
    refine ite_pure_inv (I := Steps s none) (fun hi h => ?_) hstay h
    cases h
    exact .finishes hi
  | run p task pick =>
    rw [System.step] at h
    split at h
    · cases h
      exact hstay
    · exact System.run_steps s.pool rfl rfl h
  | resumeRun p pick =>
    rw [System.step] at h
    split at h
    · rename_i q task notFull hc
      exact System.run_steps { s.pool with notFull } rfl rfl h
    · cases h
      exact hstay
  | wakeRun p =>
    cases h
    exact .stay rfl (.refl _) rfl fun _ => rfl
  | stop =>
    cases h
    exact .stay rfl (Condition.notifyAll_perm _) rfl fun _ => rfl

theorem take_cases (pool : ThreadPool α) (i : Nat) (pick : Nat × α → Bool) :
    (pool.running = true ∧ pool.take i pick = ({ pool with notEmpty := pool.notEmpty.wait i }, .waits)) ∨
      ∃ pool', pool.take i pick = (pool', .returns pool.queue.head?) ∧ pool'.notEmpty = pool.notEmpty := by
  unfold take
  cases hq : pool.queue with
  | nil =>
    dsimp only
    split
    · rename_i hrun
      exact .inl ⟨hrun, rfl⟩
    · exact .inr ⟨_, rfl, rfl⟩
  | cons task rest => exact .inr ⟨_, rfl, rfl⟩

theorem getElem?_set_some {threads : List Phase} {i j : Nat} {ph ph' : Phase} (h : (threads.set i ph)[j]? = some ph') :
    (j = i ∧ ph' = ph) ∨ (j ≠ i ∧ threads[j]? = some ph') := by
  by_cases hij : i = j
  · subst hij
    have hlt : i < (threads.set i ph).length := (List.getElem?_eq_some_iff.1 h).1
    rw [List.length_set] at hlt
    rw [List.getElem?_set_self hlt] at h
    exact .inl ⟨rfl, (Option.some.inj h).symm⟩
  · rw [List.getElem?_set_ne hij] at h
    exact .inr ⟨Ne.symm hij, h⟩

/-! ## The threads in wait -/

/-- Every thread in the `wait` of `take` is known to the condition. -/
def Seated (s : System α) : Prop := ∀ i, s.threads[i]? = some .waits → i ∈ s.pool.notEmpty.members

theorem Seated.set {i : Nat} {ph : Phase} (h : Seated s) (hph : ph ≠ .waits) :
    Seated { s with threads := s.threads.set i ph } := by
  intro j hj
  rcases getElem?_set_some hj with ⟨-, he⟩ | ⟨-, hj⟩
  · exact absurd he.symm hph
  · exact h j hj

theorem phase_returns_ne (task : Option α) : (Outcome.returns task).phase ≠ .waits := by
  cases task with
  | none => exact fun h => by cases h
  | some task => exact fun h => by cases h

theorem System.take_seated {i : Nat} {pick : Nat × α → Bool}
    (hm : ∀ j, j ≠ i → s.threads[j]? = some .waits → j ∈ pool.notEmpty.members) : Seated (s.take pool i pick) := by
  intro j hj
  rcases take_cases pool i pick with ⟨-, h⟩ | ⟨pool', h, he⟩
  · rw [System.take, h] at hj ⊢
    show j ∈ (pool.notEmpty.wait i).members
    rw [(pool.notEmpty.wait_perm i).mem_iff]
    rcases getElem?_set_some hj with ⟨rfl, -⟩ | ⟨hij, hj⟩
    · exact .head _
    · exact .tail _ (hm j hij hj)
  · rw [System.take, h] at hj ⊢
    show j ∈ pool'.notEmpty.members
    rw [he]
    rcases getElem?_set_some hj with ⟨-, hph⟩ | ⟨hij, hj⟩
    · exact absurd hph.symm (phase_returns_ne _)
    · exact hm j hij hj

theorem Seated.steps {k : Option Nat} (h : Seated s) (hs : Steps s k s') : Seated s' := by
  cases hs with
  | stay ht hm =>
    intro i hi
    rw [ht] at hi
    exact hm.mem_iff.2 (h i hi)
  | tests => exact h.set (by split <;> decide)
  | finishes => exact h.set (by decide)
  | takes hi hm => exact System.take_seated fun j hij hj => hm j hij (h j hj)

/-- What holds of a pool along every schedule. -/
theorem System.step_seated (ho : Ordered s n max) (h : Seated s) (l : Label α) :
    ∃ s', s.step l = .ok s' ∧ (Ordered s' n max ∧ Seated s') ∧ (s.pool.running = false → s'.pool.running = false) := by
  obtain ⟨s', hs', ho', hr⟩ := System.step_ordered ho l
  exact ⟨s', hs', ⟨ho', h.steps (System.step_steps ho.placed hs')⟩, hr⟩

/-! ## After stop -/

/-- The steps that a thread has before it, once the pool is stopped. -/
def ahead : Option Phase → Nat
  | some .waits | some .take => 3
  | some .task => 2
  | some .test => 1
  | _ => 0

theorem ahead_returns (task : Option α) : ahead (some (Outcome.returns task).phase) ≤ 2 := by
  cases task with
  | none => exact Nat.le_succ 1
  | some task => exact Nat.le_refl 2

theorem ahead_set {threads : List Phase} {i : Nat} {ph : Phase} (hi : threads[i]? = some ph) {ph' : Phase}
    (hlt : ahead (some ph') < ahead (some ph)) :
    ahead (threads.set i ph')[i]? < ahead threads[i]? ∧
      ∀ j : Nat, ahead (threads.set i ph')[j]? ≤ ahead threads[j]? := by
  have hself : ahead (threads.set i ph')[i]? < ahead threads[i]? := by
    rw [List.getElem?_set_self (List.getElem?_eq_some_iff.1 hi).1, hi]
    exact hlt
  refine ⟨hself, fun j => ?_⟩
  by_cases hij : i = j
  · subst hij
    exact Nat.le_of_lt hself
  · exact Nat.le_of_eq (by rw [List.getElem?_set_ne hij])

theorem System.take_stopped (hr : pool.running = false) (i : Nat) (pick : Nat × α → Bool) :
    (s.take pool i pick).threads = s.threads.set i (Outcome.returns pool.queue.head?).phase ∧
      (s.take pool i pick).taken = s.taken ++ pool.queue.head?.toList := by
  rcases take_cases pool i pick with ⟨hrun, -⟩ | ⟨pool', h, -⟩
  · cases hrun.symm.trans hr
  · rw [System.take, h]
    exact ⟨rfl, rfl⟩

/-- A step of a stopped pool accepts no task, takes no thread back, and takes a task only for a thread that was on
its way to it. -/
theorem Steps.winds {k : Option Nat} (h : Steps s k s') (hr : s.pool.running = false) :
    s'.accepted = s.accepted ∧ (∀ j : Nat, ahead s'.threads[j]? ≤ ahead s.threads[j]?) ∧
      s'.taken.length = s.taken.length + k.toList.length ∧
      ∀ i ∈ k, ahead s.threads[i]? = 3 ∧ ahead s'.threads[i]? ≤ 2 := by
  cases h with
  | stay ht _ hk ha =>
    rw [ht, hk]
    exact ⟨ha hr, fun _ => Nat.le_refl _, rfl, by simp⟩
  | @tests i hi =>
    rw [hr]
    have hlt : ahead (some .done) < ahead (some .test) := by decide
    exact ⟨rfl, (ahead_set hi hlt).2, rfl, by simp⟩
  | @finishes i hi =>
    have hlt : ahead (some .test) < ahead (some .task) := by decide
    exact ⟨rfl, (ahead_set hi hlt).2, rfl, by simp⟩
  | @takes i pool pick hi _ hr' hq =>
    obtain ⟨ht, hk⟩ := System.take_stopped (s := s) (hr'.trans hr) i pick
    obtain ⟨ph, hph, hthree⟩ : ∃ ph, s.threads[i]? = some ph ∧ ahead (some ph) = 3 := by
      rcases hi with hi | hi
      · exact ⟨_, hi, rfl⟩
      · exact ⟨_, hi, rfl⟩
    have hlt : ahead (some (Outcome.returns pool.queue.head?).phase) < ahead (some ph) :=
      hthree ▸ Nat.lt_succ_of_le (ahead_returns _)
    rw [ht, hk, List.length_append, hq]
    rw [hq] at hlt
    refine ⟨rfl, (ahead_set hph hlt).2, by cases s.pool.queue <;> rfl, fun j hj => ?_⟩
    obtain ⟨-, -, rfl⟩ := Option.map_eq_some_iff.mp hj
    have hself := (ahead_set hph hlt).1
    rw [hph, hthree] at hself
    exact ⟨hph ▸ hthree, Nat.le_of_lt_succ hself⟩

/-! ## Turns -/

/-- The next step of a thread in `runInThread`; a task that runs comes to its end. -/
def System.turn (s : System α) (i : Nat) (pick : Nat × α → Bool) : Label α :=
  match s.threads[i]? with
  | some .take => .take i pick
  | some .waits => .resumeTake i pick
  | some .task => .finish i
  | _ => .test i

/-- A thread of the pool has its turn, or anything else happens. -/
inductive Move (α : Type)
  | worker (i : Nat) (pick : Nat × α → Bool)
  | other (l : Label α)

def Move.thread : Move α → Option Nat
  | .worker i _ => some i
  | .other _ => none

def System.label (s : System α) : Move α → Label α
  | .worker i pick => s.turn i pick
  | .other l => l

def System.move (s : System α) (m : Move α) : Except Fault (System α) := s.step (s.label m)

/-- The threads that have taken a task, one entry for each task. -/
def System.takers (s : System α) (is : List Nat) (m : Move α) : List Nat := is ++ (s.taker (s.label m)).toList

theorem System.turn_lt {i : Nat} {pick : Nat × α → Bool} (ho : Ordered s n max) (hs : Seated s)
    (hr : s.pool.running = false) (hne : ahead s.threads[i]? ≠ 0) (h : s.step (s.turn i pick) = .ok s') :
      ahead s'.threads[i]? < ahead s.threads[i]? := by
  have htake : ∀ {pool : ThreadPool α} {ph : Phase}, pool.running = false → s.threads[i]? = some ph →
    2 < ahead (some ph) →
      ahead (s.take pool i pick).threads[i]? < ahead s.threads[i]? := by
    intro pool ph hrun hph hlt
    obtain ⟨ht, -⟩ := System.take_stopped (s := s) hrun i pick
    rw [ht]
    exact (ahead_set hph (Nat.lt_of_le_of_lt (ahead_returns _) hlt)).1
  unfold System.turn at h
  cases hph : s.threads[i]? with
  | none =>
    rw [hph] at hne
    exact absurd rfl hne
  | some ph =>
    rw [hph] at h
    rw [← hph]
    cases ph with
    | test =>
      rw [System.step, if_pos hph, hr] at h
      cases h
      exact (ahead_set hph (by decide : ahead (some .done) < _)).1
    | take =>
      rw [System.step, if_pos hph] at h
      cases h
      exact htake hr hph (by decide)
    | waits =>
      -- `notifyAll` has left nobody waiting, so the thread comes back
      obtain ⟨c, hc⟩ := Condition.resume_of_mem (ho.covered.stopped hr).1 (hs i hph)
      rw [System.step, hc] at h
      cases h
      exact htake hr hph (by decide)
    | task =>
      rw [System.step, if_pos hph] at h
      cases h
      exact (ahead_set hph (by decide : ahead (some .test) < _)).1
    | done =>
      rw [hph] at hne
      exact absurd rfl hne

/-- A stopped pool, along every schedule. -/
structure Stopped (n max : Nat) (s : System α) : Prop where
  ordered : Ordered s n max
  seated : Seated s
  running : s.pool.running = false

theorem Stopped.step (h : Stopped n max s) (l : Label α) :
    ∃ s', s.step l = .ok s' ∧ Stopped n max s' ∧ Steps s (s.taker l) s' := by
  obtain ⟨s', hs', ⟨ho, hs⟩, hr⟩ := System.step_seated h.ordered h.seated l
  exact ⟨s', hs', ⟨ho, hs, hr h.running⟩, System.step_steps h.ordered.placed hs'⟩

theorem Stopped.move (h : Stopped n max s) (m : Move α) :
    ∃ s', s.move m = .ok s' ∧ Stopped n max s' ∧ Steps s (s.taker (s.label m)) s' ∧
      ∀ i : Nat, ahead s'.threads[i]? ≤ ahead s.threads[i]? - (decide (m.thread = some i)).toNat := by
  obtain ⟨s', hs', hst, hstep⟩ := h.step (s.label m)
  refine ⟨s', hs', hst, hstep, fun i => ?_⟩
  have hle := (hstep.winds h.running).2.1 i
  cases m with
  | other l => exact hle
  | worker j pick =>
    by_cases hij : j = i
    · subst hij
      have hlt := fun hne => System.turn_lt h.ordered h.seated h.running hne hs'
      rw [Move.thread, decide_eq_true rfl, Bool.toNat_true]
      omega
    · rw [Move.thread, decide_eq_false fun he => hij (Option.some.inj he)]
      exact hle

/-- A stopped pool with the threads that have taken a task since. -/
structure Winding (s : System α) (n max : Nat) (t : System α) (is : List Nat) : Prop extends Stopped n max t where
  accepted : t.accepted = s.accepted
  taken : t.taken.length = s.taken.length + is.length
  nodup : is.Nodup
  past : ∀ i ∈ is, ahead t.threads[i]? ≤ 2

theorem Winding.move {t : System α} {is : List Nat} (h : Winding s n max t is) (m : Move α) :
    ∃ t', t.move m = .ok t' ∧ Winding s n max t' (t.takers is m) := by
  obtain ⟨t', ht', hst, hstep, -⟩ := h.toStopped.move m
  obtain ⟨ha, hle, hk, hi⟩ := hstep.winds h.running
  refine ⟨t', ht', hst, ha.trans h.accepted, ?_, ?_, fun i hm => ?_⟩
  · rw [hk, h.taken, System.takers, List.length_append, Nat.add_assoc]
  · -- a thread that takes a task had three steps before it, and so has not taken one
    rw [System.takers]
    cases ht : t.taker (t.label m) with
    | none => simpa using h.nodup
    | some i =>
      refine List.nodup_append.mpr ⟨h.nodup, by simp, fun j hj k hk => ?_⟩
      rw [Option.toList_some, List.mem_singleton] at hk
      rintro rfl
      have hthree := (hi i ht).1
      have hpast := h.past j hj
      rw [hk, hthree] at hpast
      exact absurd hpast (by decide)
  · rcases List.mem_append.mp hm with hm | hm
    · exact Nat.le_trans (hle i) (h.past i hm)
    · exact (hi i (Option.mem_toList.mp hm)).2

/-- After `stop`, whatever the producers and the threads do: no task is accepted, each thread takes at most one more,
and the others stay in the queue; a thread that has had three turns is at its end, so that the joins return. -/
theorem pool_stop_ends (n max : Nat) (ls : List (Label α)) :
    ∃ s : System α, Run.run System.step (System.init n max) (ls ++ [.stop]) = .ok s ∧
      ∀ ms, ∃ t, Run.run System.move s ms = .ok t ∧ t.taken ++ t.pool.queue = s.accepted ∧
        t.taken.length = s.taken.length + (track System.move System.takers s [] ms).length ∧
        (track System.move System.takers s [] ms).Nodup ∧
        ∀ i < n, 3 ≤ ms.countP (fun m => decide (m.thread = some i)) → t.threads[i]? = some .done := by
  obtain ⟨s₀, hs₀, ho₀, hst₀⟩ :
      ∃ s, Run.run System.step (System.init n max : System α) ls = .ok s ∧ Ordered s n max ∧ Seated s := by
    refine run_total (fun s l h => ?_) ⟨init_ordered n max, fun i hi => ?_⟩
    · obtain ⟨s', hs', h', -⟩ := System.step_seated h.1 h.2 l
      exact ⟨s', hs', h'⟩
    · rw [System.init, List.getElem?_replicate] at hi
      split at hi <;> cases hi
  obtain ⟨s, hs, ⟨ho, hst⟩, -⟩ := System.step_seated ho₀ hst₀ .stop
  have hstop : Stopped n max s := by
    refine ⟨ho, hst, ?_⟩
    cases hs
    rfl
  refine ⟨s, (run_append_ok _).mpr ⟨s₀, hs₀, (run_cons_ok _).mpr ⟨s, hs, rfl⟩⟩, fun ms => ?_⟩
  have hstart : Winding s n max s [] := ⟨hstop, rfl, rfl, List.nodup_nil, by simp⟩
  obtain ⟨t, ht, hw⟩ : ∃ t, Run.run System.move s ms = .ok t ∧
      Winding s n max t (track System.move System.takers s [] ms) :=
    run_tracks (fun t is m h => h.move m) hstart
  refine ⟨t, ht, hw.ordered.fifo.trans hw.accepted, hw.taken, hw.nodup, fun i hi hthree => ?_⟩
  have hrun := run_countP_le (m := fun u : System α => ahead u.threads[i]?) (fun u m u' h hu => by
    obtain ⟨v, hv, hst', -, hlt⟩ := Stopped.move (n := n) h m
    cases hv.symm.trans hu
    exact ⟨hst', hlt i⟩) hstop ht
  have hlt : i < t.threads.length := by rwa [hw.ordered.threads]
  have hmax : ahead s.threads[i]? ≤ 3 := by
    unfold ahead
    split <;> decide
  have hzero : ahead t.threads[i]? = 0 := by omega
  rw [List.getElem?_eq_getElem hlt] at hzero ⊢
  cases hph : t.threads[i] with
  | done => rfl
  | _ => rw [hph] at hzero; cases hzero

/-- Two threads are on their way to a task when the pool is stopped, and three tasks are there. -/
def twoTaking : List (Label Nat) :=
  [.test 0, .test 1, .run 7 5 fun _ => false, .run 7 6 fun _ => false, .run 7 8 fun _ => false]

/-- Every thread has three turns. -/
def threeTurns : List (Move Nat) :=
  [0, 1, 0, 1, 0, 1].map fun i => .worker i fun _ => true

theorem pool_stop_ends_two : ∃ s t : System Nat,
    Run.run System.step (System.init 2 0) (twoTaking ++ [.stop]) = .ok s ∧
      Run.run System.move s threeTurns = .ok t ∧ t.taken ++ t.pool.queue = [5, 6, 8] ∧
      track System.move System.takers s [] threeTurns = [0, 1] ∧ t.taken.length = 2 ∧
      t.threads[0]? = some .done ∧ t.threads[1]? = some .done := by
  obtain ⟨s, hs, h⟩ := pool_stop_ends 2 0 twoTaking
  obtain ⟨t, ht, hq, hlen, -, hdone⟩ := h threeTurns
  have hd : (Run.run System.step (System.init 2 0) (twoTaking ++ [.stop])).map
      (fun s => (s.accepted, s.taken.length, track System.move System.takers s [] threeTurns)) =
          .ok ([5, 6, 8], 0, [0, 1]) := by
    decide +kernel
  rw [hs] at hd
  obtain ⟨hacc, hzero, htrack⟩ := by simpa only [Except.map, Except.ok.injEq, Prod.mk.injEq] using hd
  rw [hzero, htrack] at hlen
  exact ⟨s, t, hs, ht, hq.trans hacc, htrack, hlen, hdone 0 (by decide) (by decide), hdone 1 (by decide) (by decide)⟩

end Zhengqi.ThreadPool
