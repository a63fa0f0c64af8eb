import Zhengqi.BoundedBlockingQueue
import Zhengqi.Lib.Run

/-!
# No value and no wake-up of the queue is lost

Along every schedule of producers and consumers.
-/

namespace Zhengqi.BoundedBlockingQueue

open Monitor Run

variable {α : Type} {s t : System α} {q q' : BoundedBlockingQueue α}

theorem full_iff : q.full = true ↔ q.queue.length = q.capacity := decide_eq_true_iff

/-! ## The calls of `put` -/

/-- The values of the calls that returned, in lock order: a producer that has the lock and finds a free place
puts its value and returns, whether it has just called or comes back from its `wait`. -/
def System.completed (s : System α) (xs : List α) : Label α → List α
  | .put t x _ => if s.q.inside t || s.q.full then xs else xs ++ [x]
  | .resumePut t _ =>
    match s.q.notFull.resume (·.1 == t) with
    | some ((_, x), _) => if s.q.full then xs else xs ++ [x]
    | none => xs
  | _ => xs

/-- The values of all calls: a thread that is inside the queue does not call. -/
def System.called (s : System α) (xs : List α) : Label α → List α
  | .put t x _ => if s.q.inside t then xs else xs ++ [x]
  | _ => xs

/-! ## Order and wake-ups -/

/-- Every place that is free and every value that is there has a thread on its way to it, as long as
others wait for it. -/
structure Covered (q : BoundedBlockingQueue α) : Prop where
  size : q.queue.length ≤ q.capacity
  producers : q.notFull.Covers (q.capacity - q.queue.length)
  consumers : q.notEmpty.Covers q.queue.length

/-- The values that were taken come before those that are there. -/
structure Ordered (capacity : Nat) (s : System α) (puts : List α) : Prop where
  capacity : s.q.capacity = capacity
  covered : s.q.Covered
  fifo : s.takes ++ s.q.queue = puts

/-- A producer with the lock may have been one of those that were on their way. -/
theorem put_covered (hsize : q.queue.length ≤ q.capacity) (hp : q.notFull.Covers (q.capacity - q.queue.length - 1))
    (hc : q.notEmpty.Covers q.queue.length) (t : Nat) (x : α) (pick : Nat → Bool) :
    ∃ q', q.put t x pick = .ok q' ∧ q'.Covered ∧ q'.capacity = q.capacity ∧
      q'.queue = if q.full then q.queue else q.queue ++ [x] := by
  unfold put
  split
  · rename_i hfull
    refine ⟨_, rfl, ⟨hsize, ?_, hc⟩, rfl, rfl⟩
    rw [full_iff] at hfull
    exact (Condition.Covers.zero _).mono (by show q.capacity - q.queue.length ≤ 0; omega)
  · rename_i hfree
    rw [Bool.not_eq_true] at hfree
    have hlt : q.queue.length ≠ q.capacity := mt full_iff.2 (by rw [hfree]; decide)
    have hlen : (q.queue ++ [x]).length = q.queue.length + 1 := List.length_append
    rw [check_of hfree, ok_bind]
    refine ⟨_, rfl, ⟨?_, ?_, ?_⟩, rfl, rfl⟩
    · show (q.queue ++ [x]).length ≤ q.capacity
      omega
    · exact hp.mono (by show q.capacity - (q.queue ++ [x]).length ≤ _; omega)
    · show (q.notEmpty.notify pick).Covers (q.queue ++ [x]).length
      rw [hlen]
      exact hc.notify pick

theorem take_covered (hsize : q.queue.length ≤ q.capacity) (hp : q.notFull.Covers (q.capacity - q.queue.length))
    (hc : q.notEmpty.Covers (q.queue.length - 1)) (t : Nat) (pick : Nat × α → Bool) :
    ∃ q' y, q.take t pick = .ok (q', y) ∧ q'.Covered ∧ q'.capacity = q.capacity ∧ y.toList ++ q'.queue = q.queue := by
  unfold take
  split
  · rename_i hnil
    refine ⟨_, _, rfl, ⟨hsize, hp, ?_⟩, rfl, rfl⟩
    exact (Condition.Covers.zero _).mono (by show q.queue.length ≤ 0; rw [hnil]; exact Nat.le_refl 0)
  · rename_i front rest hcons
    have hlen : q.queue.length = rest.length + 1 := by rw [hcons, List.length_cons]
    rw [check_of (by rw [hcons]; exact List.cons_ne_nil _ _), ok_bind]
    refine ⟨_, _, rfl, ⟨?_, ?_, ?_⟩, rfl, hcons.symm⟩
    · show rest.length ≤ q.capacity
      omega
    · exact (hp.notify pick).mono (by show q.capacity - rest.length ≤ _; omega)
    · exact hc.mono (by show rest.length ≤ _; omega)

section
variable {n : Nat} {puts : List α} (h : Ordered n s puts) (hq : q.queue = s.q.queue) (hcap : q.capacity = n)
include h hq hcap

theorem System.put_ordered (hp : q.notFull.Covers (q.capacity - q.queue.length - 1))
    (hc : q.notEmpty.Covers q.queue.length) (t : Nat) (x : α) (pick : Nat → Bool) :
    ∃ s', s.put q t x pick = .ok s' ∧ Ordered n s' (if s.q.full then puts else puts ++ [x]) := by
  have hsize : q.queue.length ≤ q.capacity := by
    rw [hq, hcap, ← h.capacity]
    exact h.covered.size
  have hfull : q.full = s.q.full := by
    rw [full, full, hq, hcap, h.capacity]
  obtain ⟨q', hput, hcov, hcap', hqueue⟩ := put_covered hsize hp hc t x pick
  rw [System.put, hput]
  refine ⟨_, rfl, hcap'.trans hcap, hcov, ?_⟩
  show s.takes ++ q'.queue = _
  rw [hqueue, hfull, hq, ← h.fifo]
  split
  · rfl
  · exact (List.append_assoc ..).symm

theorem System.take_ordered (hp : q.notFull.Covers (q.capacity - q.queue.length))
    (hc : q.notEmpty.Covers (q.queue.length - 1)) (t : Nat) (pick : Nat × α → Bool) :
    ∃ s', s.take q t pick = .ok s' ∧ Ordered n s' puts := by
  have hsize : q.queue.length ≤ q.capacity := by
    rw [hq, hcap, ← h.capacity]
    exact h.covered.size
  obtain ⟨q', y, htake, hcov, hcap', hqueue⟩ := take_covered hsize hp hc t pick
  rw [System.take, htake]
  refine ⟨_, rfl, hcap'.trans hcap, hcov, ?_⟩
  show (s.takes ++ y.toList) ++ q'.queue = puts
  rw [List.append_assoc, hqueue, hq, h.fifo]

end

theorem System.step_ordered {n : Nat} {puts : List α} (h : Ordered n s puts) (l : Label α) :
    ∃ s', s.step l = .ok s' ∧ Ordered n s' (s.completed puts l) := by
  have hp := h.covered.producers
  have hc := h.covered.consumers
  cases l with
  | put t x pick =>
    rw [System.step, completed]
    by_cases hin : s.q.inside t = true
    · rw [if_pos hin, hin, Bool.true_or, if_pos rfl]
      exact ⟨s, rfl, h⟩
    · rw [if_neg hin, eq_false_of_ne_true hin, Bool.false_or]
      exact System.put_ordered h rfl h.capacity (hp.mono (Nat.sub_le _ _)) hc ..
  | take t pick =>
    rw [System.step]
    split
    · exact ⟨s, rfl, h⟩
    · exact System.take_ordered h rfl h.capacity hp (hc.mono (Nat.sub_le _ _)) ..
  | resumePut t pick =>
    rw [System.step, completed]
    cases hr : s.q.notFull.resume (·.1 == t) with
    | none => exact ⟨s, rfl, h⟩
    | some r =>
      obtain ⟨⟨t, x⟩, notFull⟩ := r
      exact System.put_ordered (q := { s.q with notFull }) h rfl h.capacity (hp.resume hr) hc ..
  | resumeTake t pick =>
    rw [System.step]
    cases hr : s.q.notEmpty.resume (· == t) with
    | none => exact ⟨s, rfl, h⟩
    | some r =>
      obtain ⟨t, notEmpty⟩ := r
      exact System.take_ordered (q := { s.q with notEmpty }) h rfl h.capacity hp (hc.resume hr) ..
  | wakePut t => exact ⟨_, rfl, h.capacity, ⟨h.covered.size, hp.wake _, hc⟩, h.fifo⟩
  | wakeTake t => exact ⟨_, rfl, h.capacity, ⟨h.covered.size, hp, hc.wake _⟩, h.fifo⟩

theorem init_ordered (n : Nat) : Ordered n (System.init n : System α) [] :=
  ⟨rfl, ⟨Nat.zero_le n, .empty rfl _, .empty rfl _⟩, rfl⟩

/-! ## The values of the producers that wait -/

/-- The values that are in the queue or still with their producer. -/
def held (q : BoundedBlockingQueue α) : List α := q.queue ++ q.notFull.members.map (·.2)

theorem put_held {t : Nat} {x : α} {pick : Nat → Bool} (h : q.put t x pick = .ok q') :
    q'.held.Perm (q.held ++ [x]) := by
  unfold put at h
  split at h
  · cases h
    have hw := (Condition.wait_perm q.notFull (t, x)).map Prod.snd
    have hall := hw.append_left q.queue
    exact (hall.trans List.perm_middle).trans (List.perm_append_singleton x q.held).symm
  · obtain ⟨_, -, h⟩ := bind_ok.mp h
    cases h
    unfold held
    rw [List.append_assoc, List.append_assoc]
    exact List.perm_append_comm.append_left q.queue

theorem take_held {t : Nat} {y : Option α} {pick : Nat × α → Bool} (h : q.take t pick = .ok (q', y)) :
    (y.toList ++ q'.held).Perm q.held := by
  unfold take at h
  split at h
  · cases h
    rfl
  · rename_i front rest hcons
    obtain ⟨_, -, h⟩ := bind_ok.mp h
    cases h
    unfold held
    rw [hcons, Option.toList_some, ← List.append_assoc]
    exact ((Condition.notify_perm _ pick).map Prod.snd).append_left (front :: rest)

def Kept (s : System α) (xs : List α) : Prop := (s.takes ++ s.q.held).Perm xs

theorem Kept.put {xs : List α} {s' : System α} {t : Nat} {x : α} {pick : Nat → Bool}
    (h : (s.takes ++ (q.held ++ [x])).Perm xs) (hs : s.put q t x pick = .ok s') : Kept s' xs := by
  obtain ⟨q', hput, hs⟩ := bind_ok.mp hs
  cases hs
  exact ((put_held hput).append_left s.takes).trans h

theorem Kept.take {xs : List α} {s' : System α} {t : Nat} {pick : Nat × α → Bool}
    (h : (s.takes ++ q.held).Perm xs) (hs : s.take q t pick = .ok s') : Kept s' xs := by
  obtain ⟨⟨q', y⟩, htake, hs⟩ := bind_ok.mp hs
  cases hs
  refine List.Perm.trans ?_ h
  show (s.takes ++ y.toList ++ q'.held).Perm _
  rw [List.append_assoc]
  exact (take_held htake).append_left s.takes

theorem Kept.step {xs : List α} {s' : System α} (h : Kept s xs) {l : Label α} (hs : s.step l = .ok s') :
    Kept s' (s.called xs l) := by
  cases l with
  | put t x pick =>
    rw [System.called]
    rcases ite_ok hs with ⟨hin, hs⟩ | ⟨hin, hs⟩
    · cases hs
      rwa [if_pos hin]
    · rw [if_neg hin]
      refine Kept.put ?_ hs
      rw [← List.append_assoc]
      exact h.append_right [x]
  | take t pick =>
    rcases ite_ok hs with ⟨-, hs⟩ | ⟨-, hs⟩
    · cases hs
      exact h
    · exact Kept.take h hs
  | resumePut t pick =>
    rw [System.step] at hs
    split at hs
    · rename_i hr
      -- the producer brings the value that it waited with
      refine Kept.put (List.Perm.trans (List.Perm.append_left s.takes ?_) h) hs
      have hback := ((Condition.resume_perm hr).map Prod.snd).append_left s.q.queue
      exact ((List.perm_append_singleton _ _).trans List.perm_middle.symm).trans hback.symm
    · cases hs
      exact h
  | resumeTake t pick =>
    rw [System.step] at hs
    split at hs
    · rename_i t notEmpty _
      exact Kept.take (q := { s.q with notEmpty }) h hs
    · cases hs
      exact h
  | wakePut t =>
    cases hs
    refine List.Perm.trans ?_ h
    exact (((Condition.wake_perm _ _).map Prod.snd).append_left s.q.queue).append_left s.takes
  | wakeTake t =>
    cases hs
    exact h

/-- The queue is bounded and in order, no value gets lost on the way into it, and nobody sleeps through its turn. -/
theorem queue_bounded_ordered_awake (capacity : Nat) (ls : List (Label α)) :
    ∃ s : System α, run System.step (System.init capacity) ls = .ok s ∧
      s.q.queue.length ≤ capacity ∧
      s.takes ++ s.q.queue = track System.step System.completed (System.init capacity) [] ls ∧
      (s.takes ++ s.q.queue ++ s.q.notFull.members.map (·.2)).Perm
        (track System.step System.called (System.init capacity) [] ls) ∧
      (s.q.notFull.waiting ≠ [] → capacity ≤ s.q.queue.length + s.q.notFull.notified.length) ∧
      (s.q.notEmpty.waiting ≠ [] → s.q.queue.length ≤ s.q.notEmpty.notified.length) ∧
      ¬ (s.q.queue.length < capacity ∧ s.q.notFull.waiting ≠ [] ∧ s.q.notFull.notified = []) ∧
      ¬ (s.q.queue ≠ [] ∧ s.q.notEmpty.waiting ≠ [] ∧ s.q.notEmpty.notified = []) := by
  obtain ⟨s, hs, hord⟩ : ∃ s : System α, run System.step (System.init capacity) ls = .ok s ∧
      Ordered capacity s (track System.step System.completed (System.init capacity) [] ls) :=
    run_tracks (R := Ordered capacity) (fun s xs l h => System.step_ordered h l) (init_ordered capacity)
  have hkept : Kept s (track System.step System.called (System.init capacity) [] ls) :=
    run_track_inv (fun _ _ _ _ h => h.step) .nil hs
  have hsize := hord.covered.size
  have hp := hord.covered.producers
  have hc := hord.covered.consumers
  rw [hord.capacity] at hsize hp
  refine ⟨s, hs, hsize, hord.fifo, ?_, fun hw => ?_, hc, ?_, ?_⟩
  · rw [List.append_assoc]
    exact hkept
  · have := hp hw
    omega
  · rintro ⟨hlt, hw, hnone⟩
    have := hp hw
    rw [hnone, List.length_nil] at this
    omega
  · rintro ⟨hne, hw, hnone⟩
    have := hc hw
    rw [hnone] at this
    exact hne (List.length_eq_zero_iff.1 (Nat.le_zero.1 this))

/-- With one place, producer 2 waits until consumer 3 has taken the value of producer 1, and then puts its own. -/
def blockedProducer : List (Label Nat) :=
  [.put 1 10 (fun _ => true), .put 2 20 (fun _ => true), .take 3 (fun _ => true), .resumePut 2 (fun _ => true)]

theorem queue_bounded_ordered_awake_blocked :
    ∃ s : System Nat, run System.step (System.init 1) blockedProducer = .ok s ∧ s.takes ++ s.q.queue = [10, 20] ∧
      s.takes = [10] ∧ ∃ u : System Nat, run System.step (System.init 1) (blockedProducer.take 2) = .ok u ∧
        u.takes ++ u.q.queue = [10] ∧ (u.takes ++ u.q.queue ++ u.q.notFull.members.map (·.2)).Perm [10, 20] := by
  obtain ⟨s, hs, -, hf, -⟩ := queue_bounded_ordered_awake 1 blockedProducer
  obtain ⟨u, hu, -, hfu, hperm, -⟩ := queue_bounded_ordered_awake 1 (blockedProducer.take 2)
  have ht : (run System.step (System.init 1) blockedProducer).map (·.takes) = .ok [10] := by decide
  rw [hs] at ht
  refine ⟨s, hs, hf.trans (by decide), Except.ok.inj ht, u, hu, hfu.trans (by decide), ?_⟩
  exact hperm.trans (List.Perm.of_eq (by decide))

end Zhengqi.BoundedBlockingQueue
