import Zhengqi.BlockingQueue
import Zhengqi.Lib.Run

/-!
# Values and wake-ups of BlockingQueue

A `put` wakes up one waiter for each value, and a thread that finds nothing waits again, so there is a thread on
its way for every value as long as others wait.
-/

namespace Zhengqi.BlockingQueue

open Monitor Run

variable {α : Type} {q q' : BlockingQueue α} {xs : List α}

/-! ## Any schedule -/

/-- The value that the call brings. -/
def Label.value : Label α → List α
  | .put x _ => [x]
  | _ => []

structure Served (q : BlockingQueue α) (xs : List α) : Prop where
  fifo : q.takes ++ q.queue = xs
  covered : q.notEmpty.Covers q.queue.length

theorem take_served (hf : q.takes ++ q.queue = xs) (hc : q.notEmpty.Covers (q.queue.length - 1)) (t : Nat) :
    ∃ q', q.take t = .ok q' ∧ q'.Served xs ∧ (q'.notEmpty = q.notEmpty ∨ q'.notEmpty = q.notEmpty.wait t) := by
  unfold take
  split
  · rename_i hnil
    refine ⟨_, rfl, ⟨hf, ?_⟩, .inr rfl⟩
    rw [hnil]
    exact Condition.Covers.zero _
  · rename_i front rest hcons
    rw [check_of (by rw [hcons]; exact List.cons_ne_nil _ _), ok_bind]
    refine ⟨_, rfl, ⟨?_, ?_⟩, .inl rfl⟩
    · rw [← hf, hcons]
      simp
    · rw [hcons] at hc
      exact hc

theorem resume_served (h : q.Served xs) {t u : Nat} {c : Condition Nat}
    (hr : q.notEmpty.resume (· == t) = some (u, c)) :
    ∃ q', { q with notEmpty := c }.take u = .ok q' ∧ q'.Served xs ∧ (q'.notEmpty = c ∨ q'.notEmpty = c.wait u) :=
  take_served (q := { q with notEmpty := c }) h.fifo (h.covered.resume hr) u

theorem step_served (h : q.Served xs) (l : Label α) : ∃ q', q.step l = .ok q' ∧ q'.Served (xs ++ l.value) := by
  cases l with
  | put x pick =>
    refine ⟨_, rfl, ?_, ?_⟩
    · simp only [put]
      rw [← List.append_assoc, h.fifo]
      rfl
    · simp only [put, List.length_append, List.length_singleton]
      exact h.covered.notify pick
  | take t =>
    simp only [step, Label.value, List.append_nil]
    split
    · exact ⟨q, rfl, h⟩
    · obtain ⟨q', hq', hs, -⟩ := take_served h.fifo (h.covered.mono (Nat.sub_le _ 1)) t
      exact ⟨q', hq', hs⟩
  | resume t =>
    simp only [step, Label.value, List.append_nil]
    split
    · rename_i hr
      obtain ⟨q', hq', hs, -⟩ := resume_served h hr
      exact ⟨q', hq', hs⟩
    · exact ⟨q, rfl, h⟩
  | wake t =>
    refine ⟨_, rfl, ?_, h.covered.wake _⟩
    simp only [Label.value, List.append_nil]
    exact h.fifo
  | drain =>
    refine ⟨_, rfl, ?_, Condition.Covers.zero _⟩
    simp only [drain, Label.value, List.append_nil]
    exact h.fifo

theorem run_served (ls : List (Label α)) :
    ∃ q, run step ({} : BlockingQueue α) ls = .ok q ∧ q.Served (ls.flatMap Label.value) := by
  have hinit : Served ({} : BlockingQueue α) [] := ⟨rfl, .empty rfl _⟩
  have hall : Meets step (fun _ _ => True) ({} : BlockingQueue α) ls := Meets.of_forall fun _ _ _ => trivial
  rw [List.flatMap_eq_foldl]
  exact Meets.simulates (R := Served) (fun q xs l h _ => step_served h l) hall hinit

/-- A value that is there is on its way to a thread, or no thread waits. -/
theorem Served.idle (h : q.Served xs) (hn : q.notEmpty.notified = []) : q.queue = [] ∨ q.notEmpty.waiting = [] := by
  by_cases hw : q.notEmpty.waiting = []
  · exact .inr hw
  · have hlen := h.covered hw
    rw [hn, List.length_nil] at hlen
    exact .inl (List.eq_nil_of_length_eq_zero (Nat.le_zero.mp hlen))

/-! ## The threads that are on their way -/

def Label.isResume : Label α → Bool
  | .resume _ => true
  | _ => false

theorem resume_progress (h : q.Served xs) (hz : q.notEmpty.returning ≠ 0) :
    ∃ l : Label α, l.isResume = true ∧ ∃ q', q.step l = .ok q' ∧ q'.Served xs ∧
      q'.notEmpty.returning < q.notEmpty.returning := by
  obtain ⟨t, u, c, hr⟩ := Condition.exists_resume hz
  obtain ⟨q', hq', hs, hc⟩ := resume_served h hr
  refine ⟨.resume t, rfl, q', by simp only [step, hr]; exact hq', hs, ?_⟩
  have hlen := Condition.returning_resume hr
  rcases hc with hc | hc
  · rw [hc]
    omega
  · rw [hc, Condition.returning_wait]
    omega

/-- Under every schedule the values come out in the order of the calls of `put`, each once, by `take` or by `drain`.
And no wake-up is lost: as long as a thread waits un-notified there is a notified thread on its way for every value,
so once those are back the queue is empty or no thread waits. They can all come back, without any further wake-up. -/
theorem blocking_queue_serves (ls : List (Label α)) :
    ∃ q, run step ({} : BlockingQueue α) ls = .ok q ∧ q.takes ++ q.queue = ls.flatMap Label.value ∧
      (q.notEmpty.waiting ≠ [] → q.queue.length ≤ q.notEmpty.notified.length) ∧
      (q.notEmpty.notified = [] → q.queue = [] ∨ q.notEmpty.waiting = []) ∧
      ∃ ms q', (∀ l ∈ ms, l.isResume = true) ∧ run step q ms = .ok q' ∧
        q'.takes ++ q'.queue = ls.flatMap Label.value ∧ (q'.queue = [] ∨ q'.notEmpty.members = []) := by
  obtain ⟨q, hq, h⟩ := run_served ls
  refine ⟨q, hq, h.fifo, h.covered, h.idle, ?_⟩
  obtain ⟨ms, hms, -, q', hr, hs, hz⟩ :=
    run_reaches (I := (Served · (ls.flatMap Label.value))) (fun r hr hz => resume_progress hr hz) h
  refine ⟨ms, q', hms, hr, hs.fifo, ?_⟩
  unfold Condition.returning at hz
  have hnot : q'.notEmpty.notified = [] := List.eq_nil_of_length_eq_zero (by omega)
  have hwok : q'.notEmpty.woken = [] := List.eq_nil_of_length_eq_zero (by omega)
  exact (hs.idle hnot).imp_right fun hw => by simp [Condition.members, hnot, hwok, hw]

/-- Two consumers wait, two values are put, and the first consumer takes its value while the other is on its way. -/
def waitingConsumers : List (Label Nat) :=
  [.take 1, .take 2, .put 10 (fun _ => false), .put 20 (fun _ => false), .resume 1]

theorem blocking_queue_serves_waiting :
    ∃ q, run step ({} : BlockingQueue Nat) waitingConsumers = .ok q ∧ q.takes ++ q.queue = [10, 20] ∧ q.takes = [10] ∧
      q.notEmpty.notified = [2] ∧
      ∃ ms q', (∀ l ∈ ms, l.isResume = true) ∧ run step q ms = .ok q' ∧ q'.takes ++ q'.queue = [10, 20] ∧
        (q'.queue = [] ∨ q'.notEmpty.members = []) := by
  obtain ⟨q, hq, hf, -, -, hback⟩ := blocking_queue_serves waitingConsumers
  have hend : (run step ({} : BlockingQueue Nat) waitingConsumers).map (fun q => (q.takes, q.notEmpty.notified)) =
      .ok ([10], [2]) := by
    decide
  rw [hq] at hend
  obtain ⟨htakes, hnotified⟩ := Prod.mk.inj (Except.ok.inj hend)
  exact ⟨q, hq, hf, htakes, hnotified, hback⟩

end Zhengqi.BlockingQueue
