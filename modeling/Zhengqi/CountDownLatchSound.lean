import Zhengqi.CountDownLatch
import Mathlib.Algebra.BigOperators.Group.Finset.Piecewise
import Mathlib.Algebra.Order.BigOperators.Group.Finset

/-!
# Latches under any schedule

`owner` and `holder` follow the threads that are between the statements that set and clear them, which gives
exclusion. Once a `wait` has seen that the count is down, every `countDown` is over: the last one has left the
mutex, or the `wait` could not have taken it.
-/

namespace Zhengqi

open Run

namespace LatchPc

/-- In `countDown`, before `--count_`. -/
def pending : LatchPc → Bool
  | .lock c | .assign c => c = .countDown
  | .decrement => true
  | _ => false

def inCountDown : LatchPc → Bool
  | .lock c | .assign c | .unassign c | .unlock c => c = .countDown
  | .decrement | .notifyAll => true
  | _ => false

/-- In `wait`, after the loop. -/
def passed : LatchPc → Bool
  | .unassign c | .unlock c => c = .wait
  | _ => false

/-- In `condition_.wait()`, before it blocks. -/
def waits : LatchPc → Bool
  | .unassignGuard | .condWait => true
  | _ => false

theorem holds_of_inside {p : LatchPc} (h : p.inside = true) : p.holds = true := by
  cases p <;> first | rfl | cases h

theorem holds_of_waits {p : LatchPc} (h : p.waits = true) : p.holds = true := by
  cases p <;> first | rfl | cases h

theorem holds_or_pending {p : LatchPc} (h : p.inCountDown = true) : p.holds = true ∨ p.pending = true := by
  cases p <;> first | exact .inl rfl | exact .inr h

theorem eq_out {p : LatchPc} (hw : p.inWait = false) (hc : p.inCountDown = false) : p = .out := by
  cases p with
  | out => rfl
  | lock c =>
    cases c with
    | wait => cases hw
    | countDown => cases hc
  | assign c =>
    cases c with
    | wait => cases hw
    | countDown => cases hc
  | unassign c =>
    cases c with
    | wait => cases hw
    | countDown => cases hc
  | unlock c =>
    cases c with
    | wait => cases hw
    | countDown => cases hc
  | decrement => cases hc
  | notifyAll => cases hc
  | _ => cases hw

end LatchPc

namespace CountDownLatch

variable {l l' : CountDownLatch} {t u : Nat} {threads : Finset Nat} {m : MutexLock} {pc : Nat → LatchPc} {q : LatchPc}

/-! ## Exclusion -/

structure Exclusive (m : MutexLock) (pc : Nat → LatchPc) : Prop where
  owner : ∀ t, m.owner = some t ↔ (pc t).holds = true
  holder : ∀ t, t ≠ 0 → (m.holder = t ↔ (pc t).inside = true)

namespace Exclusive

theorem eq_of_holds (h : Exclusive m pc) (ht : (pc t).holds = true) (hu : (pc u).holds = true) : u = t := by
  have hs := (h.owner u).mpr hu
  rw [(h.owner t).mpr ht] at hs
  exact (Option.some.inj hs).symm

theorem inside_false (h : Exclusive m pc) (ht : (pc t).holds = true) (hu : u ≠ t) : (pc u).inside = false := by
  rw [Bool.eq_false_iff]
  intro hi
  exact hu (h.eq_of_holds ht (LatchPc.holds_of_inside hi))

theorem none_holds (h : Exclusive m pc) (hn : m.owner = none) (t : Nat) : (pc t).holds = false := by
  rw [Bool.eq_false_iff]
  intro ht
  rw [(h.owner t).mpr ht] at hn
  cases hn

/-- One thread takes a step, and the others see no difference. -/
theorem of_update {m' : MutexLock} (ho : m'.owner = some t ↔ q.holds = true)
    (hh : t ≠ 0 → (m'.holder = t ↔ q.inside = true)) (ho' : ∀ u ≠ t, (m'.owner = some u ↔ (pc u).holds = true))
    (hh' : ∀ u ≠ t, u ≠ 0 → (m'.holder = u ↔ (pc u).inside = true)) : Exclusive m' (Function.update pc t q) := by
  constructor
  · intro u
    by_cases hu : u = t
    · rw [hu, Function.update_self]
      exact ho
    · rw [Function.update_of_ne hu]
      exact ho' u hu
  · intro u h0
    by_cases hu : u = t
    · rw [hu, Function.update_self]
      exact hh (hu ▸ h0)
    · rw [Function.update_of_ne hu]
      exact hh' u hu h0

theorem stay (h : Exclusive m pc) (ho : q.holds = (pc t).holds) (hi : q.inside = (pc t).inside) :
    Exclusive m (Function.update pc t q) := by
  apply of_update
  · rw [ho]
    exact h.owner t
  · rw [hi]
    exact h.holder t
  · exact fun u _ => h.owner u
  · exact fun u _ => h.holder u

theorem acquire (h : Exclusive m pc) (hn : m.owner = none) (ho : q.holds = true) (hi : q.inside = false) :
    Exclusive { m with owner := some t } (Function.update pc t q) := by
  have hout : ∀ u, (pc u).inside = false := fun u => Bool.eq_false_iff.mpr fun hu => by
    have hh := LatchPc.holds_of_inside hu
    rw [h.none_holds hn u] at hh
    cases hh
  apply of_update
  · simp [ho]
  · intro h0
    rw [hi, ← hout t]
    exact h.holder t h0
  · intro u hu
    simp [h.none_holds hn u, Ne.symm hu]
  · exact fun u _ => h.holder u

theorem release (h : Exclusive m pc) (ht : (pc t).holds = true) (ho : q.holds = false)
    (hi : q.inside = (pc t).inside) : Exclusive { m with owner := none } (Function.update pc t q) := by
  apply of_update
  · simp [ho]
  · rw [hi]
    exact h.holder t
  · intro u hu
    simp only [reduceCtorEq, false_iff]
    exact fun hh => hu (h.eq_of_holds ht hh)
  · exact fun u _ => h.holder u

theorem assign (h : Exclusive m pc) (ht : (pc t).holds = true) (ho : q.holds = true) (hi : q.inside = true) :
    Exclusive (m.assignHolder t) (Function.update pc t q) := by
  apply of_update
  · exact iff_of_true ((h.owner t).mpr ht) ho
  · simp [MutexLock.assignHolder, hi]
  · exact fun u _ => h.owner u
  · intro u hu _
    simp [MutexLock.assignHolder, h.inside_false ht hu, Ne.symm hu]

theorem unassign (h : Exclusive m pc) (ht : (pc t).holds = true) (ho : q.holds = true) (hi : q.inside = false) :
    Exclusive m.unassignHolder (Function.update pc t q) := by
  apply of_update
  · exact iff_of_true ((h.owner t).mpr ht) ho
  · intro h0
    simp [MutexLock.unassignHolder, hi, Ne.symm h0]
  · exact fun u _ => h.owner u
  · intro u hu h0
    simp [MutexLock.unassignHolder, h.inside_false ht hu, Ne.symm h0]

theorem holder_eq_zero (h : Exclusive m pc) (ho : ∀ t, pc t = .out) : m.holder = 0 := by
  by_contra h0
  have hi := (h.holder m.holder h0).mp rfl
  rw [ho] at hi
  cases hi

end Exclusive

/-! ## What the callers rely on -/

structure Sound (threads : Finset Nat) (l : CountDownLatch) : Prop where
  mutex : Exclusive l.mutex l.pc
  away : ∀ t, t ∉ threads → l.pc t = .out
  count : l.count = (∑ t ∈ threads, l.left t : Nat)
  pending : ∀ t, (l.pc t).pending = true → 0 < l.left t
  waits : ∀ t, (l.pc t).waits = true → 0 < l.count
  -- No wake-up is lost
  notified : ∀ t, l.pc t = .blocked → l.count = 0 → ∃ u, l.pc u = .notifyAll
  passed : (∃ t, (l.pc t).passed = true) ∨ l.returned ≠ [] → l.count = 0 ∧ ∀ t, (l.pc t).inCountDown = false
  dead : l.alive = false → ∀ t, l.pc t = .out

namespace Sound

theorem mem (h : Sound threads l) (ht : l.pc t ≠ .out) : t ∈ threads := by
  by_contra hn
  exact ht (h.away t hn)

theorem left_le (h : Sound threads l) (ht : t ∈ threads) : (l.left t : Int) ≤ l.count := by
  rw [h.count, Int.ofNat_le]
  exact Finset.single_le_sum (fun _ _ => Nat.zero_le _) ht

theorem left_eq_zero (h : Sound threads l) (hc : l.count ≤ 0) (ht : t ∈ threads) : l.left t = 0 := by
  have hle := h.left_le ht
  omega

theorem count_nonneg (h : Sound threads l) : 0 ≤ l.count := by
  rw [h.count]
  exact Int.natCast_nonneg _

theorem pending_count (h : Sound threads l) (ht : (l.pc t).pending = true) : 0 < l.count := by
  have hm : t ∈ threads := h.mem fun ho => by rw [ho] at ht; cases ht
  have hle := h.left_le hm
  have hpos := h.pending t ht
  omega

/-- When the count is down, a thread that has the mutex is the only one in `countDown`. -/
theorem countDown_over (h : Sound threads l) (hc : l.count ≤ 0) (ht : (l.pc t).holds = true) (hu : u ≠ t) :
    (l.pc u).inCountDown = false := by
  rw [Bool.eq_false_iff]
  intro hi
  rcases LatchPc.holds_or_pending hi with hh | hp
  · exact hu (h.mutex.eq_of_holds ht hh)
  · have hpos := h.pending_count hp
    omega

theorem start {count : Int} {calls : Nat → Nat} (hc : count = (∑ t ∈ threads, calls t : Nat)) :
    Sound threads (start count calls) := by
  refine ⟨⟨fun t => ?_, fun t h0 => ?_⟩, fun _ _ => rfl, ?_, ?_, ?_, ?_, ?_, ?_⟩
  · simp [CountDownLatch.start, LatchPc.holds]
  · simp [CountDownLatch.start, LatchPc.inside, Ne.symm h0]
  · exact hc
  · intro t ht; cases ht
  · intro t ht; cases ht
  · intro t ht; cases ht
  · rintro (⟨t, ht⟩ | hr)
    · cases ht
    · exact absurd rfl hr
  · intro ha; cases ha

/-- A thread of the latch goes from one statement to another that brings nothing new for the others. -/
theorem goto (h : Sound threads l) (hm : Exclusive m (Function.update l.pc t q)) (ht : t ∈ threads)
    (ha : l.alive = true)
    (hpend : q.pending = true → 0 < l.left t) (hwait : q.waits = true ∨ q = .blocked → 0 < l.count)
    (hnot : l.pc t = .notifyAll → ∀ u, l.pc u ≠ .blocked)
    (hpass : q.passed = true → l.count = 0 ∧ ∀ u, (l.pc u).inCountDown = false)
    (hcd : q.inCountDown = true → (l.pc t).inCountDown = true ∨ 0 < l.left t) :
    Sound threads { l.goto t q with mutex := m } where
  mutex := hm
  away := by
    intro u hu
    have hne : u ≠ t := fun he => hu (he ▸ ht)
    exact (Function.update_of_ne hne ..).trans (h.away u hu)
  count := h.count
  pending := by
    intro u hu
    simp only [CountDownLatch.goto, Function.update_apply] at hu ⊢
    split at hu
    · rename_i hut
      rw [hut]
      exact hpend hu
    · exact h.pending u hu
  waits := by
    intro u hu
    simp only [CountDownLatch.goto, Function.update_apply] at hu
    split at hu
    · exact hwait (.inl hu)
    · exact h.waits u hu
  notified := by
    intro u hu hc
    simp only [CountDownLatch.goto, Function.update_apply] at hu hc
    split at hu
    · have hpos := hwait (.inr hu)
      omega
    · obtain ⟨v, hv⟩ := h.notified u hu hc
      have hne : v ≠ t := fun he => hnot (he ▸ hv) u hu
      exact ⟨v, (Function.update_of_ne hne ..).trans hv⟩
  passed := by
    intro hp
    obtain ⟨hc, hall⟩ : l.count = 0 ∧ ∀ u, (l.pc u).inCountDown = false := by
      rcases hp with ⟨u, hu⟩ | hr
      · simp only [CountDownLatch.goto, Function.update_apply] at hu
        split at hu
        · exact hpass hu
        · exact h.passed (.inl ⟨u, hu⟩)
      · exact h.passed (.inr hr)
    refine ⟨hc, fun u => ?_⟩
    simp only [CountDownLatch.goto, Function.update_apply]
    split
    · rw [Bool.eq_false_iff]
      intro hq
      rcases hcd hq with hq | hq
      · rw [hall t] at hq; cases hq
      · have hle := h.left_le ht
        omega
    · exact hall u
  dead := by
    intro hd
    rw [show l.alive = false from hd] at ha
    cases ha

/-- `while (count_ > 0)` -/
theorem test (h : Sound threads l) (hp : l.pc t = .test) (ht : t ∈ threads) (ha : l.alive = true) :
    Sound threads (if 0 < l.count then l.goto t .unassignGuard else l.goto t (.unassign .wait)) := by
  split
  · rename_i hc
    exact h.goto (h.mutex.stay (by rw [hp]; rfl) (by rw [hp]; rfl)) ht ha (nomatch ·) (fun _ => hc) (by rw [hp]; nofun)
      (nomatch ·) (nomatch ·)
  · rename_i hc
    refine h.goto (h.mutex.stay (by rw [hp]; rfl) (by rw [hp]; rfl)) ht ha (nomatch ·) (nomatch ·)
      (by rw [hp]; nofun) ?_
      (nomatch ·)
    intro _
    have hnn := h.count_nonneg
    refine ⟨by omega, fun u => ?_⟩
    by_cases hu : u = t
    · rw [hu, hp]; rfl
    · exact h.countDown_over (by omega) (by rw [hp]; rfl) hu

/-- `--count_` and the test after it. -/
theorem decrement (h : Sound threads l) (hp : l.pc t = .decrement) (ht : t ∈ threads) (ha : l.alive = true) :
    Sound threads { l.goto t (if l.count - 1 = 0 then .notifyAll else .unassign .countDown) with
      count := l.count - 1, left := Function.update l.left t (l.left t - 1) } := by
  have hholds : (l.pc t).holds = true := by rw [hp]; rfl
  have hpos : 0 < l.left t := h.pending t (by rw [hp]; rfl)
  generalize hq : (if l.count - 1 = 0 then LatchPc.notifyAll else .unassign .countDown) = q
  have hcases : q = .notifyAll ∧ l.count - 1 = 0 ∨ q = .unassign .countDown ∧ l.count - 1 ≠ 0 := by
    split at hq
    · exact .inl ⟨hq.symm, ‹_›⟩
    · exact .inr ⟨hq.symm, ‹_›⟩
  have hother : ∀ u, u ≠ t → (l.goto t q).pc u = l.pc u := fun u hu => Function.update_of_ne hu ..
  have hself : (l.goto t q).pc t = q := Function.update_self ..
  have hnot : ¬ ((∃ u, (l.pc u).passed = true) ∨ l.returned ≠ []) := by
    intro hpass
    have hcd := (h.passed hpass).2 t
    rw [hp] at hcd
    cases hcd
  refine ⟨?_, ?_, ?_, ?_, ?_, ?_, ?_, ?_⟩
  · apply h.mutex.stay
    · rcases hcases with ⟨rfl, -⟩ | ⟨rfl, -⟩ <;> rw [hp] <;> rfl
    · rcases hcases with ⟨rfl, -⟩ | ⟨rfl, -⟩ <;> rw [hp] <;> rfl
  · intro u hu
    rw [hother u fun he => hu (he ▸ ht)]
    exact h.away u hu
  · have hsum := Finset.sum_update_of_mem ht l.left (l.left t - 1)
    have hsplit := Finset.sum_eq_add_sum_sdiff_singleton_of_mem ht l.left
    have hcount := h.count
    simp only [hsum]
    omega
  · intro u hu
    by_cases hut : u = t
    · rw [hut, hself] at hu
      rcases hcases with ⟨rfl, -⟩ | ⟨rfl, -⟩ <;> cases hu
    · rw [hother u hut] at hu
      simp only [Function.update_of_ne hut]
      exact h.pending u hu
  · intro u hu
    by_cases hut : u = t
    · rw [hut, hself] at hu
      rcases hcases with ⟨rfl, -⟩ | ⟨rfl, -⟩ <;> cases hu
    · -- Such a thread would have the mutex as well
      rw [hother u hut] at hu
      exact absurd (h.mutex.eq_of_holds hholds (LatchPc.holds_of_waits hu)) hut
  · intro u _ hc
    rcases hcases with ⟨rfl, -⟩ | ⟨-, hne⟩
    · exact ⟨t, hself⟩
    · exact absurd hc hne
  · rintro (⟨u, hu⟩ | hr)
    · by_cases hut : u = t
      · rw [hut, hself] at hu
        rcases hcases with ⟨rfl, -⟩ | ⟨rfl, -⟩ <;> cases hu
      · rw [hother u hut] at hu
        exact absurd (.inl ⟨u, hu⟩) hnot
    · exact absurd (.inr hr) hnot
  · intro hd
    rw [show l.alive = false from hd] at ha
    cases ha

theorem apply_wakened (P : LatchPc → Bool) (hP : P .wakened = P .blocked) (p : LatchPc) :
    P (if p = .blocked then .wakened else p) = P p := by
  split
  · rename_i hp
    rw [hp, hP]
  · rfl

/-- `condition_.notifyAll()` -/
theorem notifyAll (h : Sound threads l) (ha : l.alive = true) :
    Sound threads { l with pc := fun u => if l.pc u = .blocked then .wakened else l.pc u } := by
  constructor
  · constructor
    · intro u
      rw [apply_wakened LatchPc.holds rfl]
      exact h.mutex.owner u
    · intro u
      rw [apply_wakened LatchPc.inside rfl]
      exact h.mutex.holder u
  · intro u hu
    simp [h.away u hu]
  · exact h.count
  · intro u
    rw [apply_wakened LatchPc.pending rfl]
    exact h.pending u
  · intro u
    rw [apply_wakened LatchPc.waits rfl]
    exact h.waits u
  · intro u hu
    simp only at hu
    split at hu
    · cases hu
    · exact absurd hu ‹_›
  · simp only [apply_wakened LatchPc.passed rfl, apply_wakened LatchPc.inCountDown rfl]
    exact h.passed
  · intro hd
    rw [show l.alive = false from hd] at ha
    cases ha

theorem returns (h : Sound threads l) (hc : l.count = 0) (hall : ∀ u, (l.pc u).inCountDown = false)
    (ha : l.alive = true) (r : List Nat) : Sound threads { l with returned := r } where
  mutex := h.mutex
  away := h.away
  count := h.count
  pending := h.pending
  waits := h.waits
  notified := h.notified
  passed := fun _ => ⟨hc, hall⟩
  dead := by
    intro hd
    rw [show l.alive = false from hd] at ha
    cases ha

theorem next (h : Sound threads l) (ht : t ∈ threads) (ha : l.alive = true) : Sound threads (l.next t) := by
  cases hp : l.pc t with
  | out => simpa only [CountDownLatch.next, hp] using h
  | blocked => simpa only [CountDownLatch.next, hp] using h
  | lock c =>
    simp only [CountDownLatch.next, hp]
    split
    · rename_i hn
      have hold : (LatchPc.lock c).inCountDown = (LatchPc.assign c).inCountDown := rfl
      refine h.goto (h.mutex.acquire hn rfl rfl) ht ha ?_ (nomatch ·) (by rw [hp]; nofun) (nomatch ·) ?_
      · intro hq
        exact h.pending t (by rw [hp]; exact hq)
      · intro hq
        rw [hp]
        exact .inl hq
    · exact h
  | assign c =>
    simp only [CountDownLatch.next, hp]
    cases c with
    | wait =>
      exact h.goto (h.mutex.assign (by rw [hp]; rfl) rfl rfl) ht ha (nomatch ·) (nomatch ·) (by rw [hp]; nofun)
        (nomatch ·) (nomatch ·)
    | countDown =>
      exact h.goto (h.mutex.assign (by rw [hp]; rfl) rfl rfl) ht ha (fun _ => h.pending t (by rw [hp]; rfl)) (nomatch ·)
        (by rw [hp]; nofun) (nomatch ·) (fun _ => .inl (by rw [hp]; rfl))
  | test =>
    simp only [CountDownLatch.next, hp]
    exact h.test hp ht ha
  | unassignGuard =>
    simp only [CountDownLatch.next, hp]
    exact h.goto (h.mutex.unassign (by rw [hp]; rfl) rfl rfl) ht ha (nomatch ·) (fun _ => h.waits t (by rw [hp]; rfl))
      (by rw [hp]; nofun) (nomatch ·) (nomatch ·)
  | condWait =>
    simp only [CountDownLatch.next, hp]
    exact h.goto (h.mutex.release (by rw [hp]; rfl) rfl (by rw [hp]; rfl)) ht ha (nomatch ·)
      (fun _ => h.waits t (by rw [hp]; rfl)) (by rw [hp]; nofun) (nomatch ·) (nomatch ·)
  | wakened =>
    simp only [CountDownLatch.next, hp]
    split
    · rename_i hn
      exact h.goto (h.mutex.acquire hn rfl rfl) ht ha (nomatch ·) (nomatch ·) (by rw [hp]; nofun)
        (nomatch ·) (nomatch ·)
    · exact h
  | assignGuard =>
    simp only [CountDownLatch.next, hp]
    exact h.goto (h.mutex.assign (by rw [hp]; rfl) rfl rfl) ht ha (nomatch ·) (nomatch ·) (by rw [hp]; nofun)
      (nomatch ·) (nomatch ·)
  | decrement =>
    simp only [CountDownLatch.next, hp]
    exact h.decrement hp ht ha
  | notifyAll =>
    simp only [CountDownLatch.next, hp]
    have hw := h.notifyAll ha
    refine hw.goto (hw.mutex.stay ?_ ?_) ht ha (nomatch ·) (nomatch ·) ?_ (nomatch ·) (fun _ => .inl ?_)
    · simp only [hp]; rfl
    · simp only [hp]; rfl
    · intro _ u
      simp only
      split <;> simp_all
    · simp only [hp]; rfl
  | unassign c =>
    simp only [CountDownLatch.next, hp]
    refine h.goto (h.mutex.unassign (by rw [hp]; rfl) rfl rfl) ht ha (nomatch ·) (nomatch ·) (by rw [hp]; nofun) ?_ ?_
    · intro hq
      exact h.passed (.inl ⟨t, by rw [hp]; exact hq⟩)
    · intro hq
      rw [hp]
      exact .inl hq
  | unlock c =>
    simp only [CountDownLatch.next, hp]
    have hg := h.goto (h.mutex.release (q := .out) (by rw [hp]; rfl) rfl (by rw [hp]; rfl)) ht ha
      (nomatch ·) (nomatch ·)
      (by rw [hp]; nofun) (nomatch ·) (nomatch ·)
    cases c with
    | countDown => exact hg
    | wait =>
      obtain ⟨hc, hall⟩ := h.passed (.inl ⟨t, by rw [hp]; rfl⟩)
      refine hg.returns hc (fun u => ?_) ha _
      simp only [CountDownLatch.goto, Function.update_apply]
      split
      · rfl
      · exact hall u

theorem call (h : Sound threads l) {c : LatchCall} (hp : l.pc t = .out) (ht : t ∈ threads) (ha : l.alive = true)
    (hc : c = .wait ∨ 0 < l.left t) : Sound threads (l.goto t (.lock c)) := by
  have hleft : (decide (c = .countDown)) = true → 0 < l.left t := by
    intro hcd
    rcases hc with rfl | hc
    · cases hcd
    · exact hc
  refine h.goto (h.mutex.stay ?_ ?_) ht ha hleft (nomatch ·) (by rw [hp]; nofun) (nomatch ·) fun hq => .inr (hleft hq)
  · rw [hp]; rfl
  · rw [hp]; rfl

theorem wake (h : Sound threads l) (hp : l.pc t = .blocked) (ht : t ∈ threads) (ha : l.alive = true) :
    Sound threads (l.goto t .wakened) := by
  refine h.goto (h.mutex.stay ?_ ?_) ht ha (nomatch ·) (nomatch ·) (by rw [hp]; nofun) (nomatch ·) (nomatch ·)
  · rw [hp]; rfl
  · rw [hp]; rfl

theorem out (h : Sound threads l) (hr : l.returned ≠ []) (hw : ∀ t ∈ threads, (l.pc t).inWait = false) (t : Nat) :
    l.pc t = .out := by
  by_cases ht : t ∈ threads
  · exact LatchPc.eq_out (hw t ht) ((h.passed (.inr hr)).2 t)
  · exact h.away t ht

theorem destroy (h : Sound threads l) (ho : ∀ t, l.pc t = .out) : Sound threads { l with alive := false } where
  mutex := h.mutex
  away := h.away
  count := h.count
  pending := h.pending
  waits := h.waits
  notified := h.notified
  passed := h.passed
  dead := fun _ => ho

theorem step (h : Sound threads l) (lb : Label) : ∃ l', l.step threads lb = .ok l' ∧ Sound threads l' := by
  unfold CountDownLatch.step
  split
  · rename_i hp
    have halive : ∀ t, l.pc t ≠ .out → l.alive = true := by
      intro t ht
      rw [← Bool.not_eq_false]
      exact fun ha => ht (h.dead ha t)
    cases lb with
    | call t c =>
      simp only [possible, Bool.and_eq_true, Bool.or_eq_true, decide_eq_true_eq] at hp
      obtain ⟨⟨⟨ht, hp⟩, ha⟩, hc⟩ := hp
      exact ⟨_, rfl, h.call hp ht ha hc⟩
    | next t =>
      simp only [possible, Bool.and_eq_true, decide_eq_true_eq] at hp
      have ha := halive t hp.2
      exact ⟨_, if_pos ha, h.next hp.1 ha⟩
    | wake t =>
      simp only [possible, Bool.and_eq_true, decide_eq_true_eq] at hp
      have ha := halive t (by rw [hp.2]; nofun)
      exact ⟨_, if_pos ha, h.wake hp.2 hp.1 ha⟩
    | destroy =>
      simp only [possible, Bool.and_eq_true, decide_eq_true_eq] at hp
      obtain ⟨⟨-, hr⟩, hw⟩ := hp
      exact ⟨_, if_pos (h.mutex.holder_eq_zero (h.out hr hw)), h.destroy (h.out hr hw)⟩
  · exact ⟨l, rfl, h⟩

end Sound

/-- A latch that the threads count down as often as its count says. -/
theorem latch_outlives_its_callers (threads : Finset Nat) (h0 : 0 ∉ threads) (count : Int) (calls : Nat → Nat)
    (hc : count = (∑ t ∈ threads, calls t : Nat)) (ls : List Label) :
    ∃ l, run (step threads) (start count calls) ls = .ok l ∧
      (∀ t ∈ threads, l.mutex.isLockedByThisThread t = (l.pc t).inside) ∧
      (∀ t ∈ threads, ∀ u ∈ threads, (l.pc t).holds = true → (l.pc u).holds = true → t = u) ∧
      (l.returned ≠ [] → l.count = 0 ∧ ∀ t ∈ threads, l.left t = 0 ∧ (l.pc t).inCountDown = false) := by
  obtain ⟨l, hr, h⟩ := run_total (fun _ lb h => Sound.step h lb) (Sound.start hc)
  refine ⟨l, hr, fun t ht => ?_, fun t _ u _ ht hu => h.mutex.eq_of_holds hu ht, fun hret => ?_⟩
  · have hne : t ≠ 0 := fun he => h0 (he ▸ ht)
    rw [Bool.eq_iff_iff, ← h.mutex.holder t hne, MutexLock.isLockedByThisThread, decide_eq_true_eq]
  · obtain ⟨hc, hcd⟩ := h.passed (.inr hret)
    exact ⟨hc, fun t ht => ⟨h.left_eq_zero (by omega) ht, hcd t⟩⟩

theorem latch_outlives_its_callers_two : ∃ l, run (step {1, 2}) (start 1 fun t => if t = 2 then 1 else 0)
      ([.call 1 .wait, .call 2 .countDown] ++ List.replicate 6 (.next 2) ++ List.replicate 5 (.next 1) ++
        [.destroy]) = .ok l ∧
    l.alive = false ∧ l.count = 0 ∧ ∀ t ∈ ({1, 2} : Finset Nat), l.left t = 0 ∧ (l.pc t).inCountDown = false := by
  obtain ⟨l, hl, -, -, h⟩ :=
    latch_outlives_its_callers {1, 2} (by decide) 1 (fun t => if t = 2 then 1 else 0) (by decide)
    ([.call 1 .wait, .call 2 .countDown] ++ List.replicate 6 (.next 2) ++ List.replicate 5 (.next 1) ++ [.destroy])
  obtain ⟨l', hl', hv⟩ := ok_of_map (show (run (step {1, 2}) (start 1 fun t => if t = 2 then 1 else 0)
    ([.call 1 .wait, .call 2 .countDown] ++ List.replicate 6 (.next 2) ++ List.replicate 5 (.next 1) ++ [.destroy])).map
    (fun l => (l.alive, l.returned)) = .ok (false, [1]) by decide +kernel)
  rw [hl] at hl'
  cases hl'
  simp only [Prod.mk.injEq] at hv
  exact ⟨l, hl, hv.1, h (by rw [hv.2]; nofun)⟩

/-! ## Every call returns

The threads that can go on are let go on, without a spurious wake-up. `rank` counts the statements that a thread
has before it, with its calls of `countDown`. A blocked thread is sent back by a `notifyAll`, which pays for it
with `k`. -/

/-- How far a statement is from the end of its call. -/
def distance : LatchPc → Nat
  | .out => 0
  | .unlock _ => 1
  | .unassign _ => 2
  | .notifyAll => 3
  | .decrement => 4
  | .blocked => 5
  | .condWait => 6
  | .unassignGuard => 7
  | .test => 8
  | .assignGuard => 9
  | .wakened => 10
  | .assign _ => 11
  | .lock _ => 12

/-- With the calls of `countDown` that a thread has still to begin. -/
def toGo (l : CountDownLatch) (t : Nat) : Nat := distance (l.pc t) + 13 * (l.left t - (l.pc t).pending.toNat)

def rank (k : Nat) (l : CountDownLatch) (t : Nat) : Nat :=
  l.toGo t + k * (l.left t + if l.pc t = .notifyAll then 1 else 0)

def remaining (threads : Finset Nat) (l : CountDownLatch) : Nat := ∑ t ∈ threads, l.rank (5 * threads.card) t

theorem remaining_lt {k : Nat} (hk : k = 5 * threads.card) (ht : t ∈ threads) (hlt : l'.rank k t < l.rank k t)
    (hother : ∀ u, u ≠ t → l'.rank k u = l.rank k u) : remaining threads l' < remaining threads l := by
  subst hk
  refine Finset.sum_lt_sum (fun u _ => ?_) ⟨t, ht, hlt⟩
  by_cases hu : u = t
  · rw [hu]
    exact Nat.le_of_lt hlt
  · exact Nat.le_of_eq (hother u hu)

/-- A thread comes to a statement nearer to the end, and that is not `notifyAll`. -/
theorem remaining_goto {r : List Nat} (q : LatchPc) (ht : t ∈ threads) (hq : q ≠ .notifyAll)
    (hlt : distance q + 13 * (l.left t - q.pending.toNat) < l.toGo t) :
    remaining threads { l.goto t q with mutex := m, returned := r } < remaining threads l := by
  apply remaining_lt rfl ht
  · simp only [rank, toGo, goto, Function.update_self, if_neg hq]
    exact Nat.add_lt_add_of_lt_of_le hlt (Nat.mul_le_mul_left _ (Nat.le_add_right ..))
  · intro u hu
    simp only [rank, toGo, goto, Function.update_of_ne hu]

theorem remaining_decrement (h : Sound threads l) (hp : l.pc t = .decrement) (ht : t ∈ threads) :
    remaining threads (l.next t) < remaining threads l := by
  have hpos : 0 < l.left t := h.pending t (by rw [hp]; rfl)
  simp only [next, hp]
  apply remaining_lt rfl ht
  · simp only [rank, toGo, goto, Function.update_self, hp, reduceCtorEq, if_false]
    refine Nat.add_lt_add_of_lt_of_le ?_ (Nat.mul_le_mul_left _ ?_)
    · split <;> simp [distance, LatchPc.pending]
    · split
      · rw [if_pos rfl]
        omega
      · rw [if_neg nofun]
        omega
  · intro u hu
    simp only [rank, toGo, goto, Function.update_of_ne hu]

theorem distance_wakened (p : LatchPc) : distance (if p = .blocked then .wakened else p) ≤ distance p + 5 := by
  split
  · rename_i hp
    rw [hp]
    exact Nat.le_refl 10
  · omega

theorem rank_notifyAll {k : Nat} (hp : l.pc t = .notifyAll) (u : Nat) :
    (l.next t).rank k u + (if u = t then k + 1 else 0) ≤ l.rank k u + 5 := by
  by_cases hu : u = t
  · simp only [rank, toGo, next, hu, hp, Function.update_self, if_true, distance, LatchPc.pending,
      reduceCtorEq, if_false, Nat.mul_add, Nat.mul_one, Nat.mul_zero]
    omega
  · have hd := distance_wakened (l.pc u)
    have hn : (if (if l.pc u = .blocked then .wakened else l.pc u) = LatchPc.notifyAll then 1 else 0) =
        if l.pc u = .notifyAll then 1 else 0 := by
      by_cases hb : l.pc u = .blocked
      · simp [hb]
      · simp [hb]
    simp only [rank, toGo, next, hp, Function.update_of_ne hu, Sound.apply_wakened LatchPc.pending rfl, hn, if_neg hu]
    omega

theorem remaining_notifyAll (hp : l.pc t = .notifyAll) (ht : t ∈ threads) :
    remaining threads (l.next t) < remaining threads l := by
  have hsum := Finset.sum_le_sum fun u (_ : u ∈ threads) => rank_notifyAll (k := 5 * threads.card) hp u
  rw [Finset.sum_add_distrib, Finset.sum_add_distrib, Finset.sum_ite_eq' threads t, if_pos ht,
    Finset.sum_const_nat fun _ _ => rfl] at hsum
  unfold remaining
  omega

/-- A thread that has the mutex can go on, and so can one that is about to take it when it is free. -/
theorem remaining_next (h : Sound threads l) (ht : t ∈ threads)
    (hm : (l.pc t).holds = true ∨ l.mutex.owner = none ∧ ((∃ c, l.pc t = .lock c) ∨ l.pc t = .wakened)) :
    remaining threads (l.next t) < remaining threads l := by
  cases hp : l.pc t with
  | out => simp [hp, LatchPc.holds] at hm
  | blocked => simp [hp, LatchPc.holds] at hm
  | decrement => exact remaining_decrement h hp ht
  | notifyAll => exact remaining_notifyAll hp ht
  | lock c =>
    have hn : l.mutex.owner = none := by simpa [hp, LatchPc.holds] using hm
    simp only [next, hp, if_pos hn]
    apply remaining_goto (.assign c) ht nofun
    simp [toGo, hp, distance, LatchPc.pending]
  | wakened =>
    have hn : l.mutex.owner = none := by simpa [hp, LatchPc.holds] using hm
    simp only [next, hp, if_pos hn]
    apply remaining_goto .assignGuard ht nofun
    simp [toGo, hp, distance, LatchPc.pending]
  | assign c =>
    simp only [next, hp]
    cases c with
    | wait =>
      apply remaining_goto .test ht nofun
      simp [toGo, hp, distance, LatchPc.pending]
    | countDown =>
      apply remaining_goto .decrement ht nofun
      simp [toGo, hp, distance, LatchPc.pending]
  | test =>
    simp only [next, hp]
    split
    · apply remaining_goto .unassignGuard ht nofun
      simp [toGo, hp, distance, LatchPc.pending]
    · apply remaining_goto (.unassign .wait) ht nofun
      simp [toGo, hp, distance, LatchPc.pending]
  | unassignGuard =>
    simp only [next, hp]
    apply remaining_goto .condWait ht nofun
    simp [toGo, hp, distance, LatchPc.pending]
  | condWait =>
    simp only [next, hp]
    apply remaining_goto .blocked ht nofun
    simp [toGo, hp, distance, LatchPc.pending]
  | assignGuard =>
    simp only [next, hp]
    apply remaining_goto .test ht nofun
    simp [toGo, hp, distance, LatchPc.pending]
  | unassign c =>
    simp only [next, hp]
    apply remaining_goto (.unlock c) ht nofun
    simp [toGo, hp, distance, LatchPc.pending]
  | unlock c =>
    simp only [next, hp]
    apply remaining_goto .out ht nofun
    simp [toGo, hp, distance, LatchPc.pending]

theorem remaining_call (hp : l.pc t = .out) (hpos : 0 < l.left t) (ht : t ∈ threads) :
    remaining threads (l.goto t (.lock .countDown)) < remaining threads l := by
  apply remaining_goto (.lock .countDown) ht nofun
  simp only [toGo, hp, distance, LatchPc.pending, decide_true, Bool.toNat_true, Bool.toNat_false]
  omega

theorem out_of_remaining (h : Sound threads l) (hz : remaining threads l = 0) (t : Nat) : l.pc t = .out := by
  by_cases ht : t ∈ threads
  · have hrank := Finset.sum_eq_zero_iff.mp hz t ht
    have hd : distance (l.pc t) = 0 := by
      unfold rank toGo at hrank
      omega
    cases hp : l.pc t <;> rw [hp] at hd <;> first | rfl | cases hd
  · exact h.away t ht

/-- No schedule leaves the callers stuck, unless a thread waits that has itself to count down. -/
theorem progress (h : Sound threads l) (hw : ∀ t, (l.pc t).inWait = true → l.left t = 0)
    (hz : remaining threads l ≠ 0) :
    (∃ t ∈ threads, l.pc t ≠ .out ∧ remaining threads (l.next t) < remaining threads l) ∨
      ∃ t ∈ threads, l.pc t = .out ∧ 0 < l.left t := by
  cases ho : l.mutex.owner with
  | some t =>
    have hh := (h.mutex.owner t).mp ho
    have hout : l.pc t ≠ .out := fun he => by rw [he] at hh; cases hh
    exact .inl ⟨t, h.mem hout, hout, remaining_next h (h.mem hout) (.inl hh)⟩
  | none =>
    by_cases hlock : ∃ t, (∃ c, l.pc t = .lock c) ∨ l.pc t = .wakened
    · obtain ⟨t, ht⟩ := hlock
      have hout : l.pc t ≠ .out := by
        rcases ht with ⟨c, ht⟩ | ht <;> rw [ht] <;> nofun
      exact .inl ⟨t, h.mem hout, hout, remaining_next h (h.mem hout) (.inr ⟨ho, ht⟩)⟩
    · -- The threads in a call are blocked, and nobody is left to notify them
      have hpc : ∀ t, l.pc t = .out ∨ l.pc t = .blocked := by
        intro t
        have hh := h.mutex.none_holds ho t
        cases hp : l.pc t with
        | out => exact .inl rfl
        | blocked => exact .inr rfl
        | lock c => exact absurd ⟨t, .inl ⟨c, hp⟩⟩ hlock
        | wakened => exact absurd ⟨t, .inr hp⟩ hlock
        | _ => rw [hp] at hh; cases hh
      refine .inr ?_
      by_contra hnone
      have hleft : ∀ t ∈ threads, l.left t = 0 := by
        intro t ht
        rcases hpc t with hp | hp
        · by_contra hne
          exact hnone ⟨t, ht, hp, Nat.pos_of_ne_zero hne⟩
        · exact hw t (by rw [hp]; rfl)
      have hc : l.count = 0 := by
        rw [h.count, Finset.sum_eq_zero hleft]
        rfl
      have hall : ∀ t, l.pc t = .out := by
        intro t
        rcases hpc t with hp | hp
        · exact hp
        · obtain ⟨u, hu⟩ := h.notified t hp hc
          rcases hpc u with hp | hp <;> rw [hu] at hp <;> cases hp
      apply hz
      unfold remaining
      apply Finset.sum_eq_zero
      intro t ht
      simp [rank, toGo, hall t, hleft t ht, distance]

theorem next_pc_of_ne (hu : u ≠ t) : (l.next t).pc u = l.pc u ∨ l.pc u = .blocked ∧ (l.next t).pc u = .wakened := by
  cases hp : l.pc t with
  | notifyAll =>
    simp only [next, hp, Function.update_of_ne hu]
    split
    · exact .inr ⟨‹_›, rfl⟩
    · exact .inl rfl
  | out => simp [next, hp]
  | blocked => simp [next, hp]
  | _ =>
    refine .inl ?_
    simp only [next, hp]
    first | rfl | exact Function.update_of_ne hu .. | (split <;> first | rfl | exact Function.update_of_ne hu ..)

/-- Callers stay in their `wait` until it returns. -/
theorem next_inWait (l : CountDownLatch) (t u : Nat) :
    ((l.next t).pc u).inWait = (l.pc u).inWait ∨ u ∈ (l.next t).returned ∧ ((l.next t).pc u).inWait = false := by
  by_cases hu : u = t
  · subst hu
    cases hp : l.pc u with
    | unlock c =>
      simp only [next, hp, goto, Function.update_self]
      cases c <;> simp [LatchPc.inWait]
    | assign c =>
      simp only [next, hp, goto, Function.update_self]
      cases c <;> simp [LatchPc.inWait]
    | out => simp [next, hp]
    | blocked => simp [next, hp]
    | _ =>
      simp only [next, hp, goto, Function.update_self]
      first | exact .inl rfl | exact .inl (by split <;> simp_all [LatchPc.inWait])
  · rcases next_pc_of_ne (l := l) hu with hn | ⟨hb, hn⟩
    · rw [hn]
      exact .inl rfl
    · rw [hn, hb]
      exact .inl rfl

theorem returned_next (hu : u ∈ l.returned) : u ∈ (l.next t).returned := by
  cases hp : l.pc t with
  | unlock c =>
    simp only [next, hp]
    split
    · exact List.mem_append_left _ hu
    · exact hu
  | _ =>
    simp only [next, hp]
    first | exact hu | (split <;> exact hu)

theorem left_next (h : l.left u = 0) : (l.next t).left u = 0 := by
  cases hp : l.pc t with
  | decrement =>
    simp only [next, hp, Function.update_apply]
    split
    · rename_i hu
      rw [← hu, h]
    · exact h
  | _ =>
    simp only [next, hp]
    first | exact h | (split <;> exact h)

/-- What holds of the callers while those in `waiters` are let go on. -/
structure Ending (threads waiters : Finset Nat) (l : CountDownLatch) : Prop where
  sound : Sound threads l
  alive : l.alive = true
  left : ∀ t, (l.pc t).inWait = true → l.left t = 0
  waiters : ∀ t ∈ waiters, (l.pc t).inWait = true ∨ t ∈ l.returned

theorem alive_next (l : CountDownLatch) (t : Nat) : (l.next t).alive = l.alive := by
  unfold next
  split <;> first | rfl | (split <;> rfl)

def Label.goesOn : Label → Bool
  | .next _ | .call _ .countDown => true
  | _ => false

namespace Ending

variable {waiters : Finset Nat}

theorem next (h : Ending threads waiters l) (ht : t ∈ threads) : Ending threads waiters (l.next t) where
  sound := h.sound.next ht h.alive
  alive := (alive_next l t).trans h.alive
  left := by
    intro u hu
    rcases next_inWait l t u with hw | ⟨-, hw⟩
    · exact left_next (h.left u (hw ▸ hu))
    · rw [hw] at hu
      cases hu
  waiters := by
    intro u hu
    rcases h.waiters u hu with hw | hr
    · rcases next_inWait l t u with hn | ⟨hr, -⟩
      · exact .inl (hn.trans hw)
      · exact .inr hr
    · exact .inr (returned_next hr)

theorem call (h : Ending threads waiters l) (hp : l.pc t = .out) (hpos : 0 < l.left t) (ht : t ∈ threads) :
    Ending threads waiters (l.goto t (.lock .countDown)) where
  sound := h.sound.call hp ht h.alive (.inr hpos)
  alive := h.alive
  left := by
    intro u hu
    simp only [goto, Function.update_apply] at hu
    split at hu
    · cases hu
    · exact h.left u hu
  waiters := by
    intro u hu
    refine (h.waiters u hu).imp_left fun hw => ?_
    have hne : u ≠ t := fun he => by rw [he, hp] at hw; cases hw
    rw [show (l.goto t (.lock .countDown)).pc u = l.pc u from Function.update_of_ne hne ..]
    exact hw

theorem step (h : Ending threads waiters l) (hz : remaining threads l ≠ 0) :
    ∃ lb, lb.goesOn = true ∧ ∃ l', l.step threads lb = .ok l' ∧ Ending threads waiters l' ∧
      remaining threads l' < remaining threads l := by
  rcases progress h.sound h.left hz with ⟨t, ht, hp, hlt⟩ | ⟨t, ht, hp, hpos⟩
  · refine ⟨.next t, rfl, l.next t, ?_, h.next ht, hlt⟩
    simp [CountDownLatch.step, possible, act, ht, hp, h.alive]
  · refine ⟨.call t .countDown, rfl, _, ?_, h.call hp hpos ht, remaining_call hp hpos ht⟩
    simp [CountDownLatch.step, possible, act, ht, hp, h.alive, hpos]

end Ending

/-- From every state that the callers can get into, with no thread waiting for itself, they can all return: the
threads go on, call `countDown` as often as they have to, and nobody wakes up without a notification. -/
theorem latch_lets_waiters_go (threads : Finset Nat) (count : Int) (calls : Nat → Nat)
    (hc : count = (∑ t ∈ threads, calls t : Nat)) (ls : List Label) (l : CountDownLatch)
    (hr : run (step threads) (start count calls) ls = .ok l) (ha : l.alive = true)
    (hw : ∀ t ∈ threads, (l.pc t).inWait = true → l.left t = 0) :
    ∃ ms l', (∀ lb ∈ ms, lb.goesOn = true) ∧ run (step threads) l ms = .ok l' ∧ (∀ t, l'.pc t = .out) ∧ l'.count = 0 ∧
      ∀ t ∈ threads, (l.pc t).inWait = true → t ∈ l'.returned := by
  have hsound : ∃ k, run (step threads) (start count calls) ls = .ok k ∧ Sound threads k :=
    run_total (fun _ lb h => Sound.step h lb) (Sound.start hc)
  obtain ⟨k, hk, hs⟩ := hsound
  rw [hr] at hk
  cases hk
  have hleft : ∀ t, (l.pc t).inWait = true → l.left t = 0 := fun t ht =>
    hw t (hs.mem fun ho => by rw [ho] at ht; cases ht) ht
  have hend : Ending threads (threads.filter fun t => (l.pc t).inWait) l :=
    ⟨hs, ha, hleft, fun t ht => .inl (Finset.mem_filter.mp ht).2⟩
  obtain ⟨ms, hms, -, l', hrun, he, hz⟩ := run_reaches (fun _ h hz => Ending.step h hz) hend
  have hout := out_of_remaining he.sound hz
  refine ⟨ms, l', hms, hrun, hout, ?_, fun t ht hin => ?_⟩
  · rw [he.sound.count, Finset.sum_eq_zero]
    · rfl
    · intro t ht
      have hrank := Finset.sum_eq_zero_iff.mp hz t ht
      simp only [rank, toGo, hout t, LatchPc.pending, Bool.toNat_false] at hrank
      omega
  · rcases he.waiters t (Finset.mem_filter.mpr ⟨ht, hin⟩) with hin | hr
    · rw [hout t] at hin
      cases hin
    · exact hr

/-- The first thread blocks before the second one counts down. -/
theorem latch_lets_waiters_go_blocked : ∃ l, run (step {1, 2}) (start 1 fun t => if t = 2 then 1 else 0)
      (.call 1 .wait :: List.replicate 5 (.next 1)) = .ok l ∧ l.pc 1 = .blocked ∧
    ∃ ms l', (∀ lb ∈ ms, lb.goesOn = true) ∧ run (step {1, 2}) l ms = .ok l' ∧ 1 ∈ l'.returned := by
  obtain ⟨l, hl, hv⟩ := ok_of_map (show (run (step {1, 2}) (start 1 fun t => if t = 2 then 1 else 0)
    (.call 1 .wait :: List.replicate 5 (.next 1))).map (fun l => (l.alive, l.pc 1, l.pc 2, l.left 1)) =
      .ok (true, .blocked, .out, 0) by decide +kernel)
  simp only [Prod.mk.injEq] at hv
  obtain ⟨ha, hb, ho, hz⟩ := hv
  obtain ⟨ms, l', hms, hr, -, -, h⟩ := latch_lets_waiters_go _ _ _ (by decide) _ l hl ha (by
    intro t ht hin
    rw [Finset.mem_insert, Finset.mem_singleton] at ht
    rcases ht with rfl | rfl
    · exact hz
    · rw [ho] at hin
      cases hin)
  exact ⟨l, hl, hb, ms, l', hms, hr, h 1 (by decide) (by rw [hb]; rfl)⟩

end CountDownLatch

end Zhengqi
