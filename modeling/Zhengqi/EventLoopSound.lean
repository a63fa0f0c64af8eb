import Zhengqi.EventLoop

/-!
# The functor queue of an event loop

Functors are called in the order in which they were queued, each once. While the loop
runs, a functor that is in the queue when the loop goes to `poll` has been announced by a
wake-up; only the first `poll` of a call of `loop()` can block on functors that nobody has
announced, those that the loop's own thread queued before the call.
-/

namespace Zhengqi

open Run

theorem LoopPhase.eq_outside {φ : Type} {p : LoopPhase φ} (h : p.inLoop = false) : p = .outside := by
  cases p with
  | outside => rfl
  | _ => cases h

namespace EventLoop

variable {φ : Type} {s t : EventLoop φ}

/-! ## Order -/

structure Inv (s : EventLoop φ) : Prop where
  looping : s.looping = s.phase.inLoop
  fifo : s.executed ++ s.phase.batch ++ s.pendingFunctors = s.enqueued

theorem Inv.queueInLoop (h : s.Inv) (thread : Nat) (cb : φ) : (s.queueInLoop thread cb).Inv := by
  refine ⟨h.looping, ?_⟩
  simp only [EventLoop.queueInLoop, ← h.fifo, List.append_assoc]

theorem Inv.loop (h : s.Inv) (hp : s.phase.inLoop = false) : ∃ t, s.loop = .ok t ∧ t.Inv := by
  have hl : s.looping = false := h.looping.trans hp
  refine ⟨{ s with looping := true, quit := false, phase := .test false }, ?_, rfl, ?_⟩
  · simp [EventLoop.loop, hl]
  · have hf := h.fifo
    rw [LoopPhase.eq_outside hp] at hf
    exact hf

theorem Inv.advance (h : s.Inv) (wakeup : Bool) : (s.advance wakeup).Inv := by
  obtain ⟨hl, hf⟩ := h
  unfold EventLoop.advance
  split
  case h_1 => exact ⟨hl, hf⟩
  case h_2 hp =>
    rw [hp] at hl hf
    unfold test
    split
    · exact ⟨rfl, hf⟩
    · exact ⟨hl, hf⟩
  case h_6 hp =>
    rw [hp] at hl hf
    refine ⟨hl, ?_⟩
    simpa [EventLoop.swap, LoopPhase.batch] using hf
  case h_7 cb rest hp =>
    rw [hp] at hl hf
    refine ⟨hl, ?_⟩
    simpa [runFunctor, LoopPhase.batch] using hf
  all_goals
    rename_i hp
    rw [hp] at hl hf
    exact ⟨hl, hf⟩

theorem Inv.step (h : s.Inv) (l : LoopLabel φ) : ∃ t, s.step l = .ok t ∧ t.Inv := by
  cases l with
  | queueInLoop thread cb =>
    refine ⟨_, rfl, ?_⟩
    split
    · exact h.queueInLoop thread cb
    · exact h
  | quit thread =>
    refine ⟨_, rfl, ?_⟩
    split
    · exact ⟨h.looping, h.fifo⟩
    · exact h
  | wakeup thread =>
    refine ⟨_, rfl, ?_⟩
    split
    · exact ⟨h.looping, h.fifo⟩
    · exact h
  | loop =>
    by_cases hp : s.phase.inLoop = true
    · exact ⟨s, by simp [EventLoop.step, hp], h⟩
    · obtain ⟨t, ht, hi⟩ := h.loop (Bool.not_eq_true _ ▸ hp)
      exact ⟨t, by simp [EventLoop.step, hp, ht], hi⟩
  | advance wakeup =>
    refine ⟨_, rfl, ?_⟩
    split
    · exact h
    · exact h.advance wakeup

theorem Inv.of_step (h : s.Inv) {l : LoopLabel φ} (hs : s.step l = .ok t) : t.Inv := by
  obtain ⟨u, hu, hi⟩ := h.step l
  rw [hs] at hu
  cases hu
  exact hi

/-- The functors of the calls of `queueInLoop`, in order: a thread that can make the call makes it. -/
def accept (s : EventLoop φ) (fs : List φ) : LoopLabel φ → List φ
  | .queueInLoop thread cb => if s.calls thread then fs ++ [cb] else fs
  | _ => fs

theorem enqueued_advance (s : EventLoop φ) (wakeup : Bool) : (s.advance wakeup).enqueued = s.enqueued := by
  unfold EventLoop.advance
  split
  case h_2 =>
    unfold EventLoop.test
    split <;> rfl
  all_goals rfl

theorem enqueued_step {l : LoopLabel φ} (hs : s.step l = .ok t) : t.enqueued = s.accept s.enqueued l := by
  cases l with
  | queueInLoop thread cb =>
    cases hs
    rw [accept]
    split <;> rfl
  | quit thread =>
    cases hs
    split <;> rfl
  | wakeup thread =>
    cases hs
    split <;> rfl
  | loop =>
    rcases ite_ok hs with ⟨-, hs⟩ | ⟨-, hs⟩
    · cases hs
      rfl
    · obtain ⟨_, -, hs⟩ := bind_ok.mp hs
      cases hs
      rfl
  | advance wakeup =>
    cases hs
    split
    · rfl
    · exact enqueued_advance s wakeup

theorem enqueued_run {ls : List (LoopLabel φ)} (hs : run EventLoop.step s ls = .ok t) :
    t.enqueued = track EventLoop.step accept s s.enqueued ls := by
  refine run_track_inv (R := fun s fs => s.enqueued = fs) (fun s fs l t h hs => ?_) rfl hs
  rw [enqueued_step hs, h]

end EventLoop

/-- At every point of every run, the functors called so far, the rest of the batch and the
queue are the functors of the calls of `queueInLoop` so far, in order. -/
theorem functors_fifo_once {φ : Type} (threadId : Nat) (ls : List (LoopLabel φ)) :
    ∃ s, run EventLoop.step { threadId } ls = .ok s ∧
      s.executed ++ s.phase.batch ++ s.pendingFunctors = track EventLoop.step EventLoop.accept { threadId } [] ls := by
  have hinit : EventLoop.Inv ({ threadId } : EventLoop φ) := ⟨rfl, rfl⟩
  obtain ⟨s, hs, hi⟩ := run_total (fun s l h => EventLoop.Inv.step h l) hinit
  exact ⟨s, hs, hi.fifo.trans (EventLoop.enqueued_run hs)⟩

/-- Thread 2 queues functors 10 and 11, and while 10 is being called thread 3 queues 20 and
functor 10 itself queues 30. -/
def nestedCalls : List (LoopLabel Nat) :=
  [.loop, .queueInLoop 2 10, .wakeup 2, .queueInLoop 2 11, .advance false, .advance true, .advance false,
    .advance false, .advance false, .advance false, .queueInLoop 3 20, .queueInLoop 1 30, .wakeup 1, .advance false]

theorem functors_fifo_once_nested :
    ∃ s, run EventLoop.step { threadId := 1 } nestedCalls = .ok s ∧
      s.executed ++ s.phase.batch ++ s.pendingFunctors = [10, 11, 20, 30] ∧ s.executed = [10, 11] := by
  obtain ⟨s, hs, hf⟩ := functors_fifo_once 1 nestedCalls
  have he : (run EventLoop.step { threadId := 1 } nestedCalls).map (·.executed) = .ok [10, 11] := by decide
  have ht : track EventLoop.step EventLoop.accept { threadId := 1 } [] nestedCalls = [10, 11, 20, 30] := by decide
  rw [hs] at he
  exact ⟨s, hs, hf.trans ht, Except.ok.inj he⟩

/-! ## Wake-ups -/

def LoopPhase.calling {φ : Type} : LoopPhase φ → Bool
  | .swap | .functors .. => true
  | _ => false

/-- From here on `wakeupFd_` is not read before the next `poll`, and no functor is taken
from the queue. The first test of a `loop()` is not such a place: what came before it is
the business of its caller. -/
def LoopPhase.towardsPoll {φ : Type} : LoopPhase φ → Bool
  | .functors .. | .test true | .poll => true
  | _ => false

namespace EventLoop

variable {φ : Type} {s t : EventLoop φ}

structure Wakes (s : EventLoop φ) : Prop where
  calling : s.callingPendingFunctors = s.phase.calling
  own : s.threadId ∈ s.queueing → s.phase.calling = true
  woken : s.phase.towardsPoll = true → s.pendingFunctors ≠ [] → 0 < s.wakeupFd ∨ s.queueing ≠ []

theorem announced_iff : s.announced = true ↔ 0 < s.wakeupFd ∨ ∃ thread ∈ s.queueing, thread ≠ s.threadId := by
  simp [announced]

theorem announced_of (hw : 0 < s.wakeupFd ∨ s.queueing ≠ []) (ho : s.threadId ∉ s.queueing) : s.announced = true := by
  refine announced_iff.mpr (hw.imp_right fun hw => ?_)
  obtain ⟨thread, ht⟩ := List.exists_mem_of_ne_nil _ hw
  exact ⟨thread, ht, fun h => ho (h ▸ ht)⟩

theorem woken_of_announced (h : s.announced = true) : 0 < s.wakeupFd ∨ s.queueing ≠ [] := by
  refine (announced_iff.mp h).imp_right ?_
  rintro ⟨thread, ht, -⟩
  exact List.ne_nil_of_mem ht

theorem silent_iff {wakeup : Bool} : s.silent (.advance wakeup) = true ↔
    s.phase = .test false ∧ s.quit = false ∧ s.pendingFunctors ≠ [] ∧ s.announced = false := by
  unfold silent
  cases s.phase with
  | test again => cases again <;> simp [and_assoc]
  | _ => simp

theorem Wakes.queueInLoop (h : s.Wakes) {thread : Nat} (hc : s.calls thread = true) (cb : φ) :
    (s.queueInLoop thread cb).Wakes := by
  by_cases hw : (!s.isInLoopThread thread || s.callingPendingFunctors) = true
  · have hq : (s.queueInLoop thread cb).queueing = s.queueing ++ [thread] := if_pos hw
    refine ⟨h.calling, ?_, fun _ _ => .inr ?_⟩
    · rw [hq, List.mem_append, List.mem_singleton]
      rintro (ho | ho)
      · exact h.own ho
      · have hown : s.isInLoopThread thread = true := decide_eq_true ho.symm
        rw [hown] at hw
        exact h.calling ▸ hw
    · rw [hq]
      exact List.append_ne_nil_of_right_ne_nil _ (List.cons_ne_nil _ _)
  · -- a handler, or code outside `loop()`: the functor is taken before the next `poll`
    have hq : (s.queueInLoop thread cb).queueing = s.queueing := if_neg hw
    rw [Bool.not_eq_true, Bool.or_eq_false_iff, Bool.not_eq_false'] at hw
    obtain ⟨hown, hcalling⟩ := hw
    refine ⟨h.calling, fun ho => h.own (hq ▸ ho), fun hp => ?_⟩
    have huser : s.phase.userCode = true := by
      simp only [calls, hown, Bool.and_eq_true] at hc
      exact hc.2
    rw [h.calling] at hcalling
    change s.phase.towardsPoll = true at hp
    cases hs : s.phase with
    | functors running rest => rw [hs] at hcalling; cases hcalling
    | test again => rw [hs] at huser; cases huser
    | poll => rw [hs] at huser; cases huser
    | outside => rw [hs] at hp; cases hp
    | handleEvent wakeup => rw [hs] at hp; cases hp
    | swap => rw [hs] at hp; cases hp

theorem Wakes.wakeup (h : s.Wakes) (thread : Nat) : (s.wakeup thread).Wakes :=
  ⟨h.calling, fun ho => h.own (List.mem_filter.mp ho).1, fun _ _ => .inl (Nat.succ_pos _)⟩

theorem Wakes.test (h : s.Wakes) (ho : s.threadId ∉ s.queueing) {again : Bool} (hp : s.phase = .test again)
    (hfirst : again = false → s.quit = false → s.pendingFunctors ≠ [] → s.announced = true) : s.test.Wakes := by
  obtain ⟨hcall, -, hw⟩ := h
  rw [hp] at hcall hw
  unfold EventLoop.test
  by_cases hq : s.quit = true
  · rw [if_pos hq]
    exact ⟨hcall, fun h => absurd h ho, fun h => by cases h⟩
  · rw [if_neg hq]
    refine ⟨hcall, fun h => absurd h ho, fun _ hn => ?_⟩
    cases again with
    | true => exact hw rfl hn
    | false => exact woken_of_announced (hfirst rfl (Bool.not_eq_true _ ▸ hq) hn)

theorem Wakes.advance (h : s.Wakes) (ho : s.threadId ∉ s.queueing) {wakeup : Bool}
    (hc : s.silent (.advance wakeup) = false) : (s.advance wakeup).Wakes := by
  have hcall := h.calling
  have hw := h.woken
  unfold EventLoop.advance
  split
  case h_1 hp => exact h
  case h_2 again hp =>
    apply h.test ho hp
    intro ha hq hn
    by_contra hann
    have hs : s.silent (.advance wakeup) = true := silent_iff.mpr ⟨ha ▸ hp, hq, hn, Bool.not_eq_true _ ▸ hann⟩
    rw [hc] at hs
    cases hs
  case h_6 hp =>
    rw [hp] at hcall
    exact ⟨hcall, fun h => absurd h ho, fun _ hn => absurd rfl hn⟩
  case h_7 hp =>
    rw [hp] at hcall hw
    exact ⟨hcall, fun h => absurd h ho, hw⟩
  case h_8 hp =>
    rw [hp] at hw
    exact ⟨rfl, fun h => absurd h ho, hw⟩
  case h_5 hp => exact ⟨rfl, fun h => absurd h ho, fun h => by cases h⟩
  all_goals
    rename_i hp
    rw [hp] at hcall
    exact ⟨hcall, fun h => absurd h ho, fun h => by cases h⟩

theorem Wakes.step (h : s.Wakes) {l : LoopLabel φ} (hc : s.silent l = false) (hs : s.step l = .ok t) : t.Wakes := by
  cases l with
  | queueInLoop thread cb =>
    cases hs
    split
    · exact h.queueInLoop ‹_› cb
    · exact h
  | quit thread =>
    cases hs
    split
    · exact ⟨h.calling, h.own, h.woken⟩
    · exact h
  | wakeup thread =>
    cases hs
    split
    · exact h.wakeup thread
    · exact h
  | loop =>
    rcases ite_ok hs with ⟨-, hs⟩ | ⟨hp, hs⟩
    · cases hs
      exact h
    · obtain ⟨_, -, hs⟩ := bind_ok.mp hs
      cases hs
      have hout := LoopPhase.eq_outside (Bool.not_eq_true _ ▸ hp)
      have hcall := h.calling
      have hown := h.own
      rw [hout] at hcall hown
      exact ⟨hcall, hown, fun h => by cases h⟩
  | advance wakeup =>
    cases hs
    split
    · exact h
    · exact h.advance ‹_› hc

/-- What the loop is about to block on has been announced. -/
def Awake (s : EventLoop φ) : Prop := s.phase = .poll → s.pendingFunctors ≠ [] → s.announced = true

theorem Wakes.awake (h : s.Wakes) : s.Awake := by
  intro hp hn
  apply announced_of
  · exact h.woken (by rw [hp]; rfl) hn
  · intro ho
    have := h.own ho
    rw [hp] at this
    cases this

theorem Wakes.not_awake (h : s.Wakes) {l : LoopLabel φ} (hs : s.silent l = true) :
    ∃ t, s.step l = .ok t ∧ ¬ t.Awake := by
  cases l with
  | advance wakeup =>
    obtain ⟨hp, hq, hn, hann⟩ := silent_iff.mp hs
    have ho : s.threadId ∉ s.queueing := by
      intro ho
      have := h.own ho
      rw [hp] at this
      cases this
    refine ⟨{ s with phase := .poll }, ?_, fun ha => ?_⟩
    · simp [EventLoop.step, ho, EventLoop.advance, hp, EventLoop.test, hq]
    · exact absurd (ha rfl hn) (Bool.eq_false_iff.mp hann)
  | _ => cases hs

end EventLoop

/-- Functors are announced at every `poll` of a run, exactly when no call of `loop()` in it
goes to its first `poll` with functors in the queue that nobody has announced. -/
theorem polls_after_wakeup {φ : Type} (threadId : Nat) (ls : List (LoopLabel φ)) :
    (∀ ms s, ms <+: ls → run EventLoop.step { threadId } ms = .ok s → s.phase = .poll → s.pendingFunctors ≠ [] →
        0 < s.wakeupFd ∨ ∃ thread ∈ s.queueing, thread ≠ s.threadId) ↔
      Meets EventLoop.step (fun s l => s.silent l = false) { threadId } ls := by
  have hinit : EventLoop.Wakes ({ threadId } : EventLoop φ) := ⟨rfl, by simp, by simp⟩
  have hiff : (∀ ms, ms <+: ls → ∀ s, run EventLoop.step { threadId } ms = .ok s → s.Awake) ↔
      Meets EventLoop.step (fun s l => s.silent l = false) { threadId } ls := by
    apply outcomes_iff_meets (I := EventLoop.Wakes) (Q := fun x => ∀ s, x = .ok s → EventLoop.Awake s)
    · intro s h t ht
      cases ht
      exact h.awake
    · exact fun _ _ _ h hc hs => h.step hc hs
    · intro s l e _ _ _ t ht
      cases ht
    · intro s l h hc hq
      obtain ⟨t, ht, hn⟩ := h.not_awake (Bool.not_eq_false _ ▸ hc)
      exact hn (hq t ht)
    · exact hinit
  rw [← hiff]
  constructor
  · intro h ms hm s hs hp hn
    exact EventLoop.announced_iff.mpr (h ms s hm hs hp hn)
  · intro h ms s hm hs hp hn
    exact EventLoop.announced_iff.mp (h ms hm s hs hp hn)

/-- The loop's thread queues a functor, calls `loop()`, and blocks: it is not told of the
functor before something else ends the `poll`. -/
theorem polls_without_wakeup :
    run EventLoop.step { threadId := 1 } [.queueInLoop 1 (), .loop, .advance false] =
      .ok { threadId := 1, looping := true, phase := .poll, pendingFunctors := [()], enqueued := [()] } := by
  decide

end Zhengqi
