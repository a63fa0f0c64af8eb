import Zhengqi.EventLoopThread
import Zhengqi.EventLoopSound

/-!
# Quitting the loop of an EventLoopThread

`loop()` begins with `quit_ = false`, and `startLoop` may return before `threadFunc` gets
there. A `quit()` is kept exactly when `loop()` has been entered before it.
-/

namespace Zhengqi

open Run

variable {φ : Type}

/-- A call that a thread makes, not a step of `loop()`. -/
def LoopLabel.isCall : LoopLabel φ → Bool
  | .loop | .advance _ => false
  | _ => true

namespace EventLoop

variable {s t : EventLoop φ} {l : LoopLabel φ}

theorem step_call_phase (hc : l.isCall = true) (hs : s.step l = .ok t) : t.phase = s.phase := by
  cases l with
  | loop => cases hc
  | advance wakeup => cases hc
  | _ =>
    cases hs
    split <;> rfl

theorem advance_quit (wakeup : Bool) : (s.advance wakeup).quit = s.quit := by
  unfold EventLoop.advance
  split
  case h_2 => unfold EventLoop.test; split <;> rfl
  all_goals rfl

theorem step_quit (hl : l ≠ .loop) (hs : s.step l = .ok t) (hq : s.quit = true) : t.quit = true := by
  cases l with
  | loop => exact absurd rfl hl
  | quit thread =>
    cases hs
    split
    · rfl
    · exact hq
  | advance wakeup =>
    cases hs
    split
    · exact hq
    · exact (advance_quit wakeup).trans hq
  | _ =>
    cases hs
    split <;> exact hq

end EventLoop

namespace EventLoopThread

variable {s t : EventLoopThread φ}

/-- What a step can do. -/
inductive Moves (s : EventLoopThread φ) : EventLoopThread φ → Prop
  | owner (o : OwnerPhase) (h : o = s.owner ∨ o ≠ .constructed) : Moves s { s with owner := o }
  | startLoop (h : s.owner = .constructed) : Moves s { s with owner := .waiting, thread := .callback }
  | dtorQuit : Moves s { s with owner := .joining, loop := s.loop.setQuit s.ownerId }
  | publish (h : s.thread = .callback) : Moves s { s with thread := .published, loop_ := true }
  | enterLoop {loop : EventLoop φ} (h : s.thread = .published) (hl : s.loop.loop = .ok loop) :
      Moves s { s with loop, thread := .looping }
  | clear (h : s.thread = .returned) : Moves s { s with thread := .exited, loop_ := false }
  | advance {loop : EventLoop φ} {wakeup : Bool} (h : s.thread = .looping)
      (hl : s.loop.step (.advance wakeup) = .ok loop) :
      Moves s { s with loop, thread := if loop.phase.inLoop then .looping else .returned }
  | call {loop : EventLoop φ} {l : LoopLabel φ} (hc : l.isCall = true) (hl : s.loop.step l = .ok loop) :
      Moves s { s with loop }

theorem Moves.idle : Moves s s := .owner s.owner (.inl rfl)

theorem Moves.ite {c : Prop} [Decidable c] (h : c → Moves s t) : Moves s (if c then t else s) := by
  split
  · exact h ‹c›
  · exact .idle

theorem Moves.of_call {l : LoopLabel φ} (hc : l.isCall = true) {c : Prop} [Decidable c]
    (hs : (if c then s.call l else pure s) = .ok t) : Moves s t := by
  refine ite_pure_inv (fun _ hs => ?_) .idle hs
  obtain ⟨loop, hl, hs⟩ := bind_ok.mp hs
  cases hs
  exact .call hc hl

theorem step_moves {l : ThreadLabel φ} (hs : s.step l = .ok t) : Moves s t := by
  cases l with
  | startLoop =>
    cases hs
    exact .ite .startLoop
  | startLoopReturns =>
    cases hs
    exact .ite fun _ => .owner .started (.inr (by simp))
  | dtor =>
    cases hs
    refine .ite fun _ => .owner _ (.inr ?_)
    split <;> simp
  | dtorQuit =>
    refine ite_pure_inv (fun _ hs => ?_) .idle hs
    obtain ⟨_, -, hs⟩ := bind_ok.mp hs
    cases hs
    exact .dtorQuit
  | join =>
    cases hs
    exact .ite fun _ => .owner .destroyed (.inr (by simp))
  | publish =>
    cases hs
    exact .ite .publish
  | enterLoop =>
    refine ite_pure_inv (fun hp hs => ?_) .idle hs
    obtain ⟨loop, hl, hs⟩ := bind_ok.mp hs
    cases hs
    exact .enterLoop hp hl
  | clear =>
    cases hs
    exact .ite .clear
  | loop l =>
    cases l with
    | loop => cases hs; exact .idle
    | advance wakeup =>
      refine ite_pure_inv (fun hp hs => ?_) .idle hs
      obtain ⟨loop, hl, hs⟩ := bind_ok.mp hs
      cases hs
      exact .advance hp hl
    | queueInLoop thread cb => exact .of_call rfl hs
    | quit thread => exact .of_call rfl hs
    | wakeup thread => exact .of_call rfl hs

structure Inv (s : EventLoopThread φ) : Prop where
  loop : s.loop.Inv
  inLoop : s.loop.phase.inLoop = true → s.thread = .looping
  fresh : s.owner = .constructed → s.thread = .notStarted
  alive : s.loop_ = true → s.thread.alive = true

theorem Inv.outside (h : s.Inv) (hp : s.thread ≠ .looping) : s.loop.phase.inLoop = false :=
  Bool.eq_false_iff.mpr fun hl => hp (h.inLoop hl)

theorem Inv.not_fresh (h : s.Inv) (hp : s.thread ≠ .notStarted) : s.owner ≠ .constructed :=
  fun ho => hp (h.fresh ho)

theorem Inv.moves (h : s.Inv) (hm : Moves s t) : t.Inv := by
  cases hm with
  | owner o ho =>
    refine ⟨h.loop, h.inLoop, fun hc => ?_, h.alive⟩
    exact h.fresh ((ho.resolve_right fun hn => hn hc).symm.trans hc)
  | startLoop ho =>
    have hout := h.outside (by simp [h.fresh ho])
    exact ⟨h.loop, fun hl => absurd hl (by simp [hout]), fun hc => absurd hc (by simp), fun _ => rfl⟩
  | dtorQuit => exact ⟨⟨h.loop.looping, h.loop.fifo⟩, h.inLoop, fun hc => absurd hc (by simp), h.alive⟩
  | publish hp =>
    have hout := h.outside (by simp [hp])
    exact ⟨h.loop, fun hl => absurd hl (by simp [hout]), fun hc => absurd hc (h.not_fresh (by simp [hp])), fun _ => rfl⟩
  | enterLoop hp hl =>
    obtain ⟨loop, hl', hi⟩ := h.loop.loop (h.outside (by simp [hp]))
    rw [hl] at hl'
    cases hl'
    exact ⟨hi, fun _ => rfl, fun hc => absurd hc (h.not_fresh (by simp [hp])), fun _ => rfl⟩
  | clear hp =>
    have hout := h.outside (by simp [hp])
    exact ⟨h.loop, fun hl => absurd hl (by simp [hout]), fun hc => absurd hc (h.not_fresh (by simp [hp])),
      fun hl => by cases hl⟩
  | advance hp hl =>
    refine ⟨h.loop.of_step hl, fun hin => if_pos hin, fun hc => absurd hc (h.not_fresh (by simp [hp])), fun _ => ?_⟩
    dsimp only
    split <;> rfl
  | call hc hl =>
    refine ⟨h.loop.of_step hl, fun hin => h.inLoop ?_, h.fresh, h.alive⟩
    rw [← EventLoop.step_call_phase hc hl]
    exact hin

/-- After `loop()` has been entered nothing takes a request back. -/
theorem Moves.kept (hm : Moves s t) (h : s.Inv) (he : s.thread.entered = true) (hq : s.loop.quit = true) :
    t.thread.entered = true ∧ t.loop.quit = true := by
  cases hm with
  | owner o ho => exact ⟨he, hq⟩
  | startLoop ho =>
    rw [h.fresh ho] at he
    cases he
  | dtorQuit => exact ⟨he, rfl⟩
  | publish hp => rw [hp] at he; cases he
  | enterLoop hp hl => rw [hp] at he; cases he
  | clear hp => exact ⟨rfl, hq⟩
  | advance hp hl =>
    refine ⟨?_, EventLoop.step_quit (by simp) hl hq⟩
    dsimp only
    split <;> rfl
  | call hc hl => exact ⟨he, EventLoop.step_quit (by rintro rfl; cases hc) hl hq⟩

/-- The thread that has not entered `loop()` gets there, and takes the request back. -/
theorem Inv.lost (h : s.Inv) (hp : s.thread = .published) : ∃ t, s.step .enterLoop = .ok t ∧ t.loop.quit = false := by
  have hout := h.outside (by simp [hp])
  have hl : s.loop.looping = false := h.loop.looping.trans hout
  refine ⟨{ s with loop := { s.loop with looping := true, quit := false, phase := .test false }, thread := .looping },
    ?_, rfl⟩
  simp [EventLoopThread.step, hp, EventLoopThread.enterLoop, EventLoop.loop, hl]

theorem Inv.lost_later (h : s.Inv) (ha : s.thread.alive = true) (he : s.thread.entered = false) :
    ∃ later t, run EventLoopThread.step s later = .ok t ∧ t.loop.quit = false := by
  cases hp : s.thread with
  | published =>
    obtain ⟨t, ht, hq⟩ := h.lost hp
    exact ⟨[.enterLoop], t, (run_cons_ok _).mpr ⟨t, ht, rfl⟩, hq⟩
  | callback =>
    have hpub : s.step .publish = .ok { s with thread := .published, loop_ := true } := by
      simp [EventLoopThread.step, EventLoopThread.publish, hp]
    obtain ⟨t, ht, hq⟩ := (h.moves (step_moves hpub)).lost rfl
    exact ⟨[.publish, .enterLoop], t, (run_cons_ok _).mpr ⟨_, hpub, (run_cons_ok _).mpr ⟨t, ht, rfl⟩⟩, hq⟩
  | _ => simp_all [ThreadPhase.alive, ThreadPhase.entered]

theorem quits_spec (h : s.Inv) {l : ThreadLabel φ} (hq : s.quits l = true) (hs : s.step l = .ok t) :
    s.thread.alive = true ∧ t.thread = s.thread ∧ t.loop.quit = true := by
  cases l with
  | dtorQuit =>
    simp only [quits, Bool.and_eq_true, decide_eq_true_eq] at hq
    obtain ⟨⟨ho, hc⟩, hl⟩ := hq
    simp only [EventLoopThread.step, ho, hc, EventLoopThread.dtorQuit, hl] at hs
    cases hs
    exact ⟨h.alive hl, rfl, rfl⟩
  | loop l =>
    cases l with
    | quit thread =>
      change s.calls thread = true at hq
      change (if s.calls thread = true then s.call (.quit thread) else pure s) = .ok t at hs
      rw [if_pos hq] at hs
      simp only [EventLoopThread.calls, Bool.and_eq_true] at hq
      obtain ⟨⟨ha, hloop⟩, -⟩ := hq
      rw [EventLoopThread.call, EventLoop.step, if_pos hloop] at hs
      cases hs
      exact ⟨ha, rfl, rfl⟩
    | _ => cases hq
  | _ => cases hq

end EventLoopThread

/-- A `quit()` that a run executes stays in force in all that can follow, exactly when
`threadFunc` has entered `loop()` before it; that `startLoop` has returned is not enough. -/
theorem quit_kept_iff_loop_entered (ownerId threadId : Nat) (ls : List (ThreadLabel φ)) (s t : EventLoopThread φ)
    (l : ThreadLabel φ) (hs : run EventLoopThread.step { ownerId, loop := { threadId } } ls = .ok s)
    (hq : s.quits l = true) (ht : s.step l = .ok t) :
    (∀ later v, run EventLoopThread.step t later = .ok v → v.loop.quit = true) ↔ s.thread.entered = true := by
  have hinit : EventLoopThread.Inv ({ ownerId, loop := { threadId } } : EventLoopThread φ) :=
    ⟨⟨rfl, rfl⟩, fun h => absurd h (by simp [LoopPhase.inLoop]), fun _ => rfl, fun h => absurd h (by simp)⟩
  have hi : s.Inv := run_inv (fun _ _ _ h hs => h.moves (EventLoopThread.step_moves hs)) hinit hs
  have hit : t.Inv := hi.moves (EventLoopThread.step_moves ht)
  obtain ⟨ha, hth, hquit⟩ := EventLoopThread.quits_spec hi hq ht
  constructor
  · intro hkept
    by_contra he
    rw [Bool.not_eq_true, ← hth] at he
    obtain ⟨later, v, hv, hlost⟩ := hit.lost_later (hth ▸ ha) he
    rw [hkept later v hv] at hlost
    cases hlost
  · intro he later v hv
    have hkept : v.Inv ∧ v.thread.entered = true ∧ v.loop.quit = true := by
      refine run_inv (I := fun v => v.Inv ∧ v.thread.entered = true ∧ v.loop.quit = true) ?_ ⟨hit, hth ▸ he, hquit⟩ hv
      intro v l w hv hw
      have hm := EventLoopThread.step_moves hw
      exact ⟨hv.1.moves hm, hm.kept hv.1 hv.2.1 hv.2.2⟩
    exact hkept.2.2

theorem quit_kept_in_loop :
    ∃ s t : EventLoopThread Unit,
      run EventLoopThread.step { ownerId := 1, loop := { threadId := 2 } }
        [.startLoop, .publish, .startLoopReturns, .enterLoop, .dtor] = .ok s ∧
      s.quits .dtorQuit = true ∧ s.step .dtorQuit = .ok t ∧
      ∀ later v, run EventLoopThread.step t later = .ok v → v.loop.quit = true := by
  have hs : run EventLoopThread.step ({ ownerId := 1, loop := { threadId := 2 } } : EventLoopThread Unit)
      [.startLoop, .publish, .startLoopReturns, .enterLoop, .dtor] =
        .ok { ownerId := 1, owner := .quitting, thread := .looping, loop_ := true
              loop := { threadId := 2, looping := true, phase := .test false } } := by decide
  exact ⟨_, _, hs, by decide, rfl, (quit_kept_iff_loop_entered 1 2 _ _ _ .dtorQuit hs (by decide) rfl).mpr rfl⟩

/-- `startLoop` returns, the owner is destroyed and calls `quit()`, and only then `loop()` is
entered: it goes to `poll`, and the owner joins a thread that has not seen the request. -/
theorem quit_lost_before_loop :
    run EventLoopThread.step ({ ownerId := 1, loop := { threadId := 2 } } : EventLoopThread Unit)
      [.startLoop, .publish, .startLoopReturns, .dtor, .dtorQuit, .loop (.wakeup 1), .enterLoop, .loop (.advance true),
        .loop (.advance true), .loop (.advance true), .loop (.advance true), .loop (.advance true),
        .loop (.advance true), .loop (.advance true)] =
      .ok { ownerId := 1, owner := .joining, thread := .looping, loop_ := true
            loop := { threadId := 2, looping := true, quit := false, phase := .poll } } := by
  decide

end Zhengqi
