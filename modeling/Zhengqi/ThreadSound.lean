import Zhengqi.Thread
import Zhengqi.CountDownLatchSound

/-!
# Starting a thread

The new thread uses the `Thread` only before it is through with `latch_`, and the owner comes out of `start`
only afterwards. So the owner finds `tid_` set, and may destroy the `Thread` at once.
-/

namespace Zhengqi

open Run

theorem CountDownLatch.left_next_of_ne {l : CountDownLatch} {t u : Nat} (hu : u ≠ t) :
    (l.next t).left u = l.left u := by
  cases hp : l.pc t with
  | decrement => simp only [next, hp, Function.update_of_ne hu]
  | _ =>
    simp only [next, hp] <;> first | rfl | (split <;> rfl)

/-- Before `runInThread` has called `countDown`. -/
def ChildPc.before : ChildPc → Bool
  | .unborn | .writeTid | .callCountDown => true
  | _ => false

def ChildPc.wroteTid : ChildPc → Bool
  | .unborn | .writeTid => false
  | _ => true

theorem ChildPc.wroteTid_of_before {c : ChildPc} (h : c.before = false) : c.wroteTid = true := by
  cases c <;> first | rfl | cases h

namespace Thread

variable {owner tid : Nat} {th th' : Thread}

structure Sound (owner tid : Nat) (th : Thread) : Prop where
  latch : CountDownLatch.Sound {owner, tid} th.latch
  alive : th.latch.alive = th.alive
  wroteTid : th.child.wroteTid = true → th.tid = tid
  before : th.child.before = true → th.latch.left tid = 1 ∧ th.latch.pc tid = .out
  -- The new thread waits nowhere
  child : (th.latch.pc tid).inWait = false
  fresh : th.started = true ∨ th.child = .unborn ∧ th.latch.pc owner = .out
  waiting : th.owner = .waiting → th.alive = true ∧ ((th.latch.pc owner).inWait = true ∨ owner ∈ th.latch.returned)
  returned : th.started = true → th.owner ≠ .waiting → owner ∈ th.latch.returned ∧ th.latch.pc owner = .out

namespace Sound

theorem new (owner tid : Nat) : Sound owner tid (Thread.new tid) :=
  ⟨.start (by simp), rfl, nofun, fun _ => ⟨if_pos rfl, rfl⟩, rfl, .inr ⟨rfl, rfl⟩, nofun, nofun⟩

/-- Once the `wait` of the owner has returned, the new thread is through with the latch. -/
theorem countDown_over (h : Sound owner tid th) (hr : owner ∈ th.latch.returned) :
    th.child.before = false ∧ th.latch.pc tid = .out := by
  obtain ⟨hc, hcd⟩ := h.latch.passed (.inr (List.ne_nil_of_mem hr))
  have hleft := h.latch.left_eq_zero (t := tid) (by omega) (by simp)
  refine ⟨?_, LatchPc.eq_out h.child (hcd tid)⟩
  rw [Bool.eq_false_iff]
  intro hb
  have hone := (h.before hb).1
  omega

theorem out_of_not_waiting (h : Sound owner tid th) (hw : th.owner ≠ .waiting) (t : Nat) : th.latch.pc t = .out := by
  by_cases ht : t ∈ ({owner, tid} : Finset Nat)
  · rw [Finset.mem_insert, Finset.mem_singleton] at ht
    rcases h.fresh with hs | ⟨hchild, hout⟩
    · obtain ⟨hr, hout⟩ := h.returned hs hw
      rcases ht with rfl | rfl
      · exact hout
      · exact (h.countDown_over hr).2
    · rcases ht with rfl | rfl
      · exact hout
      · exact (h.before (by rw [hchild]; rfl)).2
  · exact h.latch.away t ht

theorem started (h : Sound owner tid th) (hu : th.child ≠ .unborn) : th.started = true := by
  rcases h.fresh with hs | ⟨hchild, -⟩
  · exact hs
  · exact absurd hchild hu

/-- The `Thread` is there as long as the new thread may use it. -/
theorem alive_of_before (h : Sound owner tid th) (hb : th.child.before = true) (hu : th.child ≠ .unborn) :
    th.alive = true := by
  by_cases hw : th.owner = .waiting
  · exact (h.waiting hw).1
  · have hn := (h.countDown_over (h.returned (h.started hu) hw).1).1
    rw [hb] at hn
    cases hn

/-- Something happens in the latch, on which the new thread has not counted yet. -/
theorem of_latch {l : CountDownLatch} (h : Sound owner tid th) (hl : CountDownLatch.Sound {owner, tid} l)
    (ha : l.alive = th.latch.alive) (hout : ∀ u, th.latch.pc u = .out → l.pc u = .out)
    (hleft : th.child.before = true → l.left tid = th.latch.left tid)
    (hin : ∀ u, (l.pc u).inWait = (th.latch.pc u).inWait ∨ u ∈ l.returned ∧ (l.pc u).inWait = false)
    (hret : ∀ u ∈ th.latch.returned, u ∈ l.returned) : Sound owner tid { th with latch := l } := by
  refine ⟨hl, ha.trans h.alive, h.wroteTid, ?_, ?_, ?_, ?_, ?_⟩
  · intro hb
    obtain ⟨hone, hpc⟩ := h.before hb
    exact ⟨(hleft hb).trans hone, hout tid hpc⟩
  · rcases hin tid with hn | ⟨-, hn⟩
    · exact hn.trans h.child
    · exact hn
  · exact h.fresh.imp_right fun ⟨hchild, hpc⟩ => ⟨hchild, hout owner hpc⟩
  · intro hw
    obtain ⟨halive, hw⟩ := h.waiting hw
    refine ⟨halive, ?_⟩
    rcases hw with hw | hr
    · rcases hin owner with hn | ⟨hr, -⟩
      · exact .inl (hn.trans hw)
      · exact .inr hr
    · exact .inr (hret owner hr)
  · intro hs hw
    obtain ⟨hr, hpc⟩ := h.returned hs hw
    exact ⟨hret owner hr, hout owner hpc⟩

theorem next (h : Sound owner tid th) {t : Nat} (ht : t ∈ ({owner, tid} : Finset Nat)) (ha : th.alive = true)
    (hleft : th.child.before = true → t ≠ tid) : Sound owner tid { th with latch := th.latch.next t } := by
  refine h.of_latch (h.latch.next ht (h.alive.trans ha)) (CountDownLatch.alive_next ..) (fun u hu => ?_)
    (fun hb => CountDownLatch.left_next_of_ne (hleft hb).symm) (CountDownLatch.next_inWait _ _)
    fun u => CountDownLatch.returned_next
  by_cases hut : u = t
  · rw [← hut]
    simp only [CountDownLatch.next, hu]
  · rcases CountDownLatch.next_pc_of_ne (l := th.latch) hut with hn | ⟨hb, -⟩
    · exact hn.trans hu
    · rw [hu] at hb
      cases hb

theorem wake (h : Sound owner tid th) (hp : th.latch.pc owner = .blocked) (ha : th.alive = true) :
    Sound owner tid { th with latch := th.latch.goto owner .wakened } := by
  have hmem : owner ∈ ({owner, tid} : Finset Nat) := Finset.mem_insert_self ..
  refine h.of_latch (h.latch.wake hp hmem (h.alive.trans ha)) rfl (fun u hu => ?_) (fun _ => rfl) (fun u => .inl ?_)
    fun u hu => hu
  · have hne : u ≠ owner := fun he => by rw [he, hp] at hu; cases hu
    exact (Function.update_of_ne hne ..).trans hu
  · by_cases hu : u = owner
    · rw [hu, hp, show (th.latch.goto owner .wakened).pc owner = .wakened from Function.update_self ..]
      rfl
    · rw [show (th.latch.goto owner .wakened).pc u = th.latch.pc u from Function.update_of_ne hu ..]

theorem latchStep (h : Sound owner tid th) {t : Nat}
    (ht : t = owner ∧ th.owner = .waiting ∨ t = tid ∧ th.child = .countDown)
    (hne : owner ≠ tid) : ∃ th', th.latchStep owner tid (.next t) = .ok th' ∧ Sound owner tid th' := by
  have hmem : t ∈ ({owner, tid} : Finset Nat) := by
    rw [Finset.mem_insert, Finset.mem_singleton]
    exact ht.imp And.left And.left
  unfold Thread.latchStep CountDownLatch.step
  by_cases hp : th.latch.pc t = .out
  · rw [if_neg (by simp [CountDownLatch.possible, hp])]
    exact ⟨th, rfl, h⟩
  · have ha : th.latch.alive = true := by
      rw [← Bool.not_eq_false]
      exact fun hd => hp (h.latch.dead hd t)
    rw [if_pos (by simp [CountDownLatch.possible, hp, hmem]), CountDownLatch.act, if_pos ha]
    refine ⟨_, rfl, h.next hmem (h.alive.symm.trans ha) fun hb ht' => ?_⟩
    rcases ht with ⟨ht, -⟩ | ⟨-, hchild⟩
    · exact hne (ht.symm.trans ht')
    · rw [hchild] at hb
      cases hb

theorem latchWake (h : Sound owner tid th) :
    ∃ th', th.latchStep owner tid (.wake owner) = .ok th' ∧ Sound owner tid th' := by
  unfold Thread.latchStep CountDownLatch.step
  by_cases hp : th.latch.pc owner = .blocked
  · have ha : th.latch.alive = true := by
      rw [← Bool.not_eq_false]
      intro hd
      have ho := h.latch.dead hd owner
      rw [hp] at ho
      cases ho
    rw [if_pos (by simp [CountDownLatch.possible, hp]), CountDownLatch.act, if_pos ha]
    exact ⟨_, rfl, h.wake hp (h.alive.symm.trans ha)⟩
  · rw [if_neg (by simp [CountDownLatch.possible, hp])]
    exact ⟨th, rfl, h⟩

theorem start (h : Sound owner tid th) (hne : owner ≠ tid) (ha : th.alive = true) (created : Bool) :
    th.start owner tid created = .error .start ∨ ∃ th', th.start owner tid created = .ok th' ∧ Sound owner tid th' := by
  unfold Thread.start
  rcases h.fresh with hs | ⟨hchild, hpc⟩
  · exact .inl (if_pos hs)
  · obtain ⟨hone, hout⟩ := h.before (by rw [hchild]; rfl)
    by_cases hs : th.started = true
    · exact .inl (if_pos hs)
    · rw [if_neg hs]
      refine .inr ?_
      cases created with
      | false => exact ⟨_, rfl, h.latch, h.alive, h.wroteTid, h.before, h.child, .inr ⟨hchild, hpc⟩, h.waiting, nofun⟩
      | true =>
        have hmem : owner ∈ ({owner, tid} : Finset Nat) := Finset.mem_insert_self ..
        have hal := h.alive.trans ha
        have hcall := h.latch.call (c := .wait) hpc hmem hal (.inl rfl)
        have hself : (th.latch.goto owner (.lock .wait)).pc owner = .lock .wait := Function.update_self ..
        have hother : (th.latch.goto owner (.lock .wait)).pc tid = .out :=
          (Function.update_of_ne hne.symm ..).trans hout
        refine ⟨{ th with
            started := true, owner := .waiting, child := .writeTid
            latch := th.latch.goto owner (.lock .wait) }, ?_,
          hcall, h.alive, nofun, fun _ => ⟨hone, hother⟩, ?_, .inl rfl, fun _ => ⟨ha, .inl ?_⟩,
          fun _ hw => absurd rfl hw⟩
        · simp [Thread.latchStep, CountDownLatch.step, CountDownLatch.possible, CountDownLatch.act, hpc, hal]
        · rw [hother]; rfl
        · rw [hself]; rfl

/-- `latch_->countDown()` is called. -/
theorem callCountDown (h : Sound owner tid th) (hne : owner ≠ tid) (hc : th.child = .callCountDown)
    (ha : th.alive = true) :
    ∃ th', { th with child := .countDown }.latchStep owner tid (.call tid .countDown) = .ok th' ∧
      Sound owner tid th' := by
  have hs := h.started (by rw [hc]; nofun)
  obtain ⟨hone, hpc⟩ := h.before (by rw [hc]; rfl)
  have hmem : tid ∈ ({owner, tid} : Finset Nat) := by simp
  have hal := h.alive.trans ha
  have hcall := h.latch.call (c := .countDown) hpc hmem hal (.inr (by omega))
  have hself : (th.latch.goto tid (.lock .countDown)).pc tid = .lock .countDown := Function.update_self ..
  have hother : (th.latch.goto tid (.lock .countDown)).pc owner = th.latch.pc owner := Function.update_of_ne hne ..
  refine ⟨{ th with child := .countDown, latch := th.latch.goto tid (.lock .countDown) }, ?_, hcall, h.alive,
    fun _ => h.wroteTid (by rw [hc]; rfl), nofun, ?_, .inl hs, ?_, ?_⟩
  · simp [Thread.latchStep, CountDownLatch.step, CountDownLatch.possible, CountDownLatch.act, hpc, hal, hone]
  · rw [hself]; rfl
  · rw [hother]
    exact h.waiting
  · rw [hother]
    exact h.returned

theorem runInThread (h : Sound owner tid th) (hne : owner ≠ tid) :
    ∃ th', th.runInThread owner tid = .ok th' ∧ Sound owner tid th' := by
  unfold Thread.runInThread
  cases hc : th.child with
  | unborn => exact ⟨th, rfl, h⟩
  | finished => exact ⟨th, rfl, h⟩
  | writeTid =>
    have ha := h.alive_of_before (by rw [hc]; rfl) (by rw [hc]; nofun)
    have hs := h.started (by rw [hc]; nofun)
    exact ⟨_, if_pos ha, h.latch, h.alive, fun _ => rfl, fun _ => h.before (by rw [hc]; rfl), h.child,
      .inl hs, h.waiting, h.returned⟩
  | callCountDown =>
    have ha := h.alive_of_before (by rw [hc]; rfl) (by rw [hc]; nofun)
    simp only [if_pos ha]
    exact h.callCountDown hne hc ha
  | countDown =>
    have hs := h.started (by rw [hc]; nofun)
    exact ⟨_, rfl, h.latch, h.alive, fun _ => h.wroteTid (by rw [hc]; rfl), nofun, h.child, .inl hs,
      h.waiting, h.returned⟩
  | func =>
    have hs := h.started (by rw [hc]; nofun)
    exact ⟨_, rfl, h.latch, h.alive, fun _ => h.wroteTid (by rw [hc]; rfl), nofun, h.child, .inl hs,
      h.waiting, h.returned⟩

theorem join (h : Sound owner tid th) (ho : th.owner = .outside) :
    th.join = .error .join ∨ ∃ th', th.join = .ok th' ∧ Sound owner tid th' := by
  unfold Thread.join
  split
  · have hr : th.started = true → owner ∈ th.latch.returned ∧ th.latch.pc owner = .out := fun hs =>
      h.returned hs (by rw [ho]; nofun)
    exact .inr ⟨_, rfl, h.latch, h.alive, h.wroteTid, h.before, h.child, h.fresh, nofun, fun hs _ => hr hs⟩
  · exact .inl rfl

theorem destroy (h : Sound owner tid th) (ho : th.owner = .outside) :
    ∃ th', th.destroy = .ok th' ∧ Sound owner tid th' := by
  have hout := h.out_of_not_waiting (by rw [ho]; nofun)
  refine ⟨{ th with latch := { th.latch with alive := false }, alive := false }, ?_,
    h.latch.destroy hout, rfl, h.wroteTid, h.before, h.child, h.fresh, fun hw => ?_, h.returned⟩
  · simp only [Thread.destroy, CountDownLatch.act, if_pos (h.latch.mutex.holder_eq_zero hout), pure_eq_ok]
  · rw [show th.owner = .waiting from hw] at ho
    cases ho

theorem startReturns (h : Sound owner tid th) (h0 : 0 < tid) (ho : th.owner = .waiting)
    (hp : th.latch.pc owner = .out) :
    0 < th.tid ∧ Sound owner tid { th with owner := .outside } := by
  obtain ⟨-, hin | hr⟩ := h.waiting ho
  · rw [hp] at hin
    cases hin
  · have htid := h.wroteTid (ChildPc.wroteTid_of_before (h.countDown_over hr).1)
    exact ⟨by omega, h.latch, h.alive, h.wroteTid, h.before, h.child, h.fresh, nofun, fun _ _ => ⟨hr, hp⟩⟩

theorem step (h : Sound owner tid th) (hne : owner ≠ tid) (h0 : 0 < tid) (l : Label) :
    (∃ e, th.step owner tid l = .error e ∧ (e = .start ∨ e = .join)) ∨
      ∃ th', th.step owner tid l = .ok th' ∧ Sound owner tid th' := by
  unfold Thread.step
  split
  · rename_i hp
    cases l with
    | start created =>
      simp only [possible, Bool.and_eq_true, decide_eq_true_eq] at hp
      exact (h.start hne hp.1 created).imp_left fun he => ⟨_, he, .inl rfl⟩
    | next c =>
      refine .inr ?_
      cases c with
      | false => exact h.latchStep (.inl ⟨rfl, of_decide_eq_true hp⟩) hne
      | true => exact h.latchStep (.inr ⟨rfl, of_decide_eq_true hp⟩) hne
    | wake => exact .inr h.latchWake
    | startReturns =>
      simp only [possible, Bool.and_eq_true, decide_eq_true_eq] at hp
      obtain ⟨htid, hs⟩ := h.startReturns h0 hp.1 hp.2
      exact .inr ⟨_, if_pos htid, hs⟩
    | child => exact .inr (h.runInThread hne)
    | join =>
      simp only [possible, Bool.and_eq_true, decide_eq_true_eq] at hp
      exact (h.join hp.2).imp_left fun he => ⟨_, he, .inr rfl⟩
    | joinReturns =>
      simp only [possible, Bool.and_eq_true, decide_eq_true_eq] at hp
      have hr : th.started = true → owner ∈ th.latch.returned ∧ th.latch.pc owner = .out := fun hs =>
        h.returned hs (by rw [hp.1]; nofun)
      exact .inr ⟨_, rfl, h.latch, h.alive, h.wroteTid, h.before, h.child, h.fresh, nofun, fun hs _ => hr hs⟩
    | destroy =>
      simp only [possible, Bool.and_eq_true, decide_eq_true_eq] at hp
      exact .inr (h.destroy hp.2)
  · exact .inr ⟨th, rfl, h⟩

end Sound

/-- Whatever the two threads do, only a second `start` or a `join` out of turn stops them: the new thread never uses
a `Thread` that is gone. When `start` has returned, `tid_` is set and the new thread is through with the latch. -/
theorem thread_start_hands_over (owner tid : Nat) (hne : owner ≠ tid) (h0 : 0 < tid) (ls : List Label) :
    (∃ e, run (step owner tid) (new tid) ls = .error e ∧ (e = .start ∨ e = .join)) ∨
      ∃ th, run (step owner tid) (new tid) ls = .ok th ∧
        (th.started = true → th.owner ≠ .waiting →
          th.tid = tid ∧ th.child.before = false ∧ th.latch.pc tid = .out) := by
  refine (run_stops_or_inv (fun th l h => Sound.step h hne h0 l) (Sound.new owner tid)).imp_right ?_
  rintro ⟨th, hr, h⟩
  refine ⟨th, hr, fun hs hw => ?_⟩
  obtain ⟨hb, hpc⟩ := h.countDown_over (h.returned hs hw).1
  exact ⟨h.wroteTid (ChildPc.wroteTid_of_before hb), hb, hpc⟩

/-- The owner is woken up by the notification, returns from `start` and destroys the `Thread` while the new thread
is about to run its function. -/
def destroyAtOnce : List Label :=
  [.start true] ++ List.replicate 5 (.next false) ++ [.child, .child] ++ List.replicate 6 (.next true) ++
    List.replicate 5 (.next false) ++ [.startReturns, .destroy]

theorem thread_start_hands_over_destroy : ∃ th, run (step 1 2) (new 2) destroyAtOnce = .ok th ∧ th.alive = false ∧
    th.tid = 2 ∧ th.child = .countDown ∧ th.latch.pc 2 = .out := by
  obtain ⟨th, hth, h⟩ := ok_of_map (show (run (step 1 2) (new 2) destroyAtOnce).map
    (fun th => (th.alive, th.started, th.owner, th.child)) = .ok (false, true, .outside, .countDown) by decide +kernel)
  simp only [Prod.mk.injEq] at h
  obtain ⟨ha, hs, ho, hc⟩ := h
  rcases thread_start_hands_over 1 2 (by decide) (by decide) destroyAtOnce with ⟨e, he, -⟩ | ⟨th', hth', h⟩
  · rw [hth] at he
    cases he
  · rw [hth] at hth'
    cases hth'
    obtain ⟨htid, -, hpc⟩ := h hs (by rw [ho]; nofun)
    exact ⟨th, hth, ha, htid, hc, hpc⟩

end Thread

end Zhengqi
