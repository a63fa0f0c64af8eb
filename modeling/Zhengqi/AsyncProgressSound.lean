import Zhengqi.AsyncStopSound

/-!
# The back end catches up

`threadFunc` comes to the condition of its loop again in a number of steps that the buffers bound, and an iteration
that begins there takes all that the front end has. So when nothing is appended for a while, everything is written
or reported as dropped.
-/

namespace Zhengqi

open Run

namespace AsyncLogging

variable {w v : AsyncLogging} {now : Bytes}

/-- The number of steps to the end of the iteration. -/
def distance (w : AsyncLogging) : Nat :=
  let size := w.thread.buffersToWrite.length
  match w.thread.pc with
  | .loop | .done => 0
  | .lock => w.buffers.length + 9
  | .wait => w.buffers.length + 8
  | .drop => size + 6
  | .write i => size - i + 5
  | .resize => 4
  | .refill1 => 3
  | .refill2 => 2
  | .clear => 1

theorem distance_take (w : AsyncLogging) : w.take.distance = w.buffers.length + 7 ∧ w.take.thread.pc = .drop := by
  simp [take, distance]

/-- Every step but the first one of an iteration comes nearer to its end. -/
theorem distance_lt (hv : w.threadFunc now = .ok v) (h : w.distance ≠ 0) :
    v.distance < w.distance ∧ v.thread.pc ≠ .done := by
  obtain ⟨htake, hdrop⟩ := w.distance_take
  unfold AsyncLogging.threadFunc at hv
  cases hpc : w.thread.pc with
  | loop => simp [distance, hpc] at h
  | done => simp [distance, hpc] at h
  | lock =>
    simp only [hpc] at hv
    split at hv <;> cases hv
    · simp [distance, hpc]
    · rw [htake, hdrop]
      simp [distance, hpc]
  | wait =>
    simp only [hpc] at hv
    cases hv
    rw [htake, hdrop]
    simp [distance, hpc]
  | drop =>
    simp only [hpc] at hv
    obtain ⟨-, -, hv⟩ := bind_ok.mp hv
    split at hv <;> cases hv
    · simp only [distance, hpc, List.length_take, ne_eq, reduceCtorEq, not_false_eq_true, and_true]
      omega
    · simp [distance, hpc]
  | write i =>
    simp only [hpc] at hv
    split at hv
    · rename_i p hi
      obtain ⟨b, -, hv⟩ := bind_ok.mp hv
      cases hv
      have hlt := (List.getElem?_eq_some_iff.mp hi).1
      simp only [distance, hpc, ne_eq, reduceCtorEq, not_false_eq_true, and_true]
      omega
    · cases hv
      simp [distance, hpc]
  | resize =>
    simp only [hpc] at hv
    cases hv
    simp [distance, hpc]
  | refill1 =>
    simp only [hpc] at hv
    obtain ⟨x, -, hv⟩ := bind_ok.mp hv
    cases hv
    simp [distance, hpc]
  | refill2 =>
    simp only [hpc] at hv
    obtain ⟨x, -, hv⟩ := bind_ok.mp hv
    cases hv
    simp [distance, hpc]
  | clear =>
    simp only [hpc] at hv
    cases hv
    simp [distance, hpc]

/-- The back end runs, and the front end has at most `n` full buffers. -/
structure Works (n : Nat) (w : AsyncLogging) : Prop where
  pool : Pool w
  running : w.running = true
  live : w.thread.pc ≠ .done
  buffers : w.buffers.length ≤ n

theorem Turn.buffers (ht : Turn w now v) (hp : Pool w) : v.buffers.length ≤ w.buffers.length := by
  cases ht with
  | takes ht hl =>
    obtain ⟨q, -, htake⟩ := hp.take_eq ht
    rw [htake]
    exact Nat.zero_le _
  | _ => exact Nat.le_refl _

/-- The iteration comes to its end, and keeps what its steps keep. -/
theorem Works.iterate {n : Nat} {J : AsyncLogging → Prop} (hJ : ∀ w v, Pool w → J w → Turn w now v → J v)
    (h : Works n w) (hj : J w) :
    ∃ k ≤ w.distance, ∃ v, run step w (List.replicate k (.threadFunc now)) = .ok v ∧ Works n v ∧ J v ∧
      v.thread.pc = .loop := by
  have hstep : ∀ w, Works n w ∧ J w → w.distance ≠ 0 →
      ∃ v, w.step (.threadFunc now) = .ok v ∧ (Works n v ∧ J v) ∧ v.distance < w.distance := by
    rintro w ⟨h, hj⟩ hne
    obtain ⟨v, hv, hpv, ht⟩ := h.pool.acts now
    obtain ⟨hlt, hlive⟩ := distance_lt hv hne
    exact ⟨v, hv, ⟨⟨hpv, ht.running.trans h.running, hlive, Nat.le_trans (ht.buffers h.pool) h.buffers⟩,
      hJ w v h.pool hj ht⟩, hlt⟩
  obtain ⟨k, hk, v, hv, ⟨hwv, hjv⟩, hz⟩ := run_replicate_reaches hstep ⟨h, hj⟩
  refine ⟨k, hk, v, hv, hwv, hjv, ?_⟩
  unfold distance at hz
  cases hpc : v.thread.pc with
  | loop => rfl
  | done => exact absurd hpc hwv.live
  | _ => simp [hpc] at hz

theorem lock_of_loop (hv : w.threadFunc now = .ok v) (hpc : w.thread.pc = .loop) (hr : w.running = true) :
    v.thread.pc = .lock := by
  unfold AsyncLogging.threadFunc at hv
  simp only [hpc, if_pos hr] at hv
  obtain ⟨-, -, hv⟩ := bind_ok.mp hv
  obtain ⟨-, -, hv⟩ := bind_ok.mp hv
  obtain ⟨-, -, hv⟩ := bind_ok.mp hv
  cases hv
  rfl

/-- `threadFunc` returns only after `stop`. -/
theorem live_of_run {ls : List Label} (hw : run step {} ls = .ok w) (hr : w.running = true) : w.thread.pc ≠ .done := by
  have hinv : Pool w ∧ (w.running = true → w.thread.pc ≠ .done) := by
    refine run_inv (I := fun w => Pool w ∧ (w.running = true → w.thread.pc ≠ .done)) ?_ ⟨pool_start, nofun⟩ hw
    rintro w l v ⟨hp, hlive⟩ hv
    obtain ⟨v', hv', hpv⟩ := hp.total l
    obtain rfl : v' = v := Except.ok.inj (hv'.symm.trans hv)
    refine ⟨hpv, fun hr => ?_⟩
    cases l with
    | append line =>
      obtain ⟨u, hu, -, ha⟩ := hp.append line
      obtain rfl : u = v' := Except.ok.inj (hu.symm.trans hv)
      rw [ha.thread]
      exact hlive (ha.running ▸ hr)
    | stop =>
      cases hv
      cases hr
    | threadFunc now =>
      rw [hp.running hv] at hr
      by_cases hz : w.distance = 0
      · unfold distance at hz
        cases hpc : w.thread.pc with
        | loop =>
          rw [lock_of_loop hv hpc hr]
          nofun
        | done => exact absurd hpc (hlive hr)
        | _ => simp [hpc] at hz
      · exact (distance_lt hv hz).2
  exact hinv.2 hr

theorem Works.enter {n : Nat} (h : Works n w) (hpc : w.thread.pc = .loop) (now : Bytes) :
    ∃ v, w.step (.threadFunc now) = .ok v ∧ Works n v ∧ v.thread.pc = .lock := by
  obtain ⟨v, hv, hpv, ht⟩ := h.pool.acts now
  have hlock := lock_of_loop hv hpc h.running
  refine ⟨v, hv, ⟨hpv, ht.running.trans h.running, ?_, Nat.le_trans (ht.buffers h.pool) h.buffers⟩, hlock⟩
  rw [hlock]
  nofun

theorem settled_iff : Settled w ↔ w.thread.pc.locking = true ∨ w.front = [] := by
  unfold Settled
  cases w.thread.pc <;> simp [Pc.locking]

/-- The critical section comes before the end of the iteration. -/
theorem Turn.settled (hp : Pool w) (h : Settled w) (ht : Turn w now v) : Settled v := by
  rw [settled_iff] at h ⊢
  obtain ⟨-, ⟨hf, hl⟩ | ⟨-, hf⟩⟩ := ht.front hp
  · rcases h with h | h
    · left
      rcases hl with hl | ⟨-, hl⟩
      · exact hl.trans h
      · rw [h] at hl
        cases hl
    · exact .inr (hf.trans h)
  · exact .inr hf

/-- From every state that can be reached while the back end is not stopped, so many steps of `threadFunc` alone, as
the buffers allow, leave nothing in memory: every line that was stored is in a buffer that was written or reported
as dropped. -/
theorem back_end_catches_up (ls : List Label) (hw : run step {} ls = .ok w) (hr : w.running = true) (now : Bytes) :
    ∃ k ≤ w.thread.buffersToWrite.length + 2 * w.buffers.length + 19, ∃ v,
      run step w (List.replicate k (.threadFunc now)) = .ok v ∧
      v.output = (records {} (ls ++ List.replicate k (.threadFunc now))).flatMap Record.output ∧
      (records {} (ls ++ List.replicate k (.threadFunc now))).flatMap Record.lines = ls.flatMap Label.stored := by
  have hworks : Works w.buffers.length w := ⟨pool_of_run hw, hr, live_of_run hw hr, Nat.le_refl _⟩
  -- the rest of this iteration, and the next one
  have hany : ∀ w v, Pool w → True → Turn w now v → True := fun _ _ _ _ _ => trivial
  obtain ⟨k₁, hk₁, v₁, hv₁, hworks₁, -, hpc₁⟩ := hworks.iterate hany trivial
  obtain ⟨v₂, hv₂, hworks₂, hpc₂⟩ := hworks₁.enter hpc₁ now
  obtain ⟨k₃, hk₃, v, hv₃, hworks₃, hsettled, hpc⟩ :=
    hworks₂.iterate (J := Settled) (fun w v hp h ht => ht.settled hp h)
    (.inl hpc₂)
  have hrun : run step w (List.replicate (k₁ + (k₃ + 1)) (.threadFunc now)) = .ok v := by
    rw [List.replicate_add, List.replicate_succ]
    exact (run_append_ok step).mpr ⟨v₁, hv₁, (run_cons_ok step).mpr ⟨v₂, hv₂, hv₃⟩⟩
  refine ⟨k₁ + (k₃ + 1), ?_, v, hrun, ?_⟩
  · have hd₁ : w.distance ≤ w.thread.buffersToWrite.length + w.buffers.length + 9 := by
      unfold distance
      dsimp only
      split <;> omega
    have hd₂ : v₂.distance ≤ w.buffers.length + 9 := by
      have := hworks₂.buffers
      simp only [distance, hpc₂]
      omega
    omega
  · have hstart : Accounts {} [] [] := ⟨rfl, rfl⟩
    obtain ⟨v', hv', -, ha, -⟩ := run_accounts (I := fun _ _ _ => True) (fun _ _ _ _ _ _ _ _ _ => trivial)
      (ls ++ List.replicate (k₁ + (k₃ + 1)) (.threadFunc now)) pool_start hstart trivial
    obtain rfl : v' = v := Except.ok.inj (hv'.symm.trans ((run_append_ok step).mpr ⟨w, hw, hrun⟩))
    have hwriting : v'.thread.pc.writing = false := by rw [hpc]; rfl
    have hfront : v'.front = [] := by
      rcases settled_iff.mp hsettled with h | h
      · rw [hpc] at h
        cases h
      · exact h
    have hstored : (List.replicate (k₁ + (k₃ + 1)) (Label.threadFunc now)).flatMap Label.stored = [] := by
      refine List.flatMap_eq_nil_iff.mpr fun l hl => ?_
      rw [List.eq_of_mem_replicate hl]
      rfl
    have hout := ha.output
    have hlines := ha.lines
    rw [Locals.kept_of hwriting, contents_nil, List.append_nil] at hout
    rw [gone, Locals.taken_of hwriting, hfront, contents_nil, List.append_nil, List.append_nil, List.nil_append,
      List.nil_append, List.flatMap_append, hstored, List.append_nil] at hlines
    exact ⟨hout.symm, hlines⟩

theorem back_end_catches_up_one : ∃ w, run step {} [.append (ascii "a\n")] = .ok w ∧
    ∃ k ≤ 20, ∃ v, run step w (List.replicate k (.threadFunc [])) = .ok v ∧
      (records {} ([.append (ascii "a\n")] ++ List.replicate k (.threadFunc []))).flatMap Record.lines =
        ascii "a\n" := by
  obtain ⟨w, hw, he⟩ := ok_of_map (show (run step {} [.append (ascii "a\n")]).map
    (fun w => (w.running, w.thread.buffersToWrite.length, w.buffers.length)) = .ok (true, 0, 0) by decide +kernel)
  rw [Prod.mk.injEq, Prod.mk.injEq] at he
  obtain ⟨k, hk, v, hv, -, hlines⟩ := back_end_catches_up _ hw he.1 []
  refine ⟨w, hw, k, by omega, v, hv, hlines.trans (by decide +kernel)⟩

end AsyncLogging

end Zhengqi
