import Mathlib.Data.List.Basic
import Mathlib.Tactic.Common

/-!
# Condition variables

The threads in the `wait` of a condition: those that have not been notified, those that have been and
have not come back yet, and those that woke up without a notification. `Covers c k` says that no
wake-up is lost: as long as a thread waits un-notified, `k` notified threads are on their way.
-/

namespace Monitor

structure Condition (τ : Type) where
  waiting : List τ := []
  notified : List τ := []
  woken : List τ := []
  deriving DecidableEq

namespace Condition

variable {τ : Type} {c : Condition τ} {k : Nat} {t : τ} {pick : τ → Bool}

def members (c : Condition τ) : List τ := c.waiting ++ (c.notified ++ c.woken)

def wait (c : Condition τ) (t : τ) : Condition τ := { c with waiting := c.waiting ++ [t] }

/-- The waiters that `pick` accepts are notified, or else the first one. -/
def notify (c : Condition τ) (pick : τ → Bool) : Condition τ :=
  match c.waiting with
  | [] => c
  | t :: ts =>
    if (t :: ts).any pick then
      { c with waiting := (t :: ts).filter (!pick ·), notified := c.notified ++ (t :: ts).filter pick }
    else { c with waiting := ts, notified := c.notified ++ [t] }

def notifyAll (c : Condition τ) : Condition τ := { c with waiting := [], notified := c.notified ++ c.waiting }

/-- A spurious wake-up of the first waiter that is meant by `p`. -/
def wake (c : Condition τ) (p : τ → Bool) : Condition τ :=
  match c.waiting.find? p with
  | some t => { c with waiting := c.waiting.eraseP p, woken := c.woken ++ [t] }
  | none => c

/-- A thread that was notified, or woke up, has the lock again. -/
def resume (c : Condition τ) (p : τ → Bool) : Option (τ × Condition τ) :=
  match c.notified.find? p with
  | some t => some (t, { c with notified := c.notified.eraseP p })
  | none =>
    match c.woken.find? p with
    | some t => some (t, { c with woken := c.woken.eraseP p })
    | none => none

theorem notify_of_nil (h : c.waiting = []) : c.notify pick = c := by
  rw [notify, h]

theorem wake_waiting {p : τ → Bool} (h : c.waiting = []) : (c.wake p).waiting = [] := by
  rw [wake, h, List.find?_nil]
  exact h

theorem resume_waiting {c' : Condition τ} {p : τ → Bool} (h : c.resume p = some (t, c')) : c'.waiting = c.waiting := by
  unfold resume at h
  split at h
  · cases h
    rfl
  · split at h
    · cases h
      rfl
    · cases h

/-! ## Wake-ups -/

def Covers (c : Condition τ) (k : Nat) : Prop := c.waiting ≠ [] → k ≤ c.notified.length

namespace Covers

theorem mono {j : Nat} (h : c.Covers k) (hj : j ≤ k) : c.Covers j := fun hw => Nat.le_trans hj (h hw)

theorem zero (c : Condition τ) : c.Covers 0 := fun _ => Nat.zero_le _

theorem empty (h : c.waiting = []) (k : Nat) : c.Covers k := fun hw => absurd h hw

theorem notify (h : c.Covers k) (pick : τ → Bool) : (c.notify pick).Covers (k + 1) := by
  unfold Condition.notify
  split
  · rename_i hnil
    exact empty hnil _
  · rename_i t ts hcons
    have hk := h (by rw [hcons]; exact List.cons_ne_nil t ts)
    split
    · rename_i hany
      have hpos : 0 < ((t :: ts).filter pick).length := by
        rw [List.length_filter_pos_iff]
        exact List.any_eq_true.1 hany
      intro _
      rw [List.length_append]
      omega
    · intro _
      rw [List.length_append, List.length_singleton]
      omega

theorem wake (h : c.Covers k) (p : τ → Bool) : (c.wake p).Covers k := by
  unfold Condition.wake
  split
  · intro hw
    exact h fun hnil => hw (by simp [hnil])
  · exact h

theorem resume {c' : Condition τ} {p : τ → Bool} (h : c.Covers k) (hc : c.resume p = some (t, c')) :
    c'.Covers (k - 1) := by
  unfold Condition.resume at hc
  split at hc
  · rename_i hfind
    cases hc
    intro hw
    have hk := h hw
    rw [List.length_eraseP_of_mem (List.mem_of_find?_eq_some hfind) (List.find?_some hfind)]
    omega
  · split at hc
    · cases hc
      exact h.mono (Nat.sub_le k 1)
    · cases hc

end Covers

/-! ## Members -/

theorem perm_eraseP {l : List τ} {p : τ → Bool} (h : l.find? p = some t) : l.Perm (t :: l.eraseP p) := by
  obtain ⟨hp, as, bs, rfl, has⟩ := List.find?_eq_some_iff_append.1 h
  rw [List.eraseP_append_right _ (by simpa using has), List.eraseP_cons_of_pos hp]
  exact List.perm_middle

theorem wait_perm (c : Condition τ) (t : τ) : (c.wait t).members.Perm (t :: c.members) := by
  unfold members wait
  rw [List.append_assoc]
  exact List.perm_middle

theorem wake_perm (c : Condition τ) (p : τ → Bool) : (c.wake p).members.Perm c.members := by
  unfold wake
  split
  · rename_i t hfind
    have hlast := List.perm_append_singleton t (c.waiting.eraseP p ++ (c.notified ++ c.woken))
    simp only [List.append_assoc] at hlast
    exact hlast.trans ((perm_eraseP hfind).symm.append_right _)
  · rfl

/-- Waiters become notified threads. -/
theorem shift_perm (as bs ns ws : List τ) : (as ++ ((ns ++ bs) ++ ws)).Perm ((as ++ bs) ++ (ns ++ ws)) := by
  rw [List.append_assoc as bs, ← List.append_assoc bs]
  exact (List.perm_append_comm.append_right ws).append_left as

theorem notify_perm (c : Condition τ) (pick : τ → Bool) : (c.notify pick).members.Perm c.members := by
  unfold notify
  split
  · rfl
  · rename_i t ts hcons
    unfold members
    rw [hcons]
    split
    · have hfilter := List.perm_append_comm.trans (List.filter_append_perm pick (t :: ts))
      exact (shift_perm ..).trans (hfilter.append_right _)
    · exact (shift_perm ..).trans ((List.perm_append_singleton t ts).append_right _)

theorem notifyAll_perm (c : Condition τ) : c.notifyAll.members.Perm c.members := shift_perm [] ..

theorem resume_perm {c' : Condition τ} {p : τ → Bool} (h : c.resume p = some (t, c')) :
    c.members.Perm (t :: c'.members) := by
  unfold resume at h
  split at h
  · rename_i hfind
    cases h
    exact (((perm_eraseP hfind).append_right c.woken).append_left c.waiting).trans List.perm_middle
  · split at h
    · rename_i hfind
      cases h
      have hperm := ((perm_eraseP hfind).append_left (c.waiting ++ c.notified)).trans List.perm_middle
      simpa only [members, List.append_assoc] using hperm
    · cases h

/-! ## Threads that are on their way back -/

def returning (c : Condition τ) : Nat := c.notified.length + c.woken.length

theorem returning_wait (c : Condition τ) (t : τ) : (c.wait t).returning = c.returning := rfl

theorem length_eraseP_find {l : List τ} {p : τ → Bool} (h : l.find? p = some t) :
    (l.eraseP p).length + 1 = l.length := by
  have hperm := (perm_eraseP h).length_eq
  rw [List.length_cons] at hperm
  exact hperm.symm

theorem returning_resume {c' : Condition τ} {p : τ → Bool} (h : c.resume p = some (t, c')) :
    c'.returning + 1 = c.returning := by
  unfold resume at h
  split at h
  · rename_i hfind
    cases h
    have hlen := length_eraseP_find hfind
    simp only [returning]
    omega
  · split at h
    · rename_i hfind
      cases h
      have hlen := length_eraseP_find hfind
      simp only [returning]
      omega
    · cases h

theorem exists_resume [BEq τ] [LawfulBEq τ] (h : c.returning ≠ 0) : ∃ t u c', c.resume (· == t) = some (u, c') := by
  unfold returning at h
  unfold resume
  cases hn : c.notified with
  | cons t ts => exact ⟨t, t, { c with notified := ts }, by simp⟩
  | nil =>
    cases hw : c.woken with
    | cons t ts => exact ⟨t, t, { c with notified := [], woken := ts }, by simp⟩
    | nil => simp [hn, hw] at h

/-- A thread in `wait` comes back once nobody is left un-notified. -/
theorem resume_of_mem [BEq τ] [LawfulBEq τ] (hw : c.waiting = []) (h : t ∈ c.members) :
    ∃ c', c.resume (· == t) = some (t, c') := by
  rw [members, hw, List.nil_append, List.mem_append] at h
  unfold resume
  split
  · rename_i u hu
    have hbeq : (u == t) = true := List.find?_some (p := (· == t)) hu
    exact ⟨_, by rw [eq_of_beq hbeq]⟩
  · rename_i hn
    have hmem : t ∈ c.woken := h.resolve_left fun hm => List.find?_eq_none.mp hn t hm (beq_self_eq_true t)
    split
    · rename_i u hu
      have hbeq : (u == t) = true := List.find?_some (p := (· == t)) hu
      exact ⟨_, by rw [eq_of_beq hbeq]⟩
    · rename_i hnone
      exact absurd (beq_self_eq_true t) (List.find?_eq_none.mp hnone t hmem)

end Condition

end Monitor
