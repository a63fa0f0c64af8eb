import Zhengqi.TimerFiringSound

/-!
# Stale timer ids

A `TimerId` holds the address of its timer, and the address may have been given to another
timer since. `cancelInLoop` looks for the address and the number together, and a number is
given out once: `stale_timer_id_is_harmless`.
-/

namespace Zhengqi

open Run

namespace TimerQueue

variable {q : TimerQueue}

theorem Inv.active_live (h : q.Inv) {id : ActiveTimer} (ha : id ∈ q.activeTimers) :
    id ∈ q.created ∧ id.sequence ∉ q.deleted.map (·.sequence) := by
  obtain ⟨t, ht, hs⟩ := h.rep.active id.timer id.sequence ha
  have hc := h.ledger.live id.timer t ht
  have hd := h.ledger.dead id.timer t ht
  rw [hs] at hc hd
  exact ⟨hc, hd⟩

theorem Ledger.pos {heap : Addr → Option Timer} {numCreated : Nat} {created : List ActiveTimer}
    {deleted : List Deletion} (h : Ledger heap numCreated created deleted) {id : ActiveTimer} (hid : id ∈ created) :
    0 < id.sequence := by
  have hm : id.sequence ∈ created.map (·.sequence) := List.mem_map.mpr ⟨id, hid, rfl⟩
  rw [h.numbered, List.mem_range'] at hm
  omega

-- the callback of an active timer that does not repeat has not been started
theorem Inv.not_fired (h : q.Inv) (hp : q.Punctual) {id : ActiveTimer} (ha : id ∈ q.activeTimers) {t : Timer}
    (ht : q.heap id.timer = some t) (hr : t.repeats = false) : ∀ f ∈ q.fired, f.sequence ≠ id.sequence := by
  intro f hf he
  obtain ⟨t', ht', hs⟩ := h.rep.active id.timer id.sequence ha
  obtain rfl := heap_unique ht ht'
  obtain ⟨-, -, hfired⟩ := (hp.once id.timer t ht hr).live id.timer t ht rfl
  obtain ⟨⟨b, hb, hm, -⟩, -⟩ := hfired f hf (he.trans hs.symm)
  obtain ⟨e, he, hee⟩ := List.mem_map.mp hm
  obtain ⟨t', ht', -, hna, -⟩ := h.loose hb he
  rw [hee] at ht' hna
  obtain rfl := heap_unique ht ht'
  rw [hs] at hna
  exact hna ha

end TimerQueue

open TimerQueue

/-- Over every run, and for any `TimerId`: `cancelInLoop` changes nothing, or it removes the
live timer with the id's number, which is the only one with that number, and leaves
everything else as it was. It changes nothing for a `TimerId` that was default
constructed, for one whose timer has been deleted, which covers every timer that was
cancelled, and for one whose timer does not repeat and has fired. -/
theorem stale_timer_id_is_harmless (ops : List TimerOp) (id : ActiveTimer) :
    ∃ q q', run TimerQueue.step {} ops = .ok q ∧ q.step (.cancelInLoop id) = .ok q' ∧
      (q' = q ∨ ∃ t, q.heap id.timer = some t ∧ t.sequence = id.sequence ∧
        (∀ p t', q.heap p = some t' → t'.sequence = id.sequence → p = id.timer) ∧
        ⟨t.expiration, id.timer⟩ ∈ q.timers ∧ id ∈ q.activeTimers ∧
        q' = { q with
          timers := q.timers.erase ⟨t.expiration, id.timer⟩, activeTimers := q.activeTimers.erase id
          heap := Function.update q.heap id.timer none
          deleted := q.deleted ++ [⟨id.sequence, false, true, true⟩] }) ∧
      (id = ⟨0, 0⟩ → q' = q) ∧
      (id.sequence ∈ q.deleted.map (·.sequence) → q' = q) ∧
      (∀ t, q.heap id.timer = some t → t.sequence = id.sequence → t.repeats = false →
        (∃ f ∈ q.fired, f.sequence = id.sequence) → q' = q) := by
  obtain ⟨q, hok, hi, hp⟩ := punctual_run ops
  rcases hi.rep.cancelInLoop id with ⟨-, hq⟩ | ⟨t, ha, ht, hs, hq, -⟩
  · exact ⟨q, q, hok, hq, .inl rfl, fun _ => rfl, fun _ => rfl, fun _ _ _ _ _ => rfl⟩
  · obtain ⟨hc, hd⟩ := hi.active_live ha
    refine ⟨q, _, hok, hq, .inr ⟨t, ht, hs, ?_, ?_, ha, rfl⟩, ?_, fun hm => absurd hm hd, ?_⟩
    · intro p t' ht' hs'
      exact hi.rep.inj p id.timer t' t ht' ht (hs'.trans hs.symm)
    · refine (hi.rep.timers _ _).mpr ⟨t, ht, rfl, ?_⟩
      rw [hs]; exact ha
    · intro hid
      have := hi.ledger.pos hc
      rw [hid] at this
      exact absurd this (Nat.lt_irrefl 0)
    · intro t' ht' _ hr hf
      obtain ⟨f, hf, he⟩ := hf
      exact absurd he (hi.not_fired hp ha ht' hr f hf)

end Zhengqi
