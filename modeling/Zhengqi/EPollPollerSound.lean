import Zhengqi.EPollPoller

/-!
# The epoll poller

`EPollPoller` is a lawful poller, and as long as `updateChannel` is not called
for a channel that had no events and gets none, the kernel watches a descriptor
exactly for the events of its channel (`updateChannel_synced`).
-/

namespace Zhengqi

open Run

namespace EPollPoller

theorem update_stops (p : EPollPoller) (op : EpollOp) (c : Channel) : Stops (·.lifeCycle = false) (p.update op c) := by
  unfold update
  split
  · exact Stops.ok _
  · refine Stops.ite (fun _ => Stops.ok _) fun _ e he => ?_
    cases he; rfl

theorem updateChannel_stops (p : EPollPoller) (c : Channel) : Stops (·.lifeCycle = false) (p.updateChannel c) := by
  unfold updateChannel
  refine Stops.ite (fun _ => Stops.bind (Stops.ite (fun _ => ?_) fun _ => ?_) fun q _ => ?_) fun _ => ?_
  · exact check_stops (fun _ => rfl) fun _ => Stops.ok _
  · exact check_stops (fun _ => rfl) fun _ => check_stops (fun _ => rfl) fun _ => Stops.ok _
  · exact (update_stops _ _ _).bind fun _ _ => Stops.ok _
  · refine check_stops (fun _ => rfl) fun _ => check_stops (fun _ => rfl) fun _ => check_stops (fun _ => rfl)
      fun _ => ?_
    exact Stops.ite (fun _ => (update_stops _ _ _).bind fun _ _ => Stops.ok _)
      (fun _ => (update_stops _ _ _).bind fun _ _ => Stops.ok _)

theorem removeChannel_stops (p : EPollPoller) (c : Channel) : Stops (·.lifeCycle = false) (p.removeChannel c) := by
  unfold removeChannel
  refine check_stops (fun _ => rfl) fun _ => check_stops (fun _ => rfl) fun _ => check_stops (fun _ => rfl) fun _ => ?_
  refine check_stops (fun _ => rfl) fun _ => Stops.bind (Stops.ite (fun _ => update_stops _ _ _) fun _ => Stops.ok _) ?_
  exact fun _ _ => Stops.ok _

/-- `updateChannel` adds a channel that is not in the epoll set, whatever its
events, and deletes or modifies one that is. -/
theorem updateChannel_inv {p q : EPollPoller} {c d : Channel} (h : p.updateChannel c = .ok (q, d)) :
    (c.index ≠ kAdded ∧ d = { c with index := kAdded } ∧
      q.epoll = Function.update p.epoll c.fd (some (c.events, c.addr))) ∨
    (c.index = kAdded ∧ c.events = kNoneEvent ∧ d = { c with index := kDeleted } ∧
      q.epoll = Function.update p.epoll c.fd none) ∨
    (c.index = kAdded ∧ c.events ≠ kNoneEvent ∧ d = c ∧
      q.epoll = Function.update p.epoll c.fd (some (c.events, c.addr))) := by
  unfold updateChannel at h
  split at h
  · rename_i hi
    obtain ⟨p', hp', h⟩ := bind_ok.mp h
    obtain ⟨q', hq', h⟩ := bind_ok.mp h
    cases h
    have hpe : p'.epoll = p.epoll := by
      split at hp'
      · obtain ⟨-, -, hp'⟩ := bind_ok.mp hp'
        cases hp'; rfl
      · obtain ⟨-, -, hp'⟩ := bind_ok.mp hp'
        obtain ⟨-, -, hp'⟩ := bind_ok.mp hp'
        cases hp'; rfl
    refine .inl ⟨?_, rfl, ?_⟩
    · rcases hi with hi | hi <;> rw [hi] <;> decide
    · unfold update epollCtl at hq'
      rw [hpe] at hq'
      cases he : p.epoll c.fd with
      | none => simp only [he] at hq'; cases hq'; rfl
      | some x => simp only [he] at hq'; cases hq'
  · obtain ⟨-, -, h⟩ := bind_ok.mp h
    obtain ⟨-, -, h⟩ := bind_ok.mp h
    obtain ⟨⟨⟩, hi, h⟩ := bind_ok.mp h
    have hi := check_ok.mp hi
    split at h
    · rename_i hn
      obtain ⟨q', hq', h⟩ := bind_ok.mp h
      cases h
      refine .inr (.inl ⟨hi, by simpa [Channel.isNoneEvent] using hn, rfl, ?_⟩)
      unfold update epollCtl at hq'
      cases he : p.epoll c.fd with
      | none =>
        simp only [he] at hq'
        cases hq'
        rw [← he, Function.update_eq_self]
      | some x => simp only [he] at hq'; cases hq'; rfl
    · rename_i hn
      obtain ⟨q', hq', h⟩ := bind_ok.mp h
      cases h
      refine .inr (.inr ⟨hi, by simpa [Channel.isNoneEvent] using hn, rfl, ?_⟩)
      unfold update epollCtl at hq'
      cases he : p.epoll c.fd with
      | none => simp only [he] at hq'; cases hq'
      | some x => simp only [he] at hq'; cases hq'; rfl

theorem removeChannel_inv {p q : EPollPoller} {c d : Channel} (h : p.removeChannel c = .ok (q, d)) :
    c.events = kNoneEvent ∧ d = { c with index := kNew } ∧
      (q.epoll = p.epoll ∧ c.index ≠ kAdded ∨ q.epoll = Function.update p.epoll c.fd none) := by
  unfold removeChannel at h
  obtain ⟨-, -, h⟩ := bind_ok.mp h
  obtain ⟨-, -, h⟩ := bind_ok.mp h
  obtain ⟨⟨⟩, hn, h⟩ := bind_ok.mp h
  obtain ⟨-, -, h⟩ := bind_ok.mp h
  obtain ⟨q', hq', h⟩ := bind_ok.mp h
  cases h
  refine ⟨by simpa [Channel.isNoneEvent] using check_ok.mp hn, rfl, ?_⟩
  split at hq'
  · right
    unfold update epollCtl at hq'
    cases he : p.epoll c.fd with
    | none =>
      simp only [he] at hq'
      cases hq'
      rw [← he, Function.update_eq_self]
    | some x => simp only [he] at hq'; cases hq'; rfl
  · rename_i hi
    cases hq'
    exact .inl ⟨rfl, hi⟩

instance : LawfulPoller EPollPoller where
  updateChannel_frame h := by
    rcases updateChannel_inv h with ⟨-, rfl, -⟩ | ⟨-, -, rfl, -⟩ | ⟨-, -, rfl, -⟩ <;> rfl
  removeChannel_frame h := by
    obtain ⟨-, rfl, -⟩ := removeChannel_inv h
    rfl
  updateChannel_stops := updateChannel_stops
  removeChannel_stops := removeChannel_stops

/-- The epoll set holds the descriptor exactly when the channel has events, with
those events. -/
structure Synced (p : EPollPoller) (c : Channel) : Prop where
  registered : Poller.registered p c.fd = if c.events = kNoneEvent then none else some c.events
  index : c.index = kAdded ↔ c.events ≠ kNoneEvent

theorem updateChannel_synced {p q : EPollPoller} {c d : Channel} {ev : Events} (hs : Synced p c)
    (hev : ev ≠ kNoneEvent ∨ c.events ≠ kNoneEvent)
    (h : p.updateChannel { c with events := ev, addedToLoop := true } = .ok (q, d)) : Synced q d := by
  rcases updateChannel_inv h with ⟨hi, rfl, hq⟩ | ⟨-, hn, rfl, hq⟩ | ⟨hi, hn, rfl, hq⟩
  · -- an absent channel has no events, so it gets some
    have hne : ev ≠ kNoneEvent := by
      rcases hev with hev | hev
      · exact hev
      · exact absurd (hs.index.mpr hev) hi
    exact ⟨by simp [Poller.registered, hq, hne], by simp [hne]⟩
  · dsimp only at hn
    subst hn
    exact ⟨by simp [Poller.registered, hq], by simp [kAdded, kDeleted]⟩
  · dsimp only at hn hi
    exact ⟨by simp [Poller.registered, hq, hn], by simp [hn, hi]⟩

theorem removeChannel_synced {p q : EPollPoller} {c d : Channel} (hs : Synced p c)
    (h : p.removeChannel { c with addedToLoop := false } = .ok (q, d)) : Synced q d := by
  obtain ⟨hn, rfl, hq⟩ := removeChannel_inv h
  dsimp only at hn
  have hr : Poller.registered q c.fd = none := by
    rcases hq with ⟨hq, -⟩ | hq
    · have := hs.registered
      rw [if_pos hn] at this
      change (q.epoll c.fd).map _ = _
      rw [hq]; exact this
    · simp [Poller.registered, hq]
  exact ⟨by simp [hr, hn], by simp [hn, kAdded, kNew]⟩

/-! ## Calls that do not fail -/

section
variable {p q : EPollPoller} {c d : Channel}

theorem epollCtl_add {e : EpollSet} {fd : Int} (h : e fd = none) (ev : Events) (addr : Nat) :
    epollCtl e .add fd ev addr = some (Function.update e fd (some (ev, addr))) := by
  simp [epollCtl, h]

theorem epollCtl_mod {e : EpollSet} {fd : Int} (h : e fd ≠ none) (ev : Events) (addr : Nat) :
    epollCtl e .mod fd ev addr = some (Function.update e fd (some (ev, addr))) := by
  cases he : e fd with
  | none => exact absurd he h
  | some x => simp [epollCtl, he]

theorem epollCtl_del {e : EpollSet} {fd : Int} (h : e fd ≠ none) (ev : Events) (addr : Nat) :
    epollCtl e .del fd ev addr = some (Function.update e fd none) := by
  cases he : e fd with
  | none => exact absurd he h
  | some x => simp [epollCtl, he]

/-- What `updateChannel` does when its assertions hold and no `epoll_ctl` fails. -/
inductive Updates (p : EPollPoller) (c : Channel) : EPollPoller → Channel → Prop
  | first (hi : c.index = kNew) (hc : p.channels c.fd = none) :
      Updates p c { p with
        channels := Function.update p.channels c.fd (some c.addr)
        epoll := Function.update p.epoll c.fd (some (c.events, c.addr)) } { c with index := kAdded }
  | again (hi : c.index = kDeleted) (hc : p.channels c.fd = some c.addr) :
      Updates p c { p with epoll := Function.update p.epoll c.fd (some (c.events, c.addr)) } { c with index := kAdded }
  | modify (hi : c.index = kAdded) (hc : p.channels c.fd = some c.addr) (hn : c.events ≠ kNoneEvent) :
      Updates p c { p with epoll := Function.update p.epoll c.fd (some (c.events, c.addr)) } c
  | disable (hi : c.index = kAdded) (hc : p.channels c.fd = some c.addr) (hn : c.events = kNoneEvent) :
      Updates p c { p with epoll := Function.update p.epoll c.fd none } { c with index := kDeleted }

theorem Updates.events (h : Updates p c q d) : d.events = c.events := by
  cases h <;> rfl

inductive Removes (p : EPollPoller) (c : Channel) : EPollPoller → Channel → Prop
  | added (hi : c.index = kAdded) (hc : p.channels c.fd = some c.addr) (hn : c.events = kNoneEvent) :
      Removes p c { p with
        channels := Function.update p.channels c.fd none
        epoll := Function.update p.epoll c.fd none } { c with index := kNew }
  | deleted (hi : c.index = kDeleted) (hc : p.channels c.fd = some c.addr) (hn : c.events = kNoneEvent) :
      Removes p c { p with channels := Function.update p.channels c.fd none } { c with index := kNew }

theorem Removes.channel (h : Removes p c q d) : d = { c with index := kNew } := by
  cases h <;> rfl

/-- The poller has taken the channel. -/
def Taken (p : EPollPoller) (c : Channel) : Prop :=
  (c.index = kAdded ∨ c.index = kDeleted) ∧ p.channels c.fd = some c.addr

/-- What `updateChannel` asserts. -/
def Expects (p : EPollPoller) (c : Channel) : Prop := c.index = kNew ∧ p.channels c.fd = none ∨ Taken p c

/-- Where no other channel has the descriptor, `index_` says whether the kernel knows it. -/
def Tracked (p : EPollPoller) (c : Channel) : Prop :=
  p.channels c.fd = none ∨ p.channels c.fd = some c.addr → (p.epoll c.fd ≠ none ↔ c.index = kAdded)

theorem updateChannel_error (h : ¬ Expects p c) : p.updateChannel c = .error .updateChannel := by
  have hne : kDeleted ≠ kNew := by decide
  unfold Expects Taken at h
  by_cases hnew : c.index = kNew
  · have hc : p.channels c.fd ≠ none := fun hc => h (.inl ⟨hnew, hc⟩)
    simp [updateChannel, hnew, hc]
  by_cases hc : p.channels c.fd = some c.addr
  · have hi : c.index ≠ kAdded ∧ c.index ≠ kDeleted :=
      ⟨fun hi => h (.inr ⟨.inl hi, hc⟩), fun hi => h (.inr ⟨.inr hi, hc⟩)⟩
    simp [updateChannel, hnew, hi.1, hi.2, hc]
  · by_cases hnone : p.channels c.fd = none <;>
      by_cases hdel : c.index = kDeleted <;> simp [updateChannel, hnew, hdel, hc, hnone, hne]

theorem Tracked.updateChannel (h : Tracked p c) (hx : Expects p c) :
    ∃ q d, p.updateChannel c = .ok (q, d) ∧ Updates p c q d := by
  rcases hx with ⟨hi, hc⟩ | ⟨hi | hi, hc⟩
  · have he : p.epoll c.fd = none := by simpa [hi, kNew, kAdded] using h (.inl hc)
    refine ⟨_, _, ?_, .first hi hc⟩
    simp [EPollPoller.updateChannel, hi, hc, update, epollCtl_add he]
  · have he := (h (.inr hc)).mpr hi
    by_cases hn : c.events = kNoneEvent
    · refine ⟨_, _, ?_, .disable hi hc hn⟩
      simp [EPollPoller.updateChannel, hi, hc, hn, Channel.isNoneEvent, update, epollCtl_del he, kAdded, kNew, kDeleted]
    · refine ⟨_, _, ?_, .modify hi hc hn⟩
      simp [EPollPoller.updateChannel, hi, hc, hn, Channel.isNoneEvent, update, epollCtl_mod he, kAdded, kNew, kDeleted]
  · have he : p.epoll c.fd = none := by simpa [hi, kDeleted, kAdded] using h (.inr hc)
    refine ⟨_, _, ?_, .again hi hc⟩
    simp [EPollPoller.updateChannel, hi, hc, update, epollCtl_add he, kNew, kDeleted]

theorem removeChannel_error (h : ¬ (Taken p c ∧ c.events = kNoneEvent)) :
    p.removeChannel c = .error .removeChannel := by
  unfold Taken at h
  by_cases hc : p.channels c.fd = some c.addr
  · by_cases hn : c.events = kNoneEvent
    · have hi : ¬ (c.index = kAdded ∨ c.index = kDeleted) := fun hi => h ⟨⟨hi, hc⟩, hn⟩
      simp [removeChannel, hc, hn, Channel.isNoneEvent, hi]
    · simp [removeChannel, hc, hn, Channel.isNoneEvent]
  · by_cases hnone : p.channels c.fd = none <;> simp [removeChannel, hc, hnone]

theorem Tracked.removeChannel (h : Tracked p c) (ht : Taken p c) (hn : c.events = kNoneEvent) :
    ∃ q d, p.removeChannel c = .ok (q, d) ∧ Removes p c q d := by
  obtain ⟨hi | hi, hc⟩ := ht
  · refine ⟨_, _, ?_, .added hi hc hn⟩
    simp [EPollPoller.removeChannel, hi, hc, hn, Channel.isNoneEvent, update, epollCtl_del ((h (.inr hc)).mpr hi)]
  · refine ⟨_, _, ?_, .deleted hi hc hn⟩
    simp [EPollPoller.removeChannel, hi, hc, hn, Channel.isNoneEvent, kAdded, kDeleted]

end

/-! ## The assertions of the poller -/

/-- The poller knows the channel, and `index_` says whether the kernel does. -/
structure Held (p : EPollPoller) (c : Channel) : Prop where
  channels : p.channels c.fd = some c.addr
  index : c.index = kAdded ∧ p.epoll c.fd ≠ none ∨ c.index = kDeleted ∧ p.epoll c.fd = none

theorem Held.tracked {p : EPollPoller} {c : Channel} (h : Held p c) : Tracked p c ∧ Taken p c := by
  rcases h.index with ⟨hi, he⟩ | ⟨hi, he⟩
  · exact ⟨fun _ => by simp [hi, he], .inl hi, h.channels⟩
  · exact ⟨fun _ => by simp [hi, he, kAdded, kDeleted], .inr hi, h.channels⟩

/-- No assertion of `updateChannel` fails for a channel that the poller holds, whatever its events. -/
theorem Held.updateChannel {p : EPollPoller} {c : Channel} (h : Held p c) (ev : Events) :
    ∃ q d, p.updateChannel { c with events := ev, addedToLoop := true } = .ok (q, d) ∧ Held q d := by
  have hc := h.channels
  have hh : Held p { c with events := ev, addedToLoop := true } := ⟨hc, h.index⟩
  obtain ⟨q, d, hu, hd⟩ := hh.tracked.1.updateChannel (.inr hh.tracked.2)
  refine ⟨q, d, hu, ?_⟩
  cases hd with
  | first hi hn => exact absurd (hn.symm.trans hc) (by simp)
  | again hi hc => exact ⟨hc, .inl ⟨rfl, by simp⟩⟩
  | modify hi hc hn => exact ⟨hc, .inl ⟨hi, by simp⟩⟩
  | disable hi hc hn => exact ⟨hc, .inr ⟨rfl, by simp⟩⟩

theorem Held.of_update {p q : EPollPoller} {c d : Channel} (h : Held p c) {ev : Events}
    (hu : p.updateChannel { c with events := ev, addedToLoop := true } = .ok (q, d)) : Held q d := by
  obtain ⟨q', d', hu', hh⟩ := h.updateChannel ev
  rw [hu] at hu'
  cases hu'
  exact hh

/-- Nor one of `removeChannel`, when the channel has no events. -/
theorem Held.removeChannel {p : EPollPoller} {c : Channel} (h : Held p c) (hn : c.events = kNoneEvent) :
    ∃ q d, p.removeChannel { c with addedToLoop := false } = .ok (q, d) := by
  have hh : Held p { c with addedToLoop := false } := ⟨h.channels, h.index⟩
  obtain ⟨q, d, hr, -⟩ := hh.tracked.1.removeChannel hh.tracked.2 hn
  exact ⟨q, d, hr⟩

/-- A channel that the poller has taken for the first time. -/
theorem held_of_new {p q : EPollPoller} {c d : Channel} (hi : c.index = kNew) (h : p.updateChannel c = .ok (q, d)) :
    Held q d := by
  unfold EPollPoller.updateChannel at h
  rw [if_pos (.inl hi), if_pos hi] at h
  obtain ⟨p', hp', h⟩ := bind_ok.mp h
  obtain ⟨_, -, hp'⟩ := bind_ok.mp hp'
  cases hp'
  obtain ⟨q', hq', h⟩ := bind_ok.mp h
  cases h
  unfold update epollCtl at hq'
  cases he : p.epoll c.fd with
  | none =>
    simp only [he] at hq'
    cases hq'
    exact ⟨by simp, .inl ⟨rfl, by simp⟩⟩
  | some x => simp only [he] at hq'; cases hq'

end EPollPoller

end Zhengqi
