import Zhengqi.TimerQueue
import Mathlib.Data.List.Nodup

/-!
# The representation of a timer queue

`timers_` and `activeTimers_` hold the same live timers. A timer leaves the two
sets into a list of loose entries, the batch of `handleRead` or the one timer a
call is about, and comes back from there, so every function is a move of one
entry after another (`Rep`), and under `Rep` none of its assertions fails.
-/

namespace Zhengqi

open Run

theorem Entry.le_iff {a b : Entry} :
    a ≤ b ↔ a.expiration < b.expiration ∨ a.expiration = b.expiration ∧ a.timer ≤ b.timer :=
  Prod.Lex.toLex_le_toLex

theorem Entry.expiration_le {a b : Entry} (h : a ≤ b) : a.expiration ≤ b.expiration := by
  rcases Entry.le_iff.mp h with h | ⟨h, -⟩
  · exact h.le
  · exact h.le

namespace TimerQueue

/-- The sets and the heap agree, with the entries `es` in neither set. -/
structure Rep (q : TimerQueue) (es : List Entry) : Prop where
  bounds : ∀ p t, q.heap p = some t → p < UINTPTR_MAX ∧ t.sequence ≤ q.numCreated
  inj : ∀ p p' t t', q.heap p = some t → q.heap p' = some t' → t.sequence = t'.sequence → p = p'
  timers : ∀ x p, ⟨x, p⟩ ∈ q.timers ↔ ∃ t, q.heap p = some t ∧ t.expiration = x ∧ ⟨p, t.sequence⟩ ∈ q.activeTimers
  active : ∀ p s, ⟨p, s⟩ ∈ q.activeTimers → ∃ t, q.heap p = some t ∧ t.sequence = s
  sizes : q.timers.size = q.activeTimers.size
  loose : ∀ e ∈ es, ∃ t, q.heap e.timer = some t ∧ t.expiration = e.expiration ∧
    ⟨e.timer, t.sequence⟩ ∉ q.activeTimers ∧ e.timer ∉ q.inflight
  nodup : (es.map (·.timer)).Nodup
  inflight : ∀ p ∈ q.inflight, ∃ t, q.heap p = some t ∧ ⟨p, t.sequence⟩ ∉ q.activeTimers
  inflight_nodup : q.inflight.Nodup
  placed : ∀ p t, q.heap p = some t →
    ⟨p, t.sequence⟩ ∈ q.activeTimers ∨ p ∈ es.map (·.timer) ∨ p ∈ q.inflight

variable {q q' : TimerQueue} {e : Entry} {es : List Entry} {p : Addr} {t t' : Timer}

theorem update_some_iff {heap : Addr → Option Timer} {p' : Addr} {v : Option Timer} :
    Function.update heap p v p' = some t ↔ (p' = p ∧ v = some t) ∨ (p' ≠ p ∧ heap p' = some t) := by
  rw [Function.update_apply]
  split <;> simp [*]

theorem update_none_iff {heap : Addr → Option Timer} {p' : Addr} :
    Function.update heap p none p' = some t ↔ p' ≠ p ∧ heap p' = some t := by
  simp [update_some_iff]

theorem create_heap_iff {when : Timestamp} {interval : Interval} {p' : Addr} :
    (q.create p when interval).heap p' = some t ↔
      (p' = p ∧ t = ⟨when, interval, q.numCreated + 1⟩) ∨ (p' ≠ p ∧ q.heap p' = some t) := by
  simp only [create, update_some_iff, Option.some.injEq, eq_comm (a := t)]

theorem deref_ok (h : q.heap p = some t) : q.deref p = .ok t := by
  simp [deref, h]

theorem heap_unique (h : q.heap p = some t) (h' : q.heap p = some t') : t = t' := Option.some.inj (h.symm.trans h')

theorem Rep.congr (h : q.Rep es) (hh : q'.heap = q.heap) (hn : q'.numCreated = q.numCreated)
    (ht : q'.timers = q.timers) (ha : q'.activeTimers = q.activeTimers) (hi : q'.inflight = q.inflight) :
    q'.Rep es := by
  constructor
  · rw [hh, hn]; exact h.bounds
  · rw [hh]; exact h.inj
  · rw [hh, ht, ha]; exact h.timers
  · rw [hh, ha]; exact h.active
  · rw [ht, ha]; exact h.sizes
  · rw [hh, ha, hi]; exact h.loose
  · exact h.nodup
  · rw [hh, ha, hi]; exact h.inflight
  · rw [hi]; exact h.inflight_nodup
  · rw [hh, ha, hi]; exact h.placed

theorem Rep.not_active (h : q.Rep es) (hp : q.heap p = some t)
    (ha : ⟨p, t.sequence⟩ ∉ q.activeTimers) : (∀ s, ⟨p, s⟩ ∉ q.activeTimers) ∧ ∀ x, ⟨x, p⟩ ∉ q.timers := by
  constructor
  · intro s hs
    obtain ⟨t', ht', rfl⟩ := h.active p s hs
    obtain rfl := heap_unique hp ht'
    exact ha hs
  · intro x hx
    obtain ⟨t', ht', -, hs⟩ := (h.timers x p).mp hx
    obtain rfl := heap_unique hp ht'
    exact ha hs

-- a live timer is in one place only
theorem Rep.not_inflight (h : q.Rep es) (ht : q.heap p = some t) (ha : ⟨p, t.sequence⟩ ∈ q.activeTimers) :
    p ∉ q.inflight := by
  intro hi
  obtain ⟨t', ht', ha'⟩ := h.inflight p hi
  obtain rfl := heap_unique ht ht'
  exact ha' ha

theorem Rep.not_loose (h : q.Rep es) (ht : q.heap p = some t) (ha : ⟨p, t.sequence⟩ ∈ q.activeTimers) :
    p ∉ es.map (·.timer) := by
  intro hp
  obtain ⟨e, he, rfl⟩ := List.mem_map.mp hp
  obtain ⟨t', ht', -, ha', -⟩ := h.loose e he
  obtain rfl := heap_unique ht ht'
  exact ha' ha

theorem Rep.entry_unique (h : q.Rep es) {e e' : Entry} (he : e ∈ q.timers) (he' : e' ∈ q.timers)
    (hee : e.timer = e'.timer) : e = e' := by
  obtain ⟨t, ht, hx, -⟩ := (h.timers e.expiration e.timer).mp he
  obtain ⟨t', ht', hx', -⟩ := (h.timers e'.expiration e'.timer).mp he'
  rw [hee] at ht
  obtain rfl := heap_unique ht ht'
  cases e; cases e'; simp_all

/-- The two sets read the heap at the active timers only. -/
theorem Rep.sets_of_heap (h : q.Rep es) (heap : Addr → Option Timer)
    (hh : ∀ p s, ⟨p, s⟩ ∈ q.activeTimers → heap p = q.heap p) :
    (∀ x p, ⟨x, p⟩ ∈ q.timers ↔ ∃ t, heap p = some t ∧ t.expiration = x ∧ ⟨p, t.sequence⟩ ∈ q.activeTimers) ∧
      ∀ p s, ⟨p, s⟩ ∈ q.activeTimers → ∃ t, heap p = some t ∧ t.sequence = s := by
  constructor
  · intro x p
    rw [h.timers x p]
    constructor
    · rintro ⟨t, ht, hx, ha⟩
      exact ⟨t, (hh p _ ha).trans ht, hx, ha⟩
    · rintro ⟨t, ht, hx, ha⟩
      exact ⟨t, (hh p _ ha).symm.trans ht, hx, ha⟩
  · intro p s ha
    rw [hh p s ha]
    exact h.active p s ha

/-! ## Moving one timer -/

theorem Rep.create (h : q.Rep es) (hp : q.allocates p = true) (when : Timestamp) (interval : Interval) :
    Rep { q.create p when interval with inflight := p :: q.inflight } es := by
  simp only [allocates, Bool.and_eq_true, Option.isNone_iff_eq_none, decide_eq_true_eq] at hp
  obtain ⟨⟨hfree, -⟩, hmax⟩ := hp
  have hlive : ∀ p' t, q.heap p' = some t → p' ≠ p := by
    intro p' t ht he
    rw [he, hfree] at ht; cases ht
  have hother : ∀ p' t, q.heap p' = some t → (q.create p when interval).heap p' = some t :=
    fun p' t ht => create_heap_iff.mpr (.inr ⟨hlive p' t ht, ht⟩)
  obtain ⟨htimers, hactive⟩ := h.sets_of_heap (q.create p when interval).heap fun p' s ha => by
    obtain ⟨t, ht, -⟩ := h.active p' s ha
    exact (hother p' t ht).trans ht.symm
  refine ⟨?_, ?_, htimers, hactive, h.sizes, ?_, h.nodup, ?_, ?_, ?_⟩
  · intro p' t ht
    rcases create_heap_iff.mp ht with ⟨rfl, rfl⟩ | ⟨-, ht⟩
    · exact ⟨hmax, Nat.le_refl _⟩
    · exact ⟨(h.bounds p' t ht).1, Nat.le_succ_of_le (h.bounds p' t ht).2⟩
  · -- the number of the new timer is above all others
    have hnew : ∀ p' t, q.heap p' = some t → t.sequence ≠ q.numCreated + 1 := by
      intro p' t ht he
      have := (h.bounds p' t ht).2
      omega
    intro p₁ p₂ t₁ t₂ h₁ h₂ he
    rcases create_heap_iff.mp h₁ with ⟨rfl, rfl⟩ | ⟨-, hq₁⟩ <;> rcases create_heap_iff.mp h₂ with ⟨rfl, rfl⟩ | ⟨-, hq₂⟩
    · rfl
    · exact absurd he.symm (hnew p₂ t₂ hq₂)
    · exact absurd he (hnew p₁ t₁ hq₁)
    · exact h.inj p₁ p₂ t₁ t₂ hq₁ hq₂ he
  · intro e he
    obtain ⟨t, ht, hx, ha, hi⟩ := h.loose e he
    exact ⟨t, hother _ t ht, hx, ha, List.not_mem_cons_of_ne_of_not_mem (hlive _ t ht) hi⟩
  · intro p' hp'
    rcases List.mem_cons.mp hp' with rfl | hp'
    · refine ⟨_, Function.update_self .., ?_⟩
      intro ha
      obtain ⟨t, ht, -⟩ := h.active _ _ ha
      exact hlive _ t ht rfl
    · obtain ⟨t, ht, ha⟩ := h.inflight p' hp'
      exact ⟨t, hother p' t ht, ha⟩
  · refine List.nodup_cons.mpr ⟨?_, h.inflight_nodup⟩
    intro hi
    obtain ⟨t, ht, -⟩ := h.inflight p hi
    exact hlive p t ht rfl
  · intro p' t ht
    rcases create_heap_iff.mp ht with ⟨rfl, -⟩ | ⟨-, ht⟩
    · exact .inr (.inr (List.mem_cons_self ..))
    · rcases h.placed p' t ht with ha | hl | hi
      · exact .inl ha
      · exact .inr (.inl hl)
      · exact .inr (.inr (List.mem_cons_of_mem _ hi))

theorem Rep.land (h : q.Rep es) {p : Addr} (hp : p ∈ q.inflight) :
    ∃ t, q.heap p = some t ∧ Rep { q with inflight := q.inflight.erase p } (⟨t.expiration, p⟩ :: es) := by
  obtain ⟨t, ht, ha⟩ := h.inflight p hp
  refine ⟨t, ht, h.bounds, h.inj, h.timers, h.active, h.sizes, ?_, ?_, ?_, h.inflight_nodup.erase p, ?_⟩
  · intro e he
    rcases List.mem_cons.mp he with rfl | he
    · exact ⟨t, ht, rfl, ha, h.inflight_nodup.not_mem_erase⟩
    · obtain ⟨t', ht', hx, ha', hi⟩ := h.loose e he
      exact ⟨t', ht', hx, ha', fun hm => hi (List.mem_of_mem_erase hm)⟩
  · refine List.nodup_cons.mpr ⟨?_, h.nodup⟩
    intro hm
    obtain ⟨e, he, hep⟩ := List.mem_map.mp hm
    obtain ⟨-, -, -, -, hi⟩ := h.loose e he
    exact hi (hep ▸ hp)
  · intro p' hp'
    exact h.inflight p' (List.mem_of_mem_erase hp')
  · intro p' t' ht'
    rcases h.placed p' t' ht' with ha' | hl | hi
    · exact .inl ha'
    · exact .inr (.inl (List.mem_cons_of_mem _ hl))
    · by_cases hpp : p' = p
      · right; left
        rw [hpp]; exact List.mem_cons_self ..
      · exact .inr (.inr ((List.mem_erase_of_ne hpp).mpr hi))

def schedule (q : TimerQueue) (e : Entry) (sequence : Nat) : TimerQueue :=
  { q with timers := q.timers.insert e, activeTimers := q.activeTimers.insert ⟨e.timer, sequence⟩ }

@[simp] theorem mem_schedule_timers {x : Entry} {s : Nat} : x ∈ (q.schedule e s).timers ↔ x = e ∨ x ∈ q.timers :=
  OrdSet.mem_insert

@[simp] theorem mem_schedule_active {x : ActiveTimer} {s : Nat} :
    x ∈ (q.schedule e s).activeTimers ↔ x = ⟨e.timer, s⟩ ∨ x ∈ q.activeTimers :=
  OrdSet.mem_insert

theorem Rep.insert (h : q.Rep (e :: es)) :
    ∃ t, q.heap e.timer = some t ∧ t.expiration = e.expiration ∧
      q.insert e.timer = .ok (q.schedule e t.sequence, q.earliestChanged e.expiration) ∧
      (q.schedule e t.sequence).Rep es := by
  obtain ⟨t, ht, hx, ha, hi⟩ := h.loose e (List.mem_cons_self ..)
  obtain ⟨hna, hnt⟩ := h.not_active ht ha
  have hee : (⟨t.expiration, e.timer⟩ : Entry) = e := by rw [hx]
  have hte : e ∉ q.timers := fun hm => hnt e.expiration hm
  have hnd := List.nodup_cons.mp h.nodup
  refine ⟨t, ht, hx, ?_, ?_⟩
  · unfold TimerQueue.insert
    simp only [check_of h.sizes, ok_bind, deref_ok ht, check_of hte, check_of ha, hx]
    rfl
  · constructor
    · exact h.bounds
    · exact h.inj
    · intro x p
      simp only [mem_schedule_timers, mem_schedule_active]
      constructor
      · rintro (rfl | hm)
        · exact ⟨t, ht, hx, .inl rfl⟩
        · obtain ⟨t', ht', hx', ha'⟩ := (h.timers x p).mp hm
          exact ⟨t', ht', hx', .inr ha'⟩
      · rintro ⟨t', ht', hx', ha' | ha'⟩
        · left
          simp only [ActiveTimer.mk.injEq] at ha'
          obtain ⟨rfl, -⟩ := ha'
          obtain rfl := heap_unique ht ht'
          rw [← hx', ← hee]
        · exact .inr ((h.timers x p).mpr ⟨t', ht', hx', ha'⟩)
    · intro p s hm
      rcases mem_schedule_active.mp hm with hm | hm
      · simp only [ActiveTimer.mk.injEq] at hm
        obtain ⟨rfl, rfl⟩ := hm
        exact ⟨t, ht, rfl⟩
      · exact h.active p s hm
    · change (q.timers.insert e).size = (q.activeTimers.insert _).size
      rw [OrdSet.size_insert hte, OrdSet.size_insert ha, h.sizes]
    · intro e' he'
      obtain ⟨t', ht', hx', ha', hi'⟩ := h.loose e' (List.mem_cons_of_mem _ he')
      refine ⟨t', ht', hx', ?_, hi'⟩
      rw [mem_schedule_active, not_or]
      refine ⟨?_, ha'⟩
      intro hc
      simp only [ActiveTimer.mk.injEq] at hc
      exact hnd.1 (List.mem_map.mpr ⟨e', he', hc.1⟩)
    · exact hnd.2
    · intro p hp
      obtain ⟨t', ht', ha'⟩ := h.inflight p hp
      refine ⟨t', ht', ?_⟩
      rw [mem_schedule_active, not_or]
      refine ⟨?_, ha'⟩
      intro hc
      simp only [ActiveTimer.mk.injEq] at hc
      exact hi (hc.1 ▸ hp)
    · exact h.inflight_nodup
    · intro p t' ht'
      simp only [mem_schedule_active]
      rcases h.placed p t' ht' with ha' | hl | hi'
      · exact .inl (.inr ha')
      · rcases List.mem_cons.mp hl with rfl | hl
        · obtain rfl := heap_unique ht ht'
          exact .inl (.inl rfl)
        · exact .inr (.inl hl)
      · exact .inr (.inr hi')

theorem Rep.free (h : q.Rep (e :: es)) : Rep { q with heap := Function.update q.heap e.timer none } es := by
  obtain ⟨t, ht, hx, ha, hi⟩ := h.loose e (List.mem_cons_self ..)
  obtain ⟨hna, -⟩ := h.not_active ht ha
  obtain ⟨hne, hnd⟩ := List.nodup_cons.mp h.nodup
  obtain ⟨htimers, hactive⟩ := h.sets_of_heap (Function.update q.heap e.timer none) fun p s hm =>
    Function.update_of_ne (show p ≠ e.timer from fun hc => hna s (hc ▸ hm)) ..
  refine ⟨?_, ?_, htimers, hactive, h.sizes, ?_, hnd, ?_, h.inflight_nodup, ?_⟩
  · intro p t' hp
    exact h.bounds p t' (update_none_iff.mp hp).2
  · intro p p' t₁ t₂ h₁ h₂
    exact h.inj p p' t₁ t₂ (update_none_iff.mp h₁).2 (update_none_iff.mp h₂).2
  · intro e' he'
    obtain ⟨t', ht', hx', ha', hi'⟩ := h.loose e' (List.mem_cons_of_mem _ he')
    refine ⟨t', update_none_iff.mpr ⟨?_, ht'⟩, hx', ha', hi'⟩
    intro hc
    exact hne (List.mem_map.mpr ⟨e', he', hc⟩)
  · intro p hp
    obtain ⟨t', ht', ha'⟩ := h.inflight p hp
    exact ⟨t', update_none_iff.mpr ⟨fun hc => hi (hc ▸ hp), ht'⟩, ha'⟩
  · intro p t' ht'
    obtain ⟨hpe, ht'⟩ := update_none_iff.mp ht'
    rcases h.placed p t' ht' with ha' | hl | hi'
    · exact .inl ha'
    · exact .inr (.inl ((List.mem_cons.mp hl).resolve_left hpe))
    · exact .inr (.inr hi')

theorem Rep.restart (h : q.Rep (e :: es)) (ht : q.heap e.timer = some t) (hs : t'.sequence = t.sequence) :
    Rep { q with heap := Function.update q.heap e.timer (some t') } (⟨t'.expiration, e.timer⟩ :: es) := by
  obtain ⟨t₀, ht₀, -, ha, hi⟩ := h.loose e (List.mem_cons_self ..)
  obtain rfl := heap_unique ht ht₀
  obtain ⟨hna, -⟩ := h.not_active ht ha
  obtain ⟨hne, hnd⟩ := List.nodup_cons.mp h.nodup
  obtain ⟨htimers, hactive⟩ := h.sets_of_heap (Function.update q.heap e.timer (some t')) fun p s hm =>
    Function.update_of_ne (show p ≠ e.timer from fun hc => hna s (hc ▸ hm)) ..
  -- up to the expiration the heap is as it was
  have hold : ∀ p u, Function.update q.heap e.timer (some t') p = some u →
      ∃ u₀, q.heap p = some u₀ ∧ u₀.sequence = u.sequence := by
    intro p u hp
    rcases update_some_iff.mp hp with ⟨rfl, hu⟩ | ⟨-, hu⟩
    · cases hu
      exact ⟨t, ht, hs.symm⟩
    · exact ⟨u, hu, rfl⟩
  refine ⟨?_, ?_, htimers, hactive, h.sizes, ?_, List.nodup_cons.mpr ⟨hne, hnd⟩, ?_, h.inflight_nodup, ?_⟩
  · intro p u hp
    obtain ⟨u₀, hu₀, he⟩ := hold p u hp
    rw [← he]; exact h.bounds p u₀ hu₀
  · intro p p' u₁ u₂ h₁ h₂ he
    obtain ⟨v₁, hv₁, he₁⟩ := hold p u₁ h₁
    obtain ⟨v₂, hv₂, he₂⟩ := hold p' u₂ h₂
    exact h.inj p p' v₁ v₂ hv₁ hv₂ (by rw [he₁, he₂, he])
  · intro e' he'
    rcases List.mem_cons.mp he' with rfl | he'
    · exact ⟨t', Function.update_self .., rfl, hna _, hi⟩
    · obtain ⟨u, hu, hx', ha', hi'⟩ := h.loose e' (List.mem_cons_of_mem _ he')
      refine ⟨u, update_some_iff.mpr (.inr ⟨?_, hu⟩), hx', ha', hi'⟩
      intro hc
      exact hne (List.mem_map.mpr ⟨e', he', hc⟩)
  · intro p hp
    obtain ⟨u, hu, ha'⟩ := h.inflight p hp
    exact ⟨u, update_some_iff.mpr (.inr ⟨fun hc => hi (hc ▸ hp), hu⟩), ha'⟩
  · intro p u hu
    obtain ⟨u₀, hu₀, he⟩ := hold p u hu
    rw [← he]
    exact h.placed p u₀ hu₀

theorem Rep.unschedule (h : q.Rep es) {s : Nat} (ha : ⟨p, s⟩ ∈ q.activeTimers) :
    ∃ t, q.heap p = some t ∧ t.sequence = s ∧ ⟨t.expiration, p⟩ ∈ q.timers ∧
      Rep { q with
        timers := q.timers.erase ⟨t.expiration, p⟩, activeTimers := q.activeTimers.erase ⟨p, s⟩ }
        (⟨t.expiration, p⟩ :: es) := by
  obtain ⟨t, ht, rfl⟩ := h.active p s ha
  have hm : ⟨t.expiration, p⟩ ∈ q.timers := (h.timers _ _).mpr ⟨t, ht, rfl, ha⟩
  refine ⟨t, ht, rfl, hm, h.bounds, h.inj, ?_, ?_, ?_, ?_, ?_, ?_, h.inflight_nodup, ?_⟩
  · -- the entries of the timer are the ones that are erased
    intro x p'
    simp only [OrdSet.mem_erase, h.timers x p']
    constructor
    · rintro ⟨⟨t', ht', hx', ha'⟩, hne⟩
      refine ⟨t', ht', hx', ha', ?_⟩
      intro hc
      simp only [ActiveTimer.mk.injEq] at hc
      obtain ⟨rfl, -⟩ := hc
      obtain rfl := heap_unique ht ht'
      exact hne (by rw [hx'])
    · rintro ⟨t', ht', hx', ha', hne⟩
      refine ⟨⟨t', ht', hx', ha'⟩, ?_⟩
      intro hc
      simp only [Entry.mk.injEq] at hc
      obtain ⟨-, rfl⟩ := hc
      obtain rfl := heap_unique ht ht'
      exact hne rfl
  · intro p' s' hs'
    exact h.active p' s' (OrdSet.mem_erase.mp hs').1
  · have h₁ := OrdSet.size_erase hm
    have h₂ := OrdSet.size_erase ha
    have h₃ := h.sizes
    change (q.timers.erase _).size = (q.activeTimers.erase _).size
    omega
  · intro e he
    simp only [OrdSet.mem_erase, not_and_or, not_not]
    rcases List.mem_cons.mp he with rfl | he
    · exact ⟨t, ht, rfl, .inr rfl, h.not_inflight ht ha⟩
    · obtain ⟨t', ht', hx', ha', hi'⟩ := h.loose e he
      exact ⟨t', ht', hx', .inl ha', hi'⟩
  · exact List.nodup_cons.mpr ⟨h.not_loose ht ha, h.nodup⟩
  · intro p' hp'
    obtain ⟨t', ht', ha'⟩ := h.inflight p' hp'
    exact ⟨t', ht', fun hc => ha' (OrdSet.mem_erase.mp hc).1⟩
  · intro p' t' ht'
    simp only [OrdSet.mem_erase]
    rcases h.placed p' t' ht' with ha' | hl | hi
    · by_cases hpp : p' = p
      · right; left
        rw [hpp]; exact List.mem_cons_self ..
      · refine .inl ⟨ha', ?_⟩
        intro hc
        simp only [ActiveTimer.mk.injEq] at hc
        exact hpp hc.1
    · exact .inr (.inl (List.mem_cons_of_mem _ hl))
    · exact .inr (.inr hi)

/-! ## The functions -/

/-- What `cancelInLoop` makes of the queue when it finds the timer. -/
def cancelled (q : TimerQueue) (id : ActiveTimer) (expiration : Timestamp) : TimerQueue :=
  { q with
    timers := q.timers.erase ⟨expiration, id.timer⟩
    activeTimers := q.activeTimers.erase id
    heap := Function.update q.heap id.timer none
    deleted := q.deleted ++ [⟨id.sequence, false, true, true⟩] }

theorem Rep.cancelInLoop (h : q.Rep es) (id : ActiveTimer) :
    (id ∉ q.activeTimers ∧ q.cancelInLoop id = .ok q) ∨
      ∃ t, id ∈ q.activeTimers ∧ q.heap id.timer = some t ∧ t.sequence = id.sequence ∧
        q.cancelInLoop id = .ok (q.cancelled id t.expiration) ∧ (q.cancelled id t.expiration).Rep es := by
  by_cases ha : id ∈ q.activeTimers
  · right
    obtain ⟨t, ht, hs, hm, hr⟩ := h.unschedule ha
    refine ⟨t, ha, ht, hs, ?_, ?_⟩
    · -- at the deletion the timer has left timers_ but not activeTimers_
      have hin : (q.timers.erase ⟨t.expiration, id.timer⟩).toList.any (fun e => decide (e.timer = id.timer)) =
          false := by
        rw [List.any_eq_false]
        intro e he
        obtain ⟨he, hne⟩ := OrdSet.mem_erase.mp he
        simp only [decide_eq_true_eq]
        intro hc
        exact hne (h.entry_unique he hm hc)
      have hac : q.activeTimers.toList.any (fun e => decide (e.timer = id.timer)) = true :=
        List.any_eq_true.mpr ⟨id, ha, by simp⟩
      unfold TimerQueue.cancelInLoop delete
      rw [check_of h.sizes, ok_bind, if_pos ha, deref_ok ht, ok_bind, check_of hm, ok_bind,
        deref_ok (q := { q with timers := q.timers.erase ⟨t.expiration, id.timer⟩ }) ht]
      simp only [ok_bind, pure_eq_ok, hin, hac, hs]
      rfl
    · exact hr.free.congr rfl rfl rfl rfl rfl
  · left
    refine ⟨ha, ?_⟩
    unfold TimerQueue.cancelInLoop
    rw [check_of h.sizes, ok_bind, if_neg ha]
    rfl

theorem eraseActive_spec : ∀ {es : List Entry} {q : TimerQueue},
    (∀ p s, ⟨p, s⟩ ∈ q.activeTimers → ∃ t, q.heap p = some t ∧ t.sequence = s) →
    (∀ e ∈ es, ∃ t, q.heap e.timer = some t ∧ ⟨e.timer, t.sequence⟩ ∈ q.activeTimers) →
    (es.map (·.timer)).Nodup →
    ∃ a, eraseActive q es = .ok { q with activeTimers := a } ∧
      (∀ x, x ∈ a ↔ x ∈ q.activeTimers ∧ x.timer ∉ es.map (·.timer)) ∧ a.size + es.length = q.activeTimers.size
  | [], q, _, _, _ => ⟨q.activeTimers, rfl, by simp, rfl⟩
  | e :: es, q, hact, hes, hnd => by
    obtain ⟨t, ht, ha⟩ := hes e (List.mem_cons_self ..)
    obtain ⟨hne, hnd⟩ := List.nodup_cons.mp hnd
    have hact' : ∀ p s, ⟨p, s⟩ ∈ q.activeTimers.erase ⟨e.timer, t.sequence⟩ → ∃ t, q.heap p = some t ∧ t.sequence = s :=
      fun p s hm => hact p s (OrdSet.mem_erase.mp hm).1
    obtain ⟨a, hok, hmem, hsize⟩ := eraseActive_spec
      (q := { q with activeTimers := q.activeTimers.erase ⟨e.timer, t.sequence⟩ }) hact' (fun e' he' => by
        obtain ⟨t', ht', ha'⟩ := hes e' (List.mem_cons_of_mem _ he')
        refine ⟨t', ht', OrdSet.mem_erase.mpr ⟨ha', ?_⟩⟩
        intro hc
        simp only [ActiveTimer.mk.injEq] at hc
        exact hne (List.mem_map.mpr ⟨e', he', hc.1⟩)) hnd
    refine ⟨a, ?_, ?_, ?_⟩
    · unfold eraseActive
      rw [deref_ok ht, ok_bind, check_of ha, ok_bind]
      exact hok
    · intro x
      rw [hmem, List.map_cons, List.mem_cons, not_or]
      change x ∈ q.activeTimers.erase _ ∧ _ ↔ _
      rw [OrdSet.mem_erase]
      constructor
      · rintro ⟨⟨hx, hxe⟩, hn⟩
        refine ⟨hx, ?_, hn⟩
        -- the timer has one sequence number
        intro hc
        obtain ⟨t', ht', hs'⟩ := hact x.timer x.sequence hx
        rw [hc] at ht'
        obtain rfl := heap_unique ht ht'
        exact hxe (by cases x; simp_all)
      · rintro ⟨hx, hne', hn⟩
        exact ⟨⟨hx, fun hc => hne' (by rw [hc])⟩, hn⟩
    · have := OrdSet.size_erase ha
      simp only [List.length_cons]
      change a.size + es.length = (q.activeTimers.erase _).size at hsize
      omega

theorem Rep.below_nodup (h : q.Rep es) (b : Entry) : ((q.timers.below b).map (·.timer)).Nodup := by
  refine List.Nodup.map_on ?_ OrdSet.below_nodup
  intro e he e' he' hee
  exact h.entry_unique (OrdSet.mem_below.mp he).1 (OrdSet.mem_below.mp he').1 hee

-- no timer has the address in the sentry, so what is not below it is due later
theorem Rep.sentry_le (h : q.Rep es) (he : e ∈ q.timers) {now : Timestamp} :
    ⟨now, UINTPTR_MAX⟩ ≤ e ↔ now < e.expiration := by
  obtain ⟨t, ht, -⟩ := (h.timers e.expiration e.timer).mp he
  have hb := (h.bounds e.timer t ht).1
  rw [Entry.le_iff]
  constructor
  · rintro (hlt | ⟨-, hle⟩)
    · exact hlt
    · exact absurd hb (Nat.not_lt.mpr hle)
  · exact .inl

theorem Rep.above_first (h : q.Rep es) (now : Timestamp) :
    (q.timers.above ⟨now, UINTPTR_MAX⟩).first.elim true (fun e => decide (now < e.expiration)) = true := by
  cases hf : (q.timers.above ⟨now, UINTPTR_MAX⟩).first with
  | none => rfl
  | some e =>
    obtain ⟨he, hle⟩ := OrdSet.mem_above.mp (OrdSet.first_mem hf)
    exact decide_eq_true ((h.sentry_le he).mp hle)

theorem Rep.split (h : q.Rep []) {b : Entry} {a : OrdSet ActiveTimer}
    (hmem : ∀ x, x ∈ a ↔ x ∈ q.activeTimers ∧ x.timer ∉ (q.timers.below b).map (·.timer))
    (hsz : (q.timers.above b).size = a.size) :
    Rep { q with timers := q.timers.above b, activeTimers := a } (q.timers.below b) := by
  refine ⟨h.bounds, h.inj, ?_, ?_, hsz, ?_, h.below_nodup b, ?_, h.inflight_nodup, ?_⟩
  · intro x p
    simp only [OrdSet.mem_above, hmem]
    constructor
    · rintro ⟨hx, hle⟩
      obtain ⟨t, ht, hx', ha⟩ := (h.timers x p).mp hx
      refine ⟨t, ht, hx', ha, ?_⟩
      intro hm
      obtain ⟨e, he, hep⟩ := List.mem_map.mp hm
      obtain ⟨he, hlt⟩ := OrdSet.mem_below.mp he
      rw [h.entry_unique he hx hep] at hlt
      exact absurd hlt (not_lt_of_ge hle)
    · rintro ⟨t, ht, hx', ha, hn⟩
      have hx := (h.timers x p).mpr ⟨t, ht, hx', ha⟩
      refine ⟨hx, not_lt.mp ?_⟩
      intro hlt
      have hm : ⟨x, p⟩ ∈ q.timers.below b := OrdSet.mem_below.mpr ⟨hx, hlt⟩
      exact hn (List.mem_map_of_mem (f := Entry.timer) hm)
  · intro p s hm
    exact h.active p s ((hmem _).mp hm).1
  · intro e he
    obtain ⟨t, ht, hx, ha⟩ := (h.timers e.expiration e.timer).mp (OrdSet.mem_below.mp he).1
    refine ⟨t, ht, hx, ?_, h.not_inflight ht ha⟩
    intro hm
    exact ((hmem _).mp hm).2 (List.mem_map.mpr ⟨e, he, rfl⟩)
  · intro p hp
    obtain ⟨t, ht, ha⟩ := h.inflight p hp
    exact ⟨t, ht, fun hm => ha ((hmem _).mp hm).1⟩
  · intro p t ht
    rcases h.placed p t ht with ha | hl | hi
    · by_cases hm : p ∈ (q.timers.below b).map (·.timer)
      · exact .inr (.inl hm)
      · exact .inl ((hmem _).mpr ⟨ha, hm⟩)
    · cases hl
    · exact .inr (.inr hi)

theorem Rep.getExpired (h : q.Rep []) (now : Timestamp) :
    ∃ a, q.getExpired now = .ok ({ q with timers := q.timers.above ⟨now, UINTPTR_MAX⟩, activeTimers := a },
        q.timers.below ⟨now, UINTPTR_MAX⟩) ∧
      (∀ x ∈ a, x ∈ q.activeTimers) ∧
      Rep { q with timers := q.timers.above ⟨now, UINTPTR_MAX⟩, activeTimers := a }
      (q.timers.below ⟨now, UINTPTR_MAX⟩) := by
  have hactive : ∀ e ∈ q.timers.below ⟨now, UINTPTR_MAX⟩,
      ∃ t, q.heap e.timer = some t ∧ ⟨e.timer, t.sequence⟩ ∈ q.activeTimers := by
    intro e he
    obtain ⟨t, ht, -, ha⟩ := (h.timers e.expiration e.timer).mp (OrdSet.mem_below.mp he).1
    exact ⟨t, ht, ha⟩
  obtain ⟨a, hok, hmem, hsize⟩ := eraseActive_spec
    (q := { q with timers := q.timers.above ⟨now, UINTPTR_MAX⟩ }) h.active hactive (h.below_nodup _)
  have hsz : (q.timers.above ⟨now, UINTPTR_MAX⟩).size = a.size := by
    have h₁ := OrdSet.size_split (s := q.timers) ⟨now, UINTPTR_MAX⟩
    have h₂ := h.sizes
    have h₃ : a.size + (q.timers.below ⟨now, UINTPTR_MAX⟩).length = q.activeTimers.size := hsize
    omega
  refine ⟨a, ?_, fun x hx => ((hmem x).mp hx).1, h.split hmem hsz⟩
  unfold TimerQueue.getExpired
  simp only [check_of h.sizes, ok_bind, check_of (h.above_first now), hok, check_of hsz, pure_eq_ok]

/-- The armings after a timer for `when` has been inserted. -/
def armingsAdd (q : TimerQueue) (when now : Timestamp) : List Arming :=
  if q.earliestChanged when = true then (q.resetTimerfd when now).armings else q.armings

theorem Rep.addTimerInLoop (h : q.Rep (e :: es)) (now : Timestamp) :
    ∃ t, q.heap e.timer = some t ∧
      q.addTimerInLoop e.timer now =
        .ok { q.schedule e t.sequence with armings := q.armingsAdd e.expiration now } ∧
      Rep { q.schedule e t.sequence with armings := q.armingsAdd e.expiration now } es := by
  obtain ⟨t, ht, hx, hok, hr⟩ := h.insert
  refine ⟨t, ht, ?_, hr.congr rfl rfl rfl rfl rfl⟩
  unfold TimerQueue.addTimerInLoop armingsAdd
  rw [hok, ok_bind]
  by_cases hc : q.earliestChanged e.expiration = true
  · have hd : (q.schedule e t.sequence).deref e.timer = .ok t := deref_ok ht
    simp only [hc, if_true, hd, ok_bind, hx]
    rfl
  · simp only [hc]
    rfl

def rescheduled (q : TimerQueue) (p : Addr) (t : Timer) (now : Timestamp) : TimerQueue :=
  schedule { q with heap := Function.update q.heap p (some (t.restart now)) } ⟨(t.restart now).expiration, p⟩ t.sequence

def discarded (q : TimerQueue) (p : Addr) (t : Timer) : TimerQueue :=
  { q with
    heap := Function.update q.heap p none
    deleted := q.deleted ++ [⟨t.sequence, false, false, false⟩] }

theorem restart_sequence (t : Timer) (now : Timestamp) : (t.restart now).sequence = t.sequence := by
  unfold Timer.restart; split <;> rfl

theorem restart_repeats (t : Timer) (now : Timestamp) : (t.restart now).repeats = t.repeats := by
  unfold Timer.restart; split <;> rfl

theorem Rep.resetEntry (h : q.Rep (e :: es)) (now : Timestamp) :
    ∃ t, q.heap e.timer = some t ∧
      if t.repeats = true ∧ ⟨e.timer, t.sequence⟩ ∉ q.cancelingTimers then
        q.resetEntry now e = .ok (q.rescheduled e.timer t now) ∧ (q.rescheduled e.timer t now).Rep es
      else q.resetEntry now e = .ok (q.discarded e.timer t) ∧ (q.discarded e.timer t).Rep es := by
  obtain ⟨t, ht, -, ha, -⟩ := h.loose e (List.mem_cons_self ..)
  refine ⟨t, ht, ?_⟩
  unfold TimerQueue.resetEntry
  rw [deref_ok ht, ok_bind]
  split
  · have hr := h.restart ht (restart_sequence t now)
    obtain ⟨t', ht', -, hok, hr'⟩ := hr.insert
    have hu : Function.update q.heap e.timer (some (t.restart now)) e.timer = some (t.restart now) :=
      Function.update_self ..
    obtain rfl : t.restart now = t' := Option.some.inj (hu.symm.trans ht')
    rw [restart_sequence] at hok hr'
    exact ⟨by rw [hok]; rfl, hr'⟩
  · obtain ⟨hna, hnt⟩ := h.not_active ht ha
    have h₁ : q.timers.toList.any (fun e' => decide (e'.timer = e.timer)) = false := by
      rw [List.any_eq_false]
      intro e' he' hc
      rw [decide_eq_true_eq] at hc
      exact hnt e'.expiration (hc ▸ he')
    have h₂ : q.activeTimers.toList.any (fun a => decide (a.timer = e.timer)) = false := by
      rw [List.any_eq_false]
      intro a ha' hc
      rw [decide_eq_true_eq] at hc
      exact hna a.sequence (hc ▸ ha')
    refine ⟨?_, ?_⟩
    · unfold TimerQueue.delete
      rw [deref_ok ht, ok_bind, h₁, h₂]
      rfl
    · exact h.free.congr rfl rfl rfl rfl rfl

/-- What the loop of `reset` makes of the batch, one entry after another. -/
inductive Resets (now : Timestamp) : List Entry → TimerQueue → TimerQueue → Prop
  | done {q : TimerQueue} : Resets now [] q q
  | goes {q q' : TimerQueue} {e : Entry} {es : List Entry} {t : Timer} (ht : q.heap e.timer = some t)
      (hr : t.repeats = true) (hc : ⟨e.timer, t.sequence⟩ ∉ q.cancelingTimers)
      (h : Resets now es (q.rescheduled e.timer t now) q') : Resets now (e :: es) q q'
  | ends {q q' : TimerQueue} {e : Entry} {es : List Entry} {t : Timer} (ht : q.heap e.timer = some t)
      (hc : t.repeats = true → ⟨e.timer, t.sequence⟩ ∈ q.cancelingTimers)
      (h : Resets now es (q.discarded e.timer t) q') : Resets now (e :: es) q q'

theorem Resets.inv {P : TimerQueue → Prop} {now : Timestamp}
    (hgo : ∀ q p t, q.heap p = some t → t.repeats = true → P q → P (q.rescheduled p t now))
    (hend : ∀ q p t, q.heap p = some t → (t.repeats = true → ⟨p, t.sequence⟩ ∈ q.cancelingTimers) → P q →
      P (q.discarded p t)) {q q' : TimerQueue} (h : Resets now es q q') (hp : P q) : P q' := by
  induction h with
  | done => exact hp
  | goes ht hr _ _ ih => exact ih (hgo _ _ _ ht hr hp)
  | ends ht hc _ ih => exact ih (hend _ _ _ ht hc hp)

theorem Resets.frame {now : Timestamp} {q q' : TimerQueue} (h : Resets now es q q') :
    q'.running = q.running ∧ q'.cancelingTimers = q.cancelingTimers ∧ q'.fired = q.fired ∧
      q'.batches = q.batches ∧ q'.inflight = q.inflight ∧ q'.numCreated = q.numCreated := by
  induction h with
  | done => exact ⟨rfl, rfl, rfl, rfl, rfl, rfl⟩
  | goes _ _ _ _ ih => exact ih
  | ends _ _ _ ih => exact ih

theorem Rep.resetEntries (now : Timestamp) :
    ∀ {es : List Entry} {q : TimerQueue}, q.Rep es →
      ∃ q', resetEntries now q es = .ok q' ∧ q'.Rep [] ∧ Resets now es q q'
  | [], q, h => ⟨q, rfl, h, .done⟩
  | e :: es, q, h => by
    obtain ⟨t, ht, hs⟩ := h.resetEntry now
    unfold TimerQueue.resetEntries
    by_cases hc : t.repeats = true ∧ ⟨e.timer, t.sequence⟩ ∉ q.cancelingTimers
    · rw [if_pos hc] at hs
      obtain ⟨q', hok, hr, hm⟩ := hs.2.resetEntries now
      exact ⟨q', by rw [hs.1, ok_bind, hok], hr, .goes ht hc.1 hc.2 hm⟩
    · rw [if_neg hc] at hs
      obtain ⟨q', hok, hr, hm⟩ := hs.2.resetEntries now
      refine ⟨q', by rw [hs.1, ok_bind, hok], hr, .ends ht ?_ hm⟩
      intro hrep
      by_contra hn
      exact hc ⟨hrep, hn⟩

/-- The armings at the end of `reset`. -/
def armingsReset (q : TimerQueue) (clock : Timestamp) : List Arming :=
  match q.timers.first with
  | none => q.armings
  | some e => if 0 < e.expiration then (q.resetTimerfd e.expiration clock).armings else q.armings

theorem Rep.reset (h : q.Rep es) (now clock : Timestamp) :
    ∃ q', q.reset es now clock = .ok { q' with armings := q'.armingsReset clock } ∧ q'.Rep [] ∧ Resets now es q q' := by
  obtain ⟨q', hok, hr, hm⟩ := h.resetEntries now
  refine ⟨q', ?_, hr, hm⟩
  unfold TimerQueue.reset armingsReset
  rw [hok, ok_bind]
  cases hf : q'.timers.first with
  | none => rfl
  | some e =>
    obtain ⟨t, ht, hx, -⟩ := (hr.timers e.expiration e.timer).mp (OrdSet.first_mem hf)
    simp only [deref_ok ht, ok_bind, hx]
    by_cases hv : 0 < e.expiration
    · simp only [hv, if_true]
      rfl
    · simp only [hv, if_false]
      rfl

end TimerQueue

end Zhengqi
