import Mathlib.Tactic.Common

/-!
# Runs of a step function that may stop

A system is a step function `σ → ℓ → Except ε σ`: a label is taken from a state,
and the step answers the next state or the error that stops the system. `run`
takes a list of labels. Invariants are proved for one step and carried along a
run by `run_inv`; `Meets` restricts a run to labels that satisfy a condition in
the state they are taken from, and `track` is what an observer knows after a run who
sees the labels and the states they are taken from.
-/

namespace Run

theorem bind_ok {ε α β} {x : Except ε α} {f : α → Except ε β} {r : β} :
    (x >>= f) = .ok r ↔ ∃ a, x = .ok a ∧ f a = .ok r := by
  cases x with
  | error e => simp [bind, Except.bind]
  | ok a => simp [bind, Except.bind]

theorem bind_error {ε α β} {x : Except ε α} {f : α → Except ε β} {e : ε} :
    (x >>= f) = .error e ↔ x = .error e ∨ ∃ a, x = .ok a ∧ f a = .error e := by
  cases x with
  | error e => simp [bind, Except.bind]
  | ok a => simp [bind, Except.bind]

@[simp] theorem ok_bind {ε α β} (a : α) (f : α → Except ε β) : ((.ok a : Except ε α) >>= f) = f a := rfl

@[simp] theorem error_bind {ε α β} (e : ε) (f : α → Except ε β) :
    ((.error e : Except ε α) >>= f) = .error e := rfl

@[simp] theorem pure_eq_ok {ε α} (a : α) : (pure a : Except ε α) = .ok a := rfl

theorem map_bind_eq {ε α β γ} (x : Except ε α) (f : α → Except ε β) (g : β → γ) :
    (x >>= f).map g = x >>= fun a => (f a).map g := by
  cases x with
  | error e => rfl
  | ok a => rfl

/-- Reads a computed result back. -/
theorem ok_of_map {ε α β} {x : Except ε α} {f : α → β} {b : β} (h : x.map f = .ok b) : ∃ a, x = .ok a ∧ f a = b := by
  cases x with
  | error e => cases h
  | ok a => cases h; exact ⟨a, rfl, rfl⟩

theorem error_of_map {ε α β} {x : Except ε α} {f : α → β} {e : ε} (h : x.map f = .error e) : x = .error e := by
  cases x with
  | error e => cases h; rfl
  | ok a => cases h

theorem ite_ok {ε α} {c : Prop} [Decidable c] {x y : Except ε α} {a : α} (h : (if c then x else y) = .ok a) :
    (c ∧ x = .ok a) ∨ (¬ c ∧ y = .ok a) := by
  split at h
  · exact .inl ⟨‹c›, h⟩
  · exact .inr ⟨‹¬ c›, h⟩

theorem guard_ok {ε α} {c : Prop} [Decidable c] {e : ε} {a b : α} :
    (if c then .ok a else .error e : Except ε α) = .ok b ↔ c ∧ b = a := by
  split
  · exact ⟨fun h => ⟨‹c›, (Except.ok.inj h).symm⟩, fun h => congrArg _ h.2.symm⟩
  · exact ⟨(nomatch ·), fun h => absurd h.1 ‹¬ c›⟩

theorem ite_pure_inv {ε σ} {I : σ → Prop} {c : Prop} [Decidable c] {x : Except ε σ} {s t : σ}
    (hx : c → x = .ok t → I t) (hs : I s) (h : (if c then x else pure s) = .ok t) : I t := by
  rcases ite_ok h with ⟨hc, h⟩ | ⟨-, h⟩
  · exact hx hc h
  · cases h
    exact hs

/-! ## The errors a computation can stop with -/

def Stops {ε α} (p : ε → Prop) (x : Except ε α) : Prop := ∀ e, x = .error e → p e

theorem Stops.ok {ε α} {p : ε → Prop} (a : α) : Stops p (.ok a : Except ε α) := by
  intro e h; cases h

theorem Stops.bind {ε α β} {p : ε → Prop} {x : Except ε α} {f : α → Except ε β} (hx : Stops p x)
    (hf : ∀ a, x = .ok a → Stops p (f a)) : Stops p (x >>= f) := by
  intro e h
  rcases bind_error.mp h with h | ⟨a, ha, h⟩
  · exact hx e h
  · exact hf a ha e h

theorem Stops.ite {ε α} {p : ε → Prop} {c : Prop} [Decidable c] {x y : Except ε α} (hx : c → Stops p x)
    (hy : ¬ c → Stops p y) : Stops p (if c then x else y) := by
  split
  · exact hx ‹c›
  · exact hy ‹¬ c›

theorem Stops.mono {ε α} {p q : ε → Prop} {x : Except ε α} (h : Stops p x) (hpq : ∀ e, p e → q e) : Stops q x :=
  fun e he => hpq e (h e he)

/-! ## Runs -/

section
variable {σ ℓ ε : Type*} (step : σ → ℓ → Except ε σ)

def run : σ → List ℓ → Except ε σ
  | s, [] => .ok s
  | s, l :: ls => step s l >>= fun t => run t ls

@[simp] theorem run_nil (s : σ) : run step s [] = .ok s := rfl

theorem run_cons (s : σ) (l : ℓ) (ls : List ℓ) : run step s (l :: ls) = step s l >>= fun t => run step t ls := rfl

theorem foldlM_eq_run (s : σ) (ls : List ℓ) : ls.foldlM step s = run step s ls := by
  induction ls generalizing s with
  | nil => rfl
  | cons l ls ih =>
    rw [List.foldlM_cons, run_cons]
    exact bind_congr ih

theorem run_append (s : σ) (ls ms : List ℓ) :
    run step s (ls ++ ms) = run step s ls >>= fun t => run step t ms := by
  induction ls generalizing s with
  | nil => rfl
  | cons l ls ih =>
    rw [List.cons_append, run_cons, run_cons]
    cases step s l with
    | error e => rfl
    | ok t => exact ih t

theorem run_cons_ok {s u : σ} {l : ℓ} {ls : List ℓ} :
    run step s (l :: ls) = .ok u ↔ ∃ t, step s l = .ok t ∧ run step t ls = .ok u := bind_ok

theorem run_append_ok {s u : σ} {ls ms : List ℓ} :
    run step s (ls ++ ms) = .ok u ↔ ∃ t, run step s ls = .ok t ∧ run step t ms = .ok u := by
  rw [run_append]; exact bind_ok

/-- Every label is taken from a state in which it satisfies `C`. -/
def Meets (C : σ → ℓ → Prop) : σ → List ℓ → Prop
  | _, [] => True
  | s, l :: ls => C s l ∧ ∀ t, step s l = .ok t → Meets C t ls

variable {step} {C : σ → ℓ → Prop}

theorem meets_cons_of_ok {s t : σ} {l : ℓ} {ls : List ℓ} (hs : step s l = .ok t) :
    Meets step C s (l :: ls) ↔ C s l ∧ Meets step C t ls := by
  simp [Meets, hs]

theorem meets_cons_of_error {s : σ} {e : ε} {l : ℓ} {ls : List ℓ} (hs : step s l = .error e) :
    Meets step C s (l :: ls) ↔ C s l := by
  simp [Meets, hs]

instance Meets.decide [∀ s l, Decidable (C s l)] : ∀ (s : σ) (ls : List ℓ), Decidable (Meets step C s ls)
  | _, [] => .isTrue trivial
  | s, l :: ls =>
    match h : step s l with
    | .error _ => decidable_of_iff _ (meets_cons_of_error h).symm
    | .ok t =>
      have := Meets.decide t ls
      decidable_of_iff _ (meets_cons_of_ok h).symm

theorem Meets.of_forall : ∀ {ls : List ℓ} {s : σ}, (∀ l ∈ ls, ∀ s, C s l) → Meets step C s ls
  | [], _, _ => trivial
  | l :: _, s, h =>
    ⟨h l (List.mem_cons_self ..) s, fun _ _ => Meets.of_forall fun m hm => h m (List.mem_cons_of_mem _ hm)⟩

theorem Meets.and_forall {p : ℓ → Prop} : ∀ {ls : List ℓ} {s : σ}, Meets step C s ls → (∀ l ∈ ls, p l) →
    Meets step (fun s l => C s l ∧ p l) s ls
  | [], _, _, _ => trivial
  | l :: _, _, h, hp => ⟨⟨h.1, hp l (List.mem_cons_self ..)⟩, fun t ht =>
      Meets.and_forall (h.2 t ht) fun m hm => hp m (List.mem_cons_of_mem _ hm)⟩

theorem meets_of_stops {p : ε → Prop} : ∀ {ls : List ℓ} {s : σ}, Stops p (run step s ls) →
    Meets step (fun s l => Stops p (step s l)) s ls
  | [], _, _ => trivial
  | l :: ls, s, h => by
    refine ⟨fun e he => h e ?_, fun t ht => meets_of_stops fun e he => h e ?_⟩
    · rw [run_cons, he, error_bind]
    · rw [run_cons, ht, ok_bind, he]

theorem Meets.append_left : ∀ {ls ms : List ℓ} {s : σ}, Meets step C s (ls ++ ms) → Meets step C s ls
  | [], _, _, _ => trivial
  | _ :: _, _, _, h => ⟨h.1, fun t ht => (h.2 t ht).append_left⟩

theorem Meets.append {s t : σ} {ls ms : List ℓ} (h : Meets step C s (ls ++ ms)) (ht : run step s ls = .ok t) :
    Meets step C s ls ∧ Meets step C t ms := by
  induction ls generalizing s with
  | nil => cases ht; exact ⟨trivial, h⟩
  | cons l ls ih =>
    obtain ⟨u, hu, hr⟩ := (run_cons_ok step).mp ht
    obtain ⟨h₁, h₂⟩ := h
    refine ⟨⟨h₁, fun v hv => ?_⟩, (ih (h₂ u hu) hr).2⟩
    rw [hu] at hv; cases hv
    exact (ih (h₂ u hu) hr).1

/-- The invariant rule: what every permitted step preserves, a run preserves. -/
theorem Meets.inv {I : σ → Prop} (hI : ∀ s l t, I s → C s l → step s l = .ok t → I t) :
    ∀ {ls : List ℓ} {s t : σ}, Meets step C s ls → I s → run step s ls = .ok t → I t
  | [], s, t, _, hs, hr => by cases hr; exact hs
  | l :: ls, s, t, hm, hs, hr => by
    obtain ⟨u, hu, hr⟩ := (run_cons_ok step).mp hr
    exact Meets.inv hI (hm.2 u hu) (hI s l u hs hm.1 hu) hr

/-- A run along an invariant stops only with an error that some step from an
invariant state can produce. -/
theorem Meets.no_error {I : σ → Prop} {e : ε} (hI : ∀ s l t, I s → C s l → step s l = .ok t → I t)
    (he : ∀ s l, I s → C s l → step s l ≠ .error e) :
    ∀ {ls : List ℓ} {s : σ}, Meets step C s ls → I s → run step s ls ≠ .error e
  | [], s, _, _ => by simp
  | l :: ls, s, hm, hs => by
    intro hr
    rcases bind_error.mp hr with hr | ⟨u, hu, hr⟩
    · exact he s l hs hm.1 hr
    · exact Meets.no_error hI he (hm.2 u hu) (hI s l u hs hm.1 hu) hr

/-- The simulation rule: when every permitted step from a related state succeeds
and follows `astep`, the whole run succeeds and follows the abstract run. -/
theorem Meets.simulates {α : Type*} {R : σ → α → Prop} {astep : α → ℓ → α}
    (hR : ∀ s a l, R s a → C s l → ∃ t, step s l = .ok t ∧ R t (astep a l)) :
    ∀ {ls : List ℓ} {s : σ} {a : α}, Meets step C s ls → R s a →
      ∃ t, run step s ls = .ok t ∧ R t (ls.foldl astep a)
  | [], s, a, _, hs => ⟨s, rfl, hs⟩
  | l :: ls, s, a, hm, hs => by
    obtain ⟨u, hu, hru⟩ := hR s a l hs hm.1
    obtain ⟨t, ht, hrt⟩ := Meets.simulates hR (hm.2 u hu) hru
    exact ⟨t, (run_cons_ok step).mpr ⟨u, hu, ht⟩, hrt⟩

variable (step) in
/-- The value of an observer who starts with `a` and takes note of every label that is taken. -/
def track {α : Type*} (note : σ → α → ℓ → α) : σ → α → List ℓ → α
  | _, a, [] => a
  | s, a, l :: ls =>
    match step s l with
    | .ok t => track note t (note s a l) ls
    | .error _ => a

theorem track_cons_of_ok {α : Type*} {note : σ → α → ℓ → α} {s t : σ} {a : α} {l : ℓ} {ls : List ℓ}
    (hs : step s l = .ok t) : track step note s a (l :: ls) = track step note t (note s a l) ls := by
  rw [track, hs]

/-- When every permitted step succeeds and what the observer notes of it goes with the state
after it, the run succeeds and its last state goes with what the observer knows. -/
theorem Meets.tracks {α : Type*} {R : σ → α → Prop} {note : σ → α → ℓ → α}
    (hR : ∀ s a l, R s a → C s l → ∃ t, step s l = .ok t ∧ R t (note s a l)) :
    ∀ {ls : List ℓ} {s : σ} {a : α}, Meets step C s ls → R s a →
      ∃ t, run step s ls = .ok t ∧ R t (track step note s a ls)
  | [], s, a, _, hs => ⟨s, rfl, hs⟩
  | l :: ls, s, a, hm, hs => by
    obtain ⟨u, hu, hru⟩ := hR s a l hs hm.1
    rw [run_cons, hu, ok_bind, track_cons_of_ok hu]
    exact Meets.tracks hR (hm.2 u hu) hru

theorem run_tracks {α : Type*} {R : σ → α → Prop} {note : σ → α → ℓ → α}
    (hR : ∀ s a l, R s a → ∃ t, step s l = .ok t ∧ R t (note s a l)) {ls : List ℓ} {s : σ} {a : α} (hs : R s a) :
    ∃ t, run step s ls = .ok t ∧ R t (track step note s a ls) :=
  Meets.tracks (C := fun _ _ => True) (fun s a l h _ => hR s a l h) (Meets.of_forall fun _ _ _ => trivial) hs

theorem run_track_inv {α : Type*} {R : σ → α → Prop} {note : σ → α → ℓ → α}
    (hR : ∀ s a l t, R s a → step s l = .ok t → R t (note s a l)) :
    ∀ {ls : List ℓ} {s t : σ} {a : α}, R s a → run step s ls = .ok t → R t (track step note s a ls)
  | [], s, t, a, hs, hr => by cases hr; exact hs
  | l :: ls, s, t, a, hs, hr => by
    obtain ⟨u, hu, hr⟩ := (run_cons_ok step).mp hr
    rw [track_cons_of_ok hu]
    exact run_track_inv hR (hR s a l u hs hu) hr

theorem run_inv {I : σ → Prop} (hI : ∀ s l t, I s → step s l = .ok t → I t) :
    ∀ {ls : List ℓ} {s t : σ}, I s → run step s ls = .ok t → I t
  | [], s, t, hs, hr => by cases hr; exact hs
  | l :: ls, s, t, hs, hr => by
    obtain ⟨u, hu, hr⟩ := (run_cons_ok step).mp hr
    exact run_inv hI (hI s l u hs hu) hr

/-- The simulation rule for a run that succeeds. -/
theorem run_follows {α : Type*} {R : σ → α → Prop} {astep : α → ℓ → α}
    (hR : ∀ s a l t, R s a → step s l = .ok t → R t (astep a l)) :
    ∀ {ls : List ℓ} {s t : σ} {a : α}, R s a → run step s ls = .ok t → R t (ls.foldl astep a)
  | [], s, t, a, hs, hr => by cases hr; exact hs
  | l :: ls, s, t, a, hs, hr => by
    obtain ⟨u, hu, hr⟩ := (run_cons_ok step).mp hr
    have hrest := run_follows hR (hR s a l u hs hu) hr
    exact hrest

theorem foldlM_inv {I : σ → Prop} {ls : List ℓ} {s t : σ} (hI : ∀ s l t, I s → step s l = .ok t → I t) (hs : I s)
    (h : ls.foldlM step s = .ok t) : I t := by
  rw [foldlM_eq_run] at h
  exact run_inv hI hs h

/-- When every step from an invariant state goes on, or stops with an error in `p`, a run does. -/
theorem run_stops_or_inv {I : σ → Prop} {p : ε → Prop}
    (hI : ∀ s l, I s → (∃ e, step s l = .error e ∧ p e) ∨ ∃ t, step s l = .ok t ∧ I t) :
    ∀ {ls : List ℓ} {s : σ}, I s → (∃ e, run step s ls = .error e ∧ p e) ∨ ∃ t, run step s ls = .ok t ∧ I t
  | [], s, hs => .inr ⟨s, rfl, hs⟩
  | l :: ls, s, hs => by
    rw [run_cons]
    rcases hI s l hs with ⟨e, he, hp⟩ | ⟨t, ht, hi⟩
    · rw [he]
      exact .inl ⟨e, rfl, hp⟩
    · rw [ht]
      exact run_stops_or_inv hI hi

/-- When every permitted step from an invariant state succeeds, the whole run does. -/
theorem Meets.total {I : σ → Prop} (hI : ∀ s l, I s → C s l → ∃ t, step s l = .ok t ∧ I t) :
    ∀ {ls : List ℓ} {s : σ}, Meets step C s ls → I s → ∃ t, run step s ls = .ok t ∧ I t
  | [], s, _, hs => ⟨s, rfl, hs⟩
  | l :: ls, s, hm, hs => by
    obtain ⟨u, hu, hi⟩ := hI s l hs hm.1
    obtain ⟨t, ht, hi⟩ := Meets.total hI (hm.2 u hu) hi
    exact ⟨t, (run_cons_ok step).mpr ⟨u, hu, ht⟩, hi⟩

theorem run_total {I : σ → Prop} (hI : ∀ s l, I s → ∃ t, step s l = .ok t ∧ I t) {ls : List ℓ} {s : σ} (hs : I s) :
    ∃ t, run step s ls = .ok t ∧ I t :=
  Meets.total (C := fun _ _ => True) (fun s l hi _ => hI s l hi) (Meets.of_forall fun _ _ _ => trivial) hs

/-- Where a label in `D` can always be taken and brings the state nearer, a run gets there. -/
theorem run_reaches {I : σ → Prop} {m : σ → Nat} {D : ℓ → Prop}
    (hI : ∀ s, I s → m s ≠ 0 → ∃ l, D l ∧ ∃ t, step s l = .ok t ∧ I t ∧ m t < m s) {s : σ} (hs : I s) :
    ∃ ls, (∀ l ∈ ls, D l) ∧ ls.length ≤ m s ∧ ∃ t, run step s ls = .ok t ∧ I t ∧ m t = 0 := by
  induction hn : m s using Nat.strongRecOn generalizing s with
  | _ n ih =>
    by_cases hz : n = 0
    · exact ⟨[], by simp, Nat.zero_le _, s, rfl, hs, hn.trans hz⟩
    · obtain ⟨l, hl, t, ht, hit, hlt⟩ := hI s hs (hn.trans_ne hz)
      rw [hn] at hlt
      obtain ⟨ls, hls, hk, u, hu, hiu, hzu⟩ := ih (m t) hlt hit rfl
      refine ⟨l :: ls, List.forall_mem_cons.mpr ⟨hl, hls⟩, ?_, u, (run_cons_ok step).mpr ⟨t, ht, hu⟩, hiu, hzu⟩
      rw [List.length_cons]
      omega

theorem run_replicate_reaches {I : σ → Prop} {m : σ → Nat} {l : ℓ}
    (hI : ∀ s, I s → m s ≠ 0 → ∃ t, step s l = .ok t ∧ I t ∧ m t < m s) {s : σ} (hs : I s) :
    ∃ k ≤ m s, ∃ t, run step s (List.replicate k l) = .ok t ∧ I t ∧ m t = 0 := by
  obtain ⟨ls, hls, hk, h⟩ := run_reaches (D := (· = l)) (fun s hi hz => ⟨l, rfl, hI s hi hz⟩) hs
  rw [List.eq_replicate_of_mem hls] at h
  exact ⟨ls.length, hk, h⟩

/-- A measure that no step raises, and that every label in `D` lowers as long as it is not zero. -/
theorem run_countP_le {I : σ → Prop} {m : σ → Nat} {D : ℓ → Bool}
    (hI : ∀ s l t, I s → step s l = .ok t → I t ∧ m t ≤ m s - (D l).toNat) :
    ∀ {ls : List ℓ} {s t : σ}, I s → run step s ls = .ok t → m t ≤ m s - ls.countP D
  | [], s, t, _, hr => by
    cases hr
    exact Nat.le_refl _
  | l :: ls, s, t, hs, hr => by
    obtain ⟨u, hu, hr⟩ := (run_cons_ok step).mp hr
    obtain ⟨hi, hle⟩ := hI s l u hs hu
    have hrest := run_countP_le hI hi hr
    rw [List.countP_cons]
    cases hD : D l with
    | false =>
      rw [hD] at hle
      exact Nat.le_trans hrest (Nat.sub_le_sub_right hle _)
    | true =>
      rw [hD, Bool.toNat_true] at hle
      rw [if_pos rfl]
      omega

/-- When a step succeeds exactly where `C` holds, and stops with `e` elsewhere, a run
succeeds exactly when it meets `C`. The invariant may speak of the labels to come. -/
theorem run_iff_meets {I : σ → List ℓ → Prop} {e : ε}
    (hok : ∀ s l ls, I s (l :: ls) → C s l → ∃ t, step s l = .ok t ∧ I t ls)
    (hstop : ∀ s l ls, I s (l :: ls) → ¬ C s l → step s l = .error e) :
    ∀ {ls : List ℓ} {s : σ}, I s ls →
      (Meets step C s ls ∧ ∃ t, run step s ls = .ok t ∧ I t []) ∨ (¬ Meets step C s ls ∧ run step s ls = .error e)
  | [], s, hs => .inl ⟨trivial, s, rfl, hs⟩
  | l :: ls, s, hs => by
    by_cases hc : C s l
    · obtain ⟨u, hu, hi⟩ := hok s l ls hs hc
      rw [meets_cons_of_ok hu, run_cons, hu, ok_bind]
      rcases run_iff_meets hok hstop hi with ⟨hm, h⟩ | ⟨hm, h⟩
      · exact .inl ⟨⟨hc, hm⟩, h⟩
      · exact .inr ⟨fun h => hm h.2, h⟩
    · have he := hstop s l ls hs hc
      rw [meets_cons_of_error he, run_cons, he]
      exact .inr ⟨hc, rfl⟩

/-- As long as labels satisfy `C` the system goes on and `G` holds; a label that does not
stops it, or breaks `G` for good. -/
theorem run_good_iff_meets {I G : σ → Prop} (hgood : ∀ s, I s → G s)
    (hok : ∀ s l, I s → C s l → ∃ t, step s l = .ok t ∧ I t)
    (hbad : ∀ s l t, I s → ¬ C s l → step s l = .ok t → ¬ G t) (hstay : ∀ s l t, step s l = .ok t → G t → G s) :
    ∀ {ls : List ℓ} {s : σ}, I s → ((∃ t, run step s ls = .ok t ∧ G t) ↔ Meets step C s ls)
  | [], s, hs => ⟨fun _ => trivial, fun _ => ⟨s, rfl, hgood s hs⟩⟩
  | l :: ls, s, hs => by
    by_cases hc : C s l
    · obtain ⟨u, hu, hi⟩ := hok s l hs hc
      rw [meets_cons_of_ok hu, run_cons, hu, ok_bind, run_good_iff_meets hgood hok hbad hstay hi]
      exact ⟨fun h => ⟨hc, h⟩, And.right⟩
    · refine ⟨?_, fun h => absurd h.1 hc⟩
      rintro ⟨t, ht, hg⟩
      obtain ⟨u, hu, hr⟩ := (run_cons_ok step).mp ht
      have hgu : G u := by
        by_contra hn
        exact run_inv (I := fun s => ¬ G s) (fun s l t hs ht hg => hs (hstay s l t ht hg)) hn hr hg
      exact absurd hgu (hbad s l u hs hc hu)

/-- Along labels that satisfy `D`: as long as they satisfy `C` too the system goes on and `G`
holds; a label that does not stops it, or breaks `G`. -/
theorem Meets.total_iff {D : σ → ℓ → Prop} {I G : σ → Prop} (hgood : ∀ s, I s → G s)
    (hok : ∀ s l, I s → D s l → C s l → ∃ t, step s l = .ok t ∧ I t)
    (hbad : ∀ s l t, I s → D s l → ¬ C s l → step s l = .ok t → ¬ G t) :
    ∀ {ls : List ℓ} {s : σ}, Meets step D s ls → I s →
      ((∀ ms, ms <+: ls → ∃ t, run step s ms = .ok t ∧ G t) ↔ Meets step C s ls)
  | [], s, _, hs => by
    refine ⟨fun _ => trivial, fun _ ms hm => ?_⟩
    rw [List.prefix_nil.mp hm]
    exact ⟨s, rfl, hgood s hs⟩
  | l :: ls, s, hd, hs => by
    by_cases hc : C s l
    · obtain ⟨u, hu, hi⟩ := hok s l hs hd.1 hc
      rw [meets_cons_of_ok hu, ← Meets.total_iff hgood hok hbad (hd.2 u hu) hi]
      refine ⟨fun h => ⟨hc, fun ms hm => ?_⟩, fun h ms hp => ?_⟩
      · have hl := h (l :: ms) (List.cons_prefix_cons.mpr ⟨rfl, hm⟩)
        rwa [run_cons, hu] at hl
      · cases ms with
        | nil => exact ⟨s, rfl, hgood s hs⟩
        | cons m ms =>
          obtain ⟨rfl, hms⟩ := List.cons_prefix_cons.mp hp
          rw [run_cons, hu]
          exact h.2 ms hms
    · refine ⟨fun h => ?_, fun h => absurd h.1 hc⟩
      obtain ⟨t, ht, hg⟩ := h [l] (List.prefix_append [l] ls)
      obtain ⟨u, hu, ht⟩ := (run_cons_ok step).mp ht
      cases ht
      exact absurd hg (hbad s l t hs hd.1 hc hu)

/-- As long as labels satisfy `C` every outcome on the way has `Q`; a label that does not
leads to an outcome without it. -/
theorem outcomes_iff_meets {I : σ → Prop} {Q : Except ε σ → Prop} (hgood : ∀ s, I s → Q (.ok s))
    (hok : ∀ s l t, I s → C s l → step s l = .ok t → I t)
    (herr : ∀ s l e, I s → C s l → step s l = .error e → Q (.error e))
    (hbad : ∀ s l, I s → ¬ C s l → ¬ Q (step s l)) :
    ∀ {ls : List ℓ} {s : σ}, I s → ((∀ ms, ms <+: ls → Q (run step s ms)) ↔ Meets step C s ls)
  | [], s, hs => by
    refine ⟨fun _ => trivial, fun _ ms hm => ?_⟩
    rw [List.prefix_nil.mp hm]
    exact hgood s hs
  | l :: ls, s, hs => by
    constructor
    · intro h
      have hc : C s l := by
        by_contra hc
        have hl := h [l] (List.prefix_append [l] ls)
        apply hbad s l hs hc
        cases hsl : step s l <;> simpa [run_cons, hsl] using hl
      refine ⟨hc, fun t ht => (outcomes_iff_meets hgood hok herr hbad (hok s l t hs hc ht)).mp fun ms hm => ?_⟩
      have hl := h (l :: ms) (List.cons_prefix_cons.mpr ⟨rfl, hm⟩)
      rw [run_cons, ht] at hl
      exact hl
    · rintro ⟨hc, hm⟩ ms hp
      cases ms with
      | nil => exact hgood s hs
      | cons m ms =>
        obtain ⟨rfl, hms⟩ := List.cons_prefix_cons.mp hp
        rw [run_cons]
        cases hsl : step s m with
        | error e => exact herr s m e hs hc hsl
        | ok t => exact (outcomes_iff_meets hgood hok herr hbad (hok s m t hs hc hsl)).mpr (hm t hsl) ms hms

end

end Run
