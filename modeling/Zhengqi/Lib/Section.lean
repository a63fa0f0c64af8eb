import Zhengqi.Lib.Run

/-!
# Critical sections

The thread that holds a lock goes from one statement to the next: `stmt s k` is the state behind the
statement `k` and the statement that follows, or `none` where the lock is released. `Ends` is the
rest of a section as one step, whatever other threads do in between, as long as that is a `Frame`
for the statements.
-/

namespace Section

variable {ε σ κ : Type*}

/-- From the statement `k` on, the section releases the lock with the state `t`. -/
inductive Ends (stmt : σ → κ → Except ε (σ × Option κ)) : σ → κ → σ → Prop
  | last {s t : σ} {k : κ} : stmt s k = .ok (t, none) → Ends stmt s k t
  | next {s u t : σ} {k l : κ} : stmt s k = .ok (u, some l) → Ends stmt u l t → Ends stmt s k t

variable {stmt : σ → κ → Except ε (σ × Option κ)} {s t : σ} {k : κ}

theorem Ends.first (h : Ends stmt s k t) :
    stmt s k = .ok (t, none) ∨ ∃ u l, stmt s k = .ok (u, some l) ∧ Ends stmt u l t := by
  cases h with
  | last h => exact .inl h
  | next h ht => exact .inr ⟨_, _, h, ht⟩

/-- The statements neither read nor write what `f` changes. -/
def Frame (stmt : σ → κ → Except ε (σ × Option κ)) (f : σ → σ) : Prop :=
  ∀ s k, stmt (f s) k = (stmt s k).map (Prod.map f id)

theorem Frame.ok {f : σ → σ} {u : σ} {l : Option κ} (hf : Frame stmt f) (h : stmt s k = .ok (u, l)) :
    stmt (f s) k = .ok (f u, l) := by
  rw [hf, h]
  rfl

theorem Ends.frame {f : σ → σ} (h : Ends stmt s k t) (hf : Frame stmt f) : Ends stmt (f s) k (f t) := by
  induction h with
  | last h => exact .last (hf.ok h)
  | next h _ ih => exact .next (hf.ok h) ih

/-- A section that nobody interrupts, in a system where `l` is the next statement of the holder. -/
theorem Ends.run {ρ ℓ : Type*} (h : Ends stmt s k t) (step : ρ → ℓ → Except ε ρ) (l : ℓ) (state : σ → Option κ → ρ)
    (hstep : ∀ s k u m, stmt s k = .ok (u, m) → step (state s (some k)) l = .ok (state u m)) :
    ∃ n, Run.run step (state s (some k)) (List.replicate n l) = .ok (state t none) := by
  induction h with
  | last h => exact ⟨1, (Run.run_cons_ok step).mpr ⟨_, hstep _ _ _ _ h, rfl⟩⟩
  | next h _ ih =>
    obtain ⟨n, hn⟩ := ih
    exact ⟨n + 1, (Run.run_cons_ok step).mpr ⟨_, hstep _ _ _ _ h, hn⟩⟩

end Section
