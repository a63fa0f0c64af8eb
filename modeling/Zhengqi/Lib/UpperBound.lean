import Mathlib.Tactic.Common

/-!
# Binary search for an upper bound

`std::upper_bound`: the range `[first, first + len)` is halved until it is empty. On any list the
result is a position of it, with a rejected element below and an accepted one at it; on a list where
acceptance goes up it parts the rejected elements from the accepted ones.
-/

namespace UpperBound

def search (p : Nat → Bool) : (fuel first len : Nat) → Nat
  | 0, first, _ => first
  | fuel + 1, first, len =>
    if len = 0 then first
    else if p (first + len / 2) then search p fuel first (len / 2)
    else search p fuel (first + len / 2 + 1) (len - len / 2 - 1)

theorem search_le (p : Nat → Bool) (fuel : Nat) :
    ∀ first len, first ≤ search p fuel first len ∧ search p fuel first len ≤ first + len := by
  induction fuel with
  | zero =>
    intro first len
    exact ⟨Nat.le_refl _, Nat.le_add_right ..⟩
  | succ fuel ih =>
    intro first len
    unfold search
    split
    · omega
    · split
      · have := ih first (len / 2)
        omega
      · have := ih (first + len / 2 + 1) (len - len / 2 - 1)
        omega

/-- Where the range is not empty, what lies below the result and what lies at it was looked at. -/
theorem search_edges (p : Nat → Bool) (fuel : Nat) : ∀ first len, len ≤ fuel →
    (search p fuel first len = first ∨ p (search p fuel first len - 1) = false) ∧
      (search p fuel first len = first + len ∨ p (search p fuel first len) = true) := by
  induction fuel with
  | zero =>
    intro first len h
    obtain rfl : len = 0 := by omega
    exact ⟨.inl rfl, .inl rfl⟩
  | succ fuel ih =>
    intro first len h
    unfold search
    split
    · exact ⟨.inl rfl, .inl (by omega)⟩
    · split
      · rename_i hp
        obtain ⟨h₁, h₂⟩ := ih first (len / 2) (by omega)
        refine ⟨h₁, .inr ?_⟩
        rcases h₂ with h₂ | h₂
        · rw [h₂]
          exact hp
        · exact h₂
      · rename_i hp
        obtain ⟨h₁, h₂⟩ := ih (first + len / 2 + 1) (len - len / 2 - 1) (by omega)
        refine ⟨.inr ?_, ?_⟩
        · rcases h₁ with h₁ | h₁
          · rw [h₁]
            simpa using hp
          · exact h₁
        · rcases h₂ with h₂ | h₂
          · exact .inl (by omega)
          · exact .inr h₂

variable {α : Type*} {p : α → Bool} {xs : List α}

def upperBound (p : α → Bool) (xs : List α) : Nat := search (fun i => xs[i]?.any p) xs.length 0 xs.length

theorem upperBound_le : upperBound p xs ≤ xs.length := by
  have h := (search_le (fun i => xs[i]?.any p) xs.length 0 xs.length).2
  rwa [Nat.zero_add] at h

theorem upperBound_pos {x : α} (hx : xs[0]? = some x) (h : p x = false) : upperBound p xs ≠ 0 := by
  intro h₀
  have hlen : xs.length ≠ 0 := by
    intro hn
    rw [List.length_eq_zero_iff.mp hn] at hx
    cases hx
  rcases (search_edges (fun i => xs[i]?.any p) xs.length 0 xs.length (Nat.le_refl _)).2 with hr | hr
  · rw [upperBound] at h₀
    omega
  · rw [← upperBound, h₀, hx] at hr
    simp [h] at hr

/-- Acceptance goes up along the list. -/
def Ascends (p : α → Bool) (xs : List α) : Prop :=
  ∀ (i j : Nat) (x y : α), i ≤ j → xs[i]? = some x → xs[j]? = some y → p x = true → p y = true

theorem upperBound_spec (hup : Ascends p xs) {i : Nat} {x : α} (hx : xs[i]? = some x) :
    p x = true ↔ upperBound p xs ≤ i := by
  obtain ⟨hlow, hhigh⟩ := search_edges (fun i => xs[i]?.any p) xs.length 0 xs.length (Nat.le_refl _)
  rw [← upperBound] at hlow hhigh
  obtain ⟨hi, -⟩ := List.getElem?_eq_some_iff.mp hx
  constructor
  · intro hp
    by_contra hlt
    have hr : upperBound p xs - 1 < xs.length := by
      have := @upperBound_le _ p xs
      omega
    have hy := List.getElem?_eq_getElem hr
    rcases hlow with hlow | hlow
    · omega
    · rw [hy, Option.any_some, hup i _ x _ (by omega) hx hy hp] at hlow
      cases hlow
  · intro hle
    have hr : upperBound p xs < xs.length := by omega
    have hy := List.getElem?_eq_getElem hr
    rcases hhigh with hhigh | hhigh
    · omega
    · rw [hy, Option.any_some] at hhigh
      exact hup _ i _ x hle hy hx hhigh

end UpperBound
