import Mathlib.Algebra.BigOperators.Group.List.Basic

/-!
# Quantities that grow old

A history lists quantities with their ages. `within n` is the sum of those younger than `n`, which is
also the sum of the first `n` slots, where the slot `i` collects the quantities of age `i`.
-/

namespace Window

variable {α : Type*} [AddCommMonoid α]

def within (n : Nat) : List (α × Nat) → α
  | [] => 0
  | p :: h => (if p.2 < n then p.1 else 0) + within n h

def slot (h : List (α × Nat)) (i : Nat) : α :=
  match h with
  | [] => 0
  | p :: h => (if p.2 = i then p.1 else 0) + slot h i

def slots (h : List (α × Nat)) (n : Nat) : List α := (List.range n).map (slot h)

def aged (d : Nat) (h : List (α × Nat)) : List (α × Nat) := h.map fun p => (p.1, p.2 + d)

variable {h : List (α × Nat)} {n m d i : Nat}

@[simp] theorem within_nil (n : Nat) : within n ([] : List (α × Nat)) = 0 := rfl

theorem within_cons (n : Nat) (p : α × Nat) (h : List (α × Nat)) :
    within n (p :: h) = (if p.2 < n then p.1 else 0) + within n h := rfl

theorem slot_cons (p : α × Nat) (h : List (α × Nat)) (i : Nat) :
    slot (p :: h) i = (if p.2 = i then p.1 else 0) + slot h i := rfl

@[simp] theorem within_zero (h : List (α × Nat)) : within 0 h = 0 := by
  induction h with
  | nil => rfl
  | cons p h ih => simp [within_cons, ih]

theorem within_append (n : Nat) (h k : List (α × Nat)) : within n (h ++ k) = within n h + within n k := by
  induction h with
  | nil => simp
  | cons p h ih => rw [List.cons_append, within_cons, within_cons, ih, add_assoc]

theorem within_succ (n : Nat) (h : List (α × Nat)) : within (n + 1) h = within n h + slot h n := by
  induction h with
  | nil => simp [slot]
  | cons p h ih =>
    have hsplit : (if p.2 < n + 1 then p.1 else 0) = (if p.2 < n then p.1 else 0) + if p.2 = n then p.1 else 0 := by
      rcases Nat.lt_trichotomy p.2 n with hlt | heq | hgt
      · simp [hlt, Nat.ne_of_lt hlt, Nat.lt_succ_of_lt hlt]
      · simp [heq]
      · simp [Nat.not_lt.2 hgt, Nat.not_lt.2 (Nat.le_of_lt hgt), Nat.ne_of_gt hgt]
    rw [within_cons, within_cons, slot_cons, ih, hsplit, add_add_add_comm]

theorem sum_slots (h : List (α × Nat)) (n : Nat) : (slots h n).sum = within n h := by
  induction n with
  | zero => simp [slots]
  | succ n ih =>
    rw [slots, List.range_succ, List.map_append, List.sum_append, ← slots, ih, within_succ]
    simp

theorem take_slots (h : List (α × Nat)) (hm : m ≤ n) : (slots h n).take m = slots h m := by
  rw [slots, ← List.map_take, List.take_range, Nat.min_eq_left hm, slots]

/-! ## Growing old -/

theorem slot_aged (d : Nat) (h : List (α × Nat)) (i : Nat) : slot (aged d h) (i + d) = slot h i := by
  induction h with
  | nil => rfl
  | cons p h ih =>
    show slot ((p.1, p.2 + d) :: aged d h) (i + d) = _
    rw [slot_cons, slot_cons, ih]
    simp

theorem slot_aged_of_lt (h : List (α × Nat)) (hi : i < d) : slot (aged d h) i = 0 := by
  induction h with
  | nil => rfl
  | cons p h ih =>
    show slot ((p.1, p.2 + d) :: aged d h) i = 0
    rw [slot_cons, ih, if_neg (by simp only; omega), add_zero]

theorem slots_aged (d : Nat) (h : List (α × Nat)) (n : Nat) :
    slots (aged d h) (d + n) = List.replicate d 0 ++ slots h n := by
  rw [slots, List.range_add, List.map_append, List.map_map]
  congr 1
  · apply List.ext_getElem
    · simp
    · intro i hi _
      simp only [List.length_map, List.length_range] at hi
      simp [slot_aged_of_lt h hi]
  · apply List.map_congr_left
    intro i _
    show slot (aged d h) (d + i) = slot h i
    rw [Nat.add_comm, slot_aged]

theorem within_aged (n d : Nat) (h : List (α × Nat)) : within n (aged d h) = within (n - d) h := by
  induction h with
  | nil => rfl
  | cons p h ih =>
    have hiff : p.2 + d < n ↔ p.2 < n - d := by omega
    show within n ((p.1, p.2 + d) :: aged d h) = _
    rw [within_cons, within_cons, ih]
    simp only [hiff]

/-- A history with nothing in the ages between `n` and `m`. -/
theorem within_eq (hn : n ≤ m) (hyoung : ∀ p ∈ h, p.2 < m → p.2 < n) : within m h = within n h := by
  induction h with
  | nil => rfl
  | cons p h ih =>
    obtain ⟨hp, hh⟩ := List.forall_mem_cons.1 hyoung
    have hiff : p.2 < m ↔ p.2 < n := ⟨hp, fun hlt => Nat.lt_of_lt_of_le hlt hn⟩
    rw [within_cons, within_cons, ih hh]
    simp only [hiff]

/-! ## A new quantity -/

theorem slots_new (x : α) (h : List (α × Nat)) (n : Nat) :
    slots (h ++ [(x, 0)]) (n + 1) = (slot h 0 + x) :: (slots h (n + 1)).tail := by
  have hslot (i : Nat) : slot (h ++ [(x, 0)]) i = slot h i + if i = 0 then x else 0 := by
    induction h with
    | nil => simp [slot, eq_comm]
    | cons p h ih => rw [List.cons_append, slot_cons, slot_cons, ih, add_assoc]
  simp only [slots, List.range_succ_eq_map, List.map_cons, List.tail_cons, List.map_map, hslot]
  simp [Function.comp_def, hslot]

end Window
