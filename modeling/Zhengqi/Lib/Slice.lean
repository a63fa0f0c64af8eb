import Mathlib.Data.List.Basic
import Mathlib.Tactic.Common

/-!
# Slices of a list and overwriting in place

`slice l i j` is the part of `l` from index `i` up to `j`, and `overwrite l i d`
stores `d` over the elements that start at index `i`. They are the two views of
a block of memory with cursors into it.
-/

namespace Slice

variable {α : Type*}

def slice (l : List α) (i j : Nat) : List α := (l.take j).drop i

def overwrite (l : List α) (i : Nat) (d : List α) : List α := l.take i ++ d ++ l.drop (i + d.length)

theorem length_slice {l : List α} {i j : Nat} (hj : j ≤ l.length) : (slice l i j).length = j - i := by
  simp [slice, Nat.min_eq_left hj]

@[simp] theorem slice_self (l : List α) (i : Nat) : slice l i i = [] := by
  simp [slice]

theorem length_overwrite {l : List α} {i : Nat} {d : List α} (h : i + d.length ≤ l.length) :
    (overwrite l i d).length = l.length := by
  simp only [overwrite, List.length_append, List.length_take, List.length_drop]
  omega

theorem drop_slice (l : List α) (i j n : Nat) : (slice l i j).drop n = slice l (i + n) j := by
  simp [slice, List.drop_drop]

theorem take_slice {l : List α} {i j n : Nat} (h : i + n ≤ j) : (slice l i j).take n = slice l i (i + n) := by
  unfold slice
  rw [List.take_drop, List.take_take, Nat.min_eq_left h]

theorem slice_append_of_le {l m : List α} {i j : Nat} (hj : j ≤ l.length) : slice (l ++ m) i j = slice l i j := by
  unfold slice
  rw [List.take_append_of_le_length hj]

theorem slice_append_slice {l : List α} {i j k : Nat} (hij : i ≤ j) (hjk : j ≤ k) :
    slice l i j ++ slice l j k = slice l i k := by
  have h₁ : (slice l i k).take (j - i) = slice l i j := by
    rw [take_slice (by omega), Nat.add_sub_cancel' hij]
  have h₂ : (slice l i k).drop (j - i) = slice l j k := by
    rw [drop_slice, Nat.add_sub_cancel' hij]
  rw [← h₁, ← h₂, List.take_append_drop]

theorem slice_overwrite_of_le {l d : List α} {i j k : Nat} (hjk : j ≤ k) (hk : k ≤ l.length) :
    slice (overwrite l k d) i j = slice l i j := by
  unfold slice overwrite
  rw [List.append_assoc, List.take_append_of_le_length (by simp; omega), List.take_take, Nat.min_eq_left hjk]

theorem slice_overwrite_self {l d : List α} {i : Nat} (h : i + d.length ≤ l.length) :
    slice (overwrite l i d) i (i + d.length) = d := by
  have ht : (l.take i).length = i := by simp; omega
  have hl : (l.take i ++ d).length = i + d.length := by rw [List.length_append, ht]
  unfold slice overwrite
  rw [List.take_append_of_le_length (Nat.le_of_eq hl.symm), List.take_of_length_le (Nat.le_of_eq hl)]
  exact List.drop_left' ht

/-- Storing `d` at the end of a slice and moving its end over it appends `d`. -/
theorem slice_overwrite_end {l d : List α} {i j : Nat} (hij : i ≤ j) (h : j + d.length ≤ l.length) :
    slice (overwrite l j d) i (j + d.length) = slice l i j ++ d := by
  rw [← slice_append_slice hij (Nat.le_add_right j d.length), slice_overwrite_self h,
    slice_overwrite_of_le (Nat.le_refl j) (by omega)]

theorem slice_overwrite_of_ge {l d : List α} {i j k : Nat} (hki : k + d.length ≤ i) (hk : k ≤ l.length) :
    slice (overwrite l k d) i j = slice l i j := by
  have hd : (l.take k ++ d).length = k + d.length := by simp; omega
  have hdrop : (overwrite l k d).drop i = l.drop i := by
    unfold overwrite
    rw [List.drop_append, hd, List.drop_of_length_le (by omega), List.drop_drop, List.nil_append]
    congr 1; omega
  unfold slice
  rw [List.drop_take, List.drop_take, hdrop]

/-- Storing `d` right before a slice and moving its start back over it prepends `d`. -/
theorem slice_overwrite_start {l d : List α} {i j : Nat} (hij : i + d.length ≤ j) (hj : j ≤ l.length) :
    slice (overwrite l i d) i j = d ++ slice l (i + d.length) j := by
  rw [← slice_append_slice (Nat.le_add_right i d.length) hij, slice_overwrite_self (by omega),
    slice_overwrite_of_ge (Nat.le_refl _) (by omega)]

theorem overwrite_overwrite_end {l d e : List α} {i : Nat} (h : i + d.length ≤ l.length) :
    overwrite (overwrite l i d) (i + d.length) e = overwrite l i (d ++ e) := by
  have ht : (l.take i ++ d).length = i + d.length := by simp; omega
  have hdrop : (overwrite l i d).drop (i + d.length + e.length) = l.drop (i + (d ++ e).length) := by
    rw [← List.drop_drop, overwrite, List.drop_left' ht, List.drop_drop, List.length_append, Nat.add_assoc]
  rw [overwrite, hdrop, overwrite, List.take_left' ht, overwrite, List.append_assoc (l.take i) d e]

/-- A shorter part is stored over the start of what was stored. -/
theorem overwrite_overwrite_start {l d e : List α} {i : Nat} (h : i ≤ l.length) (he : e.length ≤ d.length) :
    overwrite (overwrite l i d) i e = overwrite l i (e ++ d.drop e.length) := by
  have ht : (l.take i).length = i := by simp; omega
  have hdrop : (overwrite l i d).drop (i + e.length) =
      d.drop e.length ++ l.drop (i + (e ++ d.drop e.length).length) := by
    have hlen : (e ++ d.drop e.length).length = d.length := by simp; omega
    rw [← List.drop_drop, overwrite, List.append_assoc, List.drop_left' ht, List.drop_append_of_le_length he, hlen]
  have htake : (overwrite l i d).take i = l.take i := by
    rw [overwrite, List.append_assoc, List.take_left' ht]
  rw [overwrite, htake, hdrop, overwrite]
  simp only [List.append_assoc]

end Slice
