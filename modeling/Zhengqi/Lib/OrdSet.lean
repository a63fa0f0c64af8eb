import Mathlib.Order.Lattice
import Mathlib.Tactic.Common

/-!
# Ordered sets

A `std::set`: a strictly increasing list. Insertion and removal are splits of the
list at the element, so that the order is kept by construction; `below` and
`above` are the two halves that `lower_bound` cuts it into.
-/

structure OrdSet (α : Type*) [LinearOrder α] where
  toList : List α
  sorted : toList.Pairwise (· < ·)

namespace OrdSet

variable {α : Type*} [LinearOrder α]

instance : Membership α (OrdSet α) := ⟨fun s a => a ∈ s.toList⟩

instance (a : α) (s : OrdSet α) : Decidable (a ∈ s) := inferInstanceAs (Decidable (a ∈ s.toList))

def empty : OrdSet α := ⟨[], .nil⟩

def size (s : OrdSet α) : Nat := s.toList.length

def first (s : OrdSet α) : Option α := s.toList.head?

def filter (s : OrdSet α) (p : α → Bool) : OrdSet α := ⟨s.toList.filter p, s.sorted.filter p⟩

def insert (s : OrdSet α) (a : α) : OrdSet α where
  toList := s.toList.filter (· < a) ++ a :: s.toList.filter (a < ·)
  sorted := by
    rw [List.pairwise_append, List.pairwise_cons]
    refine ⟨s.sorted.filter _, ⟨?_, s.sorted.filter _⟩, ?_⟩
    · intro b hb
      simpa using (List.mem_filter.mp hb).2
    · intro b hb c hc
      have hba : b < a := by simpa using (List.mem_filter.mp hb).2
      rcases List.mem_cons.mp hc with rfl | hc
      · exact hba
      · have hac : a < c := by simpa using (List.mem_filter.mp hc).2
        exact hba.trans hac

def erase (s : OrdSet α) (a : α) : OrdSet α := s.filter (· ≠ a)

/-- The elements from `begin()` to `lower_bound(b)`. -/
def below (s : OrdSet α) (b : α) : List α := s.toList.filter (· < b)

/-- What is left when those are erased. -/
def above (s : OrdSet α) (b : α) : OrdSet α := s.filter (b ≤ ·)

/-! ## Membership -/

variable {s : OrdSet α} {a b : α}

theorem mem_toList : a ∈ s.toList ↔ a ∈ s := Iff.rfl

@[simp] theorem not_mem_empty : a ∉ (empty : OrdSet α) := List.not_mem_nil

@[simp] theorem mem_insert : b ∈ s.insert a ↔ b = a ∨ b ∈ s := by
  simp only [← mem_toList, insert, List.mem_append, List.mem_cons, List.mem_filter, decide_eq_true_eq]
  constructor
  · rintro (⟨h, -⟩ | rfl | ⟨h, -⟩)
    · exact .inr h
    · exact .inl rfl
    · exact .inr h
  · rintro (rfl | h)
    · exact .inr (.inl rfl)
    · rcases lt_trichotomy b a with hlt | rfl | hgt
      · exact .inl ⟨h, hlt⟩
      · exact .inr (.inl rfl)
      · exact .inr (.inr ⟨h, hgt⟩)

@[simp] theorem mem_erase : b ∈ s.erase a ↔ b ∈ s ∧ b ≠ a := by
  simp [← mem_toList, erase, filter]

@[simp] theorem mem_below : a ∈ s.below b ↔ a ∈ s ∧ a < b := by
  simp [← mem_toList, below]

@[simp] theorem mem_above : a ∈ s.above b ↔ a ∈ s ∧ b ≤ a := by
  simp [← mem_toList, above, filter]

theorem nodup : s.toList.Nodup := s.sorted.imp fun h => h.ne

theorem below_nodup : (s.below b).Nodup := s.nodup.filter _

theorem first_mem (h : s.first = some a) : a ∈ s := List.mem_of_head? h

theorem first_le (h : s.first = some a) (hb : b ∈ s) : a ≤ b := by
  obtain ⟨l, hl⟩ := List.head?_eq_some_iff.mp h
  have hs := s.sorted
  rw [← mem_toList, hl] at hb
  rw [hl, List.pairwise_cons] at hs
  rcases List.mem_cons.mp hb with rfl | hb
  · exact le_refl _
  · exact (hs.1 b hb).le

theorem not_mem_of_first_none (h : s.first = none) : b ∉ s := by
  rw [← mem_toList, List.head?_eq_none_iff.mp h]
  exact List.not_mem_nil

/-! ## Sizes -/

theorem size_insert (h : a ∉ s) : (s.insert a).size = s.size + 1 := by
  have hs : ∀ l : List α, a ∉ l → (l.filter (· < a)).length + (l.filter (a < ·)).length = l.length := by
    intro l hl
    induction l with
    | nil => rfl
    | cons b l ih =>
      rw [List.mem_cons, not_or] at hl
      have := ih hl.2
      rcases lt_or_gt_of_ne hl.1 with hab | hba
      · simp [hab, hab.not_gt]; omega
      · simp [hba, hba.not_gt]; omega
  have := hs s.toList h
  simp only [size, insert, List.length_append, List.length_cons]
  omega

theorem size_erase (h : a ∈ s) : (s.erase a).size + 1 = s.size := by
  have hf : s.toList.filter (· ≠ a) = s.toList.erase a := by
    rw [s.nodup.erase_eq_filter]
    apply List.filter_congr
    intro b _
    by_cases hb : b = a <;> simp [hb]
  have hp : 0 < s.toList.length := List.length_pos_of_mem h
  simp only [size, erase, filter]
  rw [hf, List.length_erase_of_mem h]
  omega

theorem size_split (b : α) : (s.below b).length + (s.above b).size = s.size := by
  have hs : ∀ l : List α, (l.filter (· < b)).length + (l.filter (b ≤ ·)).length = l.length := by
    intro l
    induction l with
    | nil => rfl
    | cons a l ih =>
      rcases lt_or_ge a b with h | h
      · simp [h, h.not_ge]; omega
      · simp [h, h.not_gt]; omega
  exact hs s.toList

end OrdSet
