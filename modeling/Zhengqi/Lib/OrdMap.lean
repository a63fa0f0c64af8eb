import Mathlib.Data.List.Basic
import Mathlib.Tactic.Common

/-!
# Ordered maps

A `std::map`: a list of pairs whose keys ascend. As for the sets, insertion and removal split the list at the key,
so that the order is kept by construction.
-/

set_option linter.unusedSectionVars false

structure OrdMap (κ β : Type*) [LT κ] where
  toList : List (κ × β)
  sorted : toList.Pairwise fun a b => a.1 < b.1

namespace OrdMap

variable {κ β : Type*} [LE κ] [LT κ] [Std.IsLinearOrder κ] [Std.LawfulOrderLT κ] [DecidableLT κ] [DecidableEq κ]

def empty : OrdMap κ β := ⟨[], .nil⟩

def find (m : OrdMap κ β) (k : κ) : Option β := (m.toList.find? (·.1 = k)).map (·.2)

/-- `m[k] = v` -/
def insert (m : OrdMap κ β) (k : κ) (v : β) : OrdMap κ β where
  toList := m.toList.filter (·.1 < k) ++ (k, v) :: m.toList.filter (k < ·.1)
  sorted := by
    rw [List.pairwise_append, List.pairwise_cons]
    refine ⟨m.sorted.filter _, ⟨?_, m.sorted.filter _⟩, ?_⟩
    · intro b hb
      simpa using (List.mem_filter.mp hb).2
    · intro b hb c hc
      have hbk : b.1 < k := by simpa using (List.mem_filter.mp hb).2
      rcases List.mem_cons.mp hc with rfl | hc
      · exact hbk
      · have hkc : k < c.1 := by simpa using (List.mem_filter.mp hc).2
        exact Std.lt_trans hbk hkc

def erase (m : OrdMap κ β) (k : κ) : OrdMap κ β := ⟨m.toList.filter (·.1 ≠ k), m.sorted.filter _⟩

/-- `m[k]`, which makes an entry where there is none. -/
def getD (m : OrdMap κ β) (k : κ) (v : β) : β := (m.find k).getD v

variable {m : OrdMap κ β} {k j : κ} {v w : β}

theorem find_eq_some : m.find k = some v ↔ (k, v) ∈ m.toList := by
  unfold find
  rw [Option.map_eq_some_iff]
  constructor
  · rintro ⟨⟨j, w⟩, hf, rfl⟩
    have hj : j = k := by simpa using List.find?_some hf
    exact hj ▸ List.mem_of_find?_eq_some hf
  · intro hmem
    refine ⟨(k, v), ?_, rfl⟩
    obtain ⟨xs, ys, hl⟩ := List.append_of_mem hmem
    have hs := m.sorted
    rw [hl, List.pairwise_append] at hs
    rw [hl, List.find?_append, List.find?_eq_none.mpr, Option.none_or, List.find?_cons_of_pos (by simp)]
    intro x hx he
    have hlt := hs.2.2 x hx (k, v) (List.mem_cons_self ..)
    rw [show x.1 = k by simpa using he] at hlt
    exact Std.lt_irrefl hlt

theorem find_eq_none : m.find k = none ↔ ∀ v, (k, v) ∉ m.toList := by
  rw [Option.eq_none_iff_forall_ne_some]
  exact forall_congr' fun v => not_congr find_eq_some

theorem mem_insert {a : κ × β} : a ∈ (m.insert k v).toList ↔ a = (k, v) ∨ a.1 ≠ k ∧ a ∈ m.toList := by
  simp only [insert, List.mem_append, List.mem_cons, List.mem_filter, decide_eq_true_eq]
  constructor
  · rintro (⟨ha, hlt⟩ | rfl | ⟨ha, hlt⟩)
    · exact .inr ⟨fun he => Std.lt_irrefl (he ▸ hlt), ha⟩
    · exact .inl rfl
    · exact .inr ⟨fun he => Std.lt_irrefl (he ▸ hlt), ha⟩
  · rintro (rfl | ⟨hne, ha⟩)
    · exact .inr (.inl rfl)
    · rcases Std.lt_trichotomy a.1 k with hlt | he | hlt
      · exact .inl ⟨ha, hlt⟩
      · exact absurd he hne
      · exact .inr (.inr ⟨ha, hlt⟩)

theorem find_insert : (m.insert k v).find j = if j = k then some v else m.find j := by
  split
  · rename_i hj
    rw [hj, find_eq_some, mem_insert]
    exact .inl rfl
  · rename_i hj
    apply Option.ext
    intro w
    rw [find_eq_some, find_eq_some, mem_insert]
    constructor
    · rintro (he | ⟨-, hw⟩)
      · exact absurd (congrArg Prod.fst he) hj
      · exact hw
    · exact fun hw => .inr ⟨hj, hw⟩

theorem find_erase : (m.erase k).find j = if j = k then none else m.find j := by
  split
  · rename_i hj
    rw [hj, find_eq_none]
    intro w hw
    simpa using (List.mem_filter.mp hw).2
  · rename_i hj
    apply Option.ext
    intro w
    rw [find_eq_some, find_eq_some, erase, List.mem_filter]
    simp [hj]

end OrdMap
