import Mathlib.Tactic.Common

/-!
# A valve with a high water mark

A source fills a tank and the tank is drained at the other end. When the level reaches the mark a notice is
sent, and on its arrival the valve of the source is shut, unless the tank has run dry meanwhile. Once it is
shut the tank is armed: the drop that empties it sends a second notice, which opens the valve again. `ready`
says that the source may still pour something in before the notices that are on their way arrive.
-/

namespace Valve

inductive Notice
  | high | drained
  deriving DecidableEq, Repr

/-- The stages of a valve, with the notices that are on their way. -/
inductive Stage (mark : Nat) (isOpen armed ready : Bool) (level : Nat) : List Notice → Prop
  | flowing : isOpen = true → armed = false → level < mark → Stage mark isOpen armed ready level []
  | full : isOpen = true → armed = false → ready = false → Stage mark isOpen armed ready level [.high]
  | shut : isOpen = false → armed = true → ready = false → 0 < level → Stage mark isOpen armed ready level []
  | drained : isOpen = false → armed = true → ready = false → level = 0 → Stage mark isOpen armed ready level [.drained]

namespace Stage

variable {mark level n : Nat} {isOpen armed ready : Bool} {notices : List Notice}

/-- Something can be poured in only while the level is below the mark. -/
theorem below (h : Stage mark isOpen armed ready level notices) (hr : ready = true) :
    isOpen = true ∧ armed = false ∧ level < mark ∧ notices = [] := by
  cases h with
  | flowing ho ha hl => exact ⟨ho, ha, hl, rfl⟩
  | full _ _ hn => rw [hn] at hr; cases hr
  | shut _ _ hn => rw [hn] at hr; cases hr
  | drained _ _ hn => rw [hn] at hr; cases hr

theorem mono (h : Stage mark isOpen armed ready level notices) {ready' : Bool} (hr : ready' = true → ready = true) :
    Stage mark isOpen armed ready' level notices := by
  have hf : ready = false → ready' = false := fun hf => Bool.eq_false_iff.mpr fun ht => by rw [hr ht] at hf; cases hf
  cases h with
  | flowing ho ha hl => exact .flowing ho ha hl
  | full ho ha hn => exact .full ho ha (hf hn)
  | shut ho ha hn hl => exact .shut ho ha (hf hn) hl
  | drained ho ha hn hl => exact .drained ho ha (hf hn) hl

/-- The source pours once, and a notice is sent if the level comes up to the mark. -/
theorem fill (h : Stage mark isOpen armed true level notices) :
    Stage mark isOpen armed false n (if mark ≤ n then [.high] else []) := by
  obtain ⟨ho, ha, -, -⟩ := h.below rfl
  split
  · exact .full ho ha rfl
  · exact .flowing ho ha (by omega)

/-- The level goes down, and if the tank is armed and runs dry a notice is sent. -/
theorem drain (h : Stage mark isOpen armed ready level notices) (hn : n ≤ level) :
    Stage mark isOpen armed ready n (notices ++ if 0 < level ∧ n = 0 ∧ armed = true then [.drained] else []) := by
  cases h with
  | flowing ho ha hl =>
    simp only [ha, Bool.false_eq_true, and_false, if_false, List.append_nil]
    exact .flowing ho rfl (by omega)
  | full ho ha hr =>
    simp only [ha, Bool.false_eq_true, and_false, if_false, List.append_nil]
    exact .full ho rfl hr
  | shut ho ha hr hl =>
    by_cases hz : n = 0
    · simp only [hl, hz, ha, and_self, if_true, List.nil_append]
      exact .drained ho rfl hr rfl
    · simp only [hz, false_and, and_false, if_false, List.append_nil]
      exact .shut ho ha hr (by omega)
  | drained ho ha hr hl =>
    have hpos : ¬ 0 < level := by omega
    simp only [hpos, false_and, if_false, List.append_nil]
    exact .drained ho ha hr (by omega)

/-- The first notice arrives: the valve is shut, unless there is nothing left to drain. -/
theorem high (h : Stage mark isOpen armed ready level (.high :: notices)) :
    isOpen = true ∧ armed = false ∧ notices = [] ∧
      (0 < level → Stage mark false true ready level []) ∧
      (level = 0 → 0 < mark → Stage mark isOpen armed ready level []) := by
  cases h with
  | full ho ha hr => exact ⟨ho, ha, rfl, fun hl => .shut rfl rfl hr hl, fun hl hm => .flowing ho ha (by omega)⟩

/-- The second notice arrives: the valve is opened. -/
theorem reopen (h : Stage mark isOpen armed ready level (.drained :: notices)) (hm : 0 < mark) :
    isOpen = false ∧ armed = true ∧ notices = [] ∧ level = 0 ∧ Stage mark true false ready level [] := by
  cases h with
  | drained ho ha _ hl => exact ⟨ho, ha, rfl, hl, .flowing rfl rfl (by omega)⟩

/-- With no notice on its way a shut valve has a drop to wait for. -/
theorem shut_iff (h : Stage mark isOpen armed ready level []) :
    (isOpen = false ↔ armed = true) ∧ (isOpen = false → 0 < level) ∧ (isOpen = true → level < mark) := by
  cases h with
  | flowing ho ha hl => simp [ho, ha, hl]
  | shut ho ha _ hl => simp [ho, ha, hl]

/-- A source whose valve is shut pours nothing, so it can become ready only where the valve is open. -/
theorem poll (h : Stage mark isOpen armed ready level []) {ready' : Bool} (hr : ready' = true → isOpen = true) :
    Stage mark isOpen armed ready' level [] := by
  cases h with
  | flowing ho ha hl => exact .flowing ho ha hl
  | shut ho ha _ hl =>
    refine .shut ho ha ?_ hl
    cases ready' with
    | false => rfl
    | true => rw [hr rfl] at ho; cases ho

end Stage

end Valve
