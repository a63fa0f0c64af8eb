import Zhengqi.Inspector

/-!
# What the inspector answers

The two nested maps together are one map from the name of a module and of a command to the callback and its help
text. The page at the root lists that map, and any other path is cut into names and looked up in it.
-/

namespace Zhengqi.Inspector

open List

variable {i : Inspector} {module command : Bytes}

/-! ## Paths -/

/-- The names in a path. -/
def names (path : Bytes) : List Bytes := (path.splitOn (chr '/')).filter (· ≠ [])

theorem names_append_cons {xs ys : Bytes} (h : chr '/' ∉ xs) :
    names (xs ++ chr '/' :: ys) = (if xs ≠ [] then [xs] else []) ++ names ys := by
  unfold names
  rw [splitOn_eq_splitOnP, splitOnP_append_cons_of_forall_mem, ← splitOn_eq_splitOnP, filter_cons]
  · by_cases hx : xs = [] <;> simp [hx]
  · intro x hx
    rw [beq_eq_false_iff_ne]
    exact fun he => h (he ▸ hx)
  · exact beq_self_eq_true _

theorem names_of_notMem {xs : Bytes} (h : chr '/' ∉ xs) : names xs = if xs ≠ [] then [xs] else [] := by
  rw [names, splitOn_eq_singleton h]
  by_cases hx : xs = [] <;> simp [hx]

theorem splitFrom_eq {str : Bytes} {fuel start : Nat} (hf : str.length - start < fuel) :
    splitFrom str fuel start = names (str.drop start) := by
  induction fuel generalizing start with
  | zero => omega
  | succ fuel ih =>
    unfold splitFrom
    by_cases hmem : chr '/' ∈ str.drop start
    · obtain ⟨xs, ys, hrest, hxs⟩ := eq_append_cons_of_mem hmem
      have hidx : (str.drop start).idxOf (chr '/') = xs.length := by rw [hrest, idxOf_mid hxs]
      have hlen : str.length - start = xs.length + (ys.length + 1) := by
        rw [← length_drop, hrest, length_append, length_cons]
      have hslice : Slice.slice str start (start + xs.length) = xs := by
        rw [Slice.slice, drop_take, Nat.add_sub_cancel_left, hrest, take_left]
      have hdrop : str.drop (start + xs.length + 1) = ys := by
        rw [Nat.add_assoc, ← drop_drop, hrest, drop_mid]
      simp only [hidx, hslice]
      rw [if_pos (by omega), ih (by omega), hdrop, hrest, names_append_cons hxs]
      congr 1
      cases xs with
      | nil => simp
      | cons x xs => simp
    · simp only [idxOf_of_notMem hmem, length_drop, names_of_notMem hmem]
      rw [if_neg (by omega)]
      by_cases hs : start < str.length
      · rw [if_pos hs, if_pos (by rw [ne_eq, drop_eq_nil_iff]; omega)]
      · rw [if_neg hs, if_neg (by rw [ne_eq, not_not, drop_eq_nil_iff]; omega)]

theorem split_eq (str : Bytes) : split str = names str := by
  rw [split, splitFrom_eq (by omega), drop_zero]

/-! ## One map -/

/-- The callback and the help text of each command. -/
abbrev Registry := Bytes → Bytes → Option (InspectorCallback × Bytes)

def Op.register (reg : Registry) : Op → Registry
  | .add module command cb help => fun m c => if m = module ∧ c = command then some (cb, help) else reg m c
  | .remove module command => fun m c => if m = module ∧ c = command then none else reg m c

structure Registers (i : Inspector) (reg : Registry) : Prop where
  modules : ∀ m c, (i.modules.find m).bind (·.find c) = (reg m c).map (·.1)
  helps : ∀ m c, (i.helps.find m).bind (·.find c) = (reg m c).map (·.2)

/-- The map of one module changes, at one command. -/
theorem find_updated {β : Type} {maps : OrdMap Bytes (OrdMap Bytes β)} {module command : Bytes} {inner : OrdMap Bytes β}
    {v : Option β} (h : ∀ c, inner.find c = if c = command then v else (maps.getD module .empty).find c) (m c : Bytes) :
    ((maps.insert module inner).find m).bind (·.find c) =
      if m = module ∧ c = command then v else (maps.find m).bind (·.find c) := by
  rw [OrdMap.find_insert]
  by_cases hm : m = module
  · rw [if_pos hm, Option.bind_some, h, OrdMap.getD]
    by_cases hc : c = command
    · rw [if_pos hc, if_pos ⟨hm, hc⟩]
    · rw [if_neg hc, if_neg fun h => hc h.2, hm]
      cases maps.find module <;> rfl
  · rw [if_neg hm, if_neg fun h => hm h.1]

/-- `maps[module][command] = v` -/
theorem find_assign {β : Type} (maps : OrdMap Bytes (OrdMap Bytes β)) (module command : Bytes) (v : β) (m c : Bytes) :
    ((maps.insert module ((maps.getD module .empty).insert command v)).find m).bind (·.find c) =
      if m = module ∧ c = command then some v else (maps.find m).bind (·.find c) :=
  find_updated (fun _ => OrdMap.find_insert ..) m c

/-- `maps[module].erase(command)` -/
theorem find_erased {β : Type} (maps : OrdMap Bytes (OrdMap Bytes β)) (module command m c : Bytes) :
    ((maps.insert module ((maps.getD module .empty).erase command)).find m).bind (·.find c) =
      if m = module ∧ c = command then none else (maps.find m).bind (·.find c) :=
  find_updated (fun _ => OrdMap.find_erase ..) m c

theorem Registers.exec {reg : Registry} (h : Registers i reg) (op : Op) : Registers (i.exec op) (op.register reg) := by
  cases op with
  | add module command cb help =>
    constructor
    · intro m c
      simp only [Inspector.exec, add, find_assign, Op.register, h.modules]
      split <;> rfl
    · intro m c
      simp only [Inspector.exec, add, find_assign, Op.register, h.helps]
      split <;> rfl
  | remove module command =>
    simp only [Inspector.exec, remove]
    split
    · -- There is no command in a module that is not there
      rename_i hnone
      have hreg : (Op.remove module command).register reg = reg := by
        funext m c
        simp only [Op.register]
        split
        · rename_i hmc
          have hc := h.modules m c
          rw [hmc.1, hnone, Option.bind_none] at hc
          rw [hmc.1]
          exact (Option.map_eq_none_iff.mp hc.symm).symm
        · rfl
      rw [hreg]
      exact h
    · rename_i commands hsome
      have hget : commands = i.modules.getD module .empty := by rw [OrdMap.getD, hsome, Option.getD_some]
      constructor
      · intro m c
        simp only [hget, find_erased, Op.register, h.modules]
        split <;> rfl
      · intro m c
        simp only [find_erased, Op.register, h.helps]
        split <;> rfl

theorem Registers.foldl {reg : Registry} (h : Registers i reg) (ops : List Op) :
    Registers (ops.foldl Inspector.exec i) (ops.foldl Op.register reg) := by
  induction ops generalizing i reg with
  | nil => exact h
  | cons op ops ih => exact ih (h.exec op)

/-! ## The root page -/

/-- Commands with their help texts, in the order of the page. -/
def listing (i : Inspector) : List (Bytes × Bytes × Bytes) :=
  i.helps.toList.flatMap fun (module, list) => list.toList.map fun (command, help) => (module, command, help)

theorem Registers.mem_listing {reg : Registry} (h : Registers i reg) {m c help : Bytes} :
    (m, c, help) ∈ i.listing ↔ ∃ cb, reg m c = some (cb, help) := by
  have hmem : (m, c, help) ∈ i.listing ↔ ∃ list, (m, list) ∈ i.helps.toList ∧ (c, help) ∈ list.toList := by
    simp only [listing, mem_flatMap, mem_map, Prod.exists, Prod.mk.injEq]
    constructor
    · rintro ⟨m', list, hl, c', h', hc, rfl, rfl, rfl⟩
      exact ⟨list, hl, hc⟩
    · rintro ⟨list, hl, hc⟩
      exact ⟨m, list, hl, c, help, hc, rfl, rfl, rfl⟩
  have hreg := h.helps m c
  rw [hmem]
  constructor
  · rintro ⟨list, hl, hc⟩
    rw [OrdMap.find_eq_some.mpr hl, Option.bind_some, OrdMap.find_eq_some.mpr hc] at hreg
    obtain ⟨⟨cb, help'⟩, hr, rfl⟩ := Option.map_eq_some_iff.mp hreg.symm
    exact ⟨cb, hr⟩
  · rintro ⟨cb, hr⟩
    rw [hr, Option.map_some] at hreg
    obtain ⟨list, hl, hc⟩ := Option.bind_eq_some_iff.mp hreg
    exact ⟨list, OrdMap.find_eq_some.mp hl, OrdMap.find_eq_some.mp hc⟩

/-- Modules in their order, and the commands of each in theirs. -/
def Before (a b : Bytes × Bytes × Bytes) : Prop := a.1 < b.1 ∨ a.1 = b.1 ∧ a.2.1 < b.2.1

theorem listing_sorted (i : Inspector) : i.listing.Pairwise Before := by
  unfold listing
  rw [pairwise_flatMap]
  refine ⟨fun ⟨m, list⟩ _ => ?_, ?_⟩
  · rw [pairwise_map]
    exact list.sorted.imp fun hlt => .inr ⟨rfl, hlt⟩
  · refine i.helps.sorted.imp fun {a b} hlt x hx y hy => ?_
    obtain ⟨c, -, rfl⟩ := mem_map.mp hx
    obtain ⟨d, -, rfl⟩ := mem_map.mp hy
    exact .inl hlt

theorem onRequest_root (favicon : Bytes) (i : Inspector) (req : HttpRequest) (resp : HttpResponse)
    (h : req.path = ascii "/") :
    i.onRequest favicon req resp = ok resp (ascii "text/plain")
    (i.listing.flatMap fun (m, c, help) => helpLine m c help) := by
  rw [onRequest, if_pos h, listing, flatMap_assoc]
  congr 2
  funext ⟨m, list⟩
  rw [flatMap_map]

/-- What a path that is cut into names leads to. -/
def answer (favicon : Bytes) (reg : Registry) (method : Method) (resp : HttpResponse) : List Bytes → HttpResponse
  | [] => notFound resp
  | [module] => if module = ascii "favicon.ico" then ok resp (ascii "image/png") favicon else notFound resp
  | module :: command :: args =>
    match reg module command with
    | some (some cb, _) => ok resp (ascii "text/plain") (cb method args)
    | _ => notFound resp

theorem Registers.onRequest {reg : Registry} (h : Registers i reg) (favicon : Bytes) (req : HttpRequest)
    (resp : HttpResponse) (hpath : req.path ≠ ascii "/") :
    i.onRequest favicon req resp = answer favicon reg req.method resp (names req.path) := by
  rw [Inspector.onRequest, if_neg hpath, split_eq]
  cases names req.path with
  | nil => rfl
  | cons module rest =>
    cases rest with
    | nil => rfl
    | cons command args =>
      have hm := h.modules module command
      simp only [answer]
      cases hf : i.modules.find module with
      | none =>
        rw [hf, Option.bind_none] at hm
        rw [Option.map_eq_none_iff.mp hm.symm]
      | some list =>
        rw [hf, Option.bind_some] at hm
        simp only [hm]
        cases reg module command with
        | none => rfl
        | some x =>
          obtain ⟨cb, help⟩ := x
          cases cb with
          | none => rfl
          | some cb => rfl

/-- After any calls of `add` and `remove`, in any order: the root page lists the commands that are registered, each once
and in the order of their names, with the help texts they were last added with; `favicon.ico` alone gives the icon;
any other path is answered by the callback that its first two names were last added with, or by 404 where they are
not registered or that callback is empty. -/
theorem inspector_answers_registered (favicon : Bytes) (ops : List Op) (req : HttpRequest) (resp : HttpResponse) :
    (req.path = ascii "/" → ∃ lines : List (Bytes × Bytes × Bytes), lines.Pairwise Before ∧
      (∀ m c help, (m, c, help) ∈ lines ↔ ∃ cb, ops.foldl Op.register (fun _ _ => none) m c = some (cb, help)) ∧
      (ops.foldl exec {}).onRequest favicon req resp =
        ok resp (ascii "text/plain") (lines.flatMap fun (m, c, help) => helpLine m c help)) ∧
    (req.path ≠ ascii "/" → (ops.foldl exec {}).onRequest favicon req resp =
      answer favicon (ops.foldl Op.register fun _ _ => none) req.method resp (names req.path)) := by
  have h : Registers (ops.foldl exec {}) (ops.foldl Op.register fun _ _ => none) :=
    Registers.foldl ⟨fun _ _ => rfl, fun _ _ => rfl⟩ ops
  refine ⟨fun hroot => ?_, h.onRequest favicon req resp⟩
  exact ⟨_, listing_sorted _, fun m c help => h.mem_listing, onRequest_root favicon _ req resp hroot⟩

/-- A command that echoes its argument, beside one that was removed again. -/
theorem inspector_answers_registered_echo :
    let ops : List Op := [.add (ascii "a") (ascii "b") (some fun _ args => args.flatten) [],
      .add (ascii "a") (ascii "c") none [], .remove (ascii "a") (ascii "c")]
    ((ops.foldl exec {}).onRequest [] { path := ascii "//a/b/x/" } { closeConnection := true }).body = ascii "x" ∧
      ((ops.foldl exec {}).onRequest [] { path := ascii "/a/c" } { closeConnection := true }).statusCode =
      .k404NotFound := by
  intro ops
  have hecho := (inspector_answers_registered [] ops { path := ascii "//a/b/x/" } { closeConnection := true }).2
    (by decide)
  have hgone := (inspector_answers_registered [] ops { path := ascii "/a/c" } { closeConnection := true }).2 (by decide)
  rw [hecho, hgone]
  have hx : names (ascii "//a/b/x/") = [ascii "a", ascii "b", ascii "x"] := by rw [← split_eq]; decide
  have hc : names (ascii "/a/c") = [ascii "a", ascii "c"] := by rw [← split_eq]; decide
  simp only [hx, hc]
  exact ⟨by decide, by decide⟩

end Zhengqi.Inspector
