import Mathlib.Data.List.Induction
import Zhengqi.MinuteHourCounterSound

/-!
# Counting under any clock

The readings of `time` may go back and forth. A count is kept while the clock has climbed less than sixty
buckets since, whatever its readings are; and a connection counts its bytes as long as they are less than `2 ^ 31`.
-/

namespace Zhengqi.MinuteHourCounter

open Run Window TrailingBucketCounter
open ConveyorQueue (Fits)

inductive Op
  | add (count now : Int)
  | minute (now : Int)
  | hour (now : Int)
  deriving DecidableEq, Repr

def Op.count : Op → Int
  | .add count _ => count
  | .minute _ => 0
  | .hour _ => 0

def step (c : MinuteHourCounter) : Op → Except Fault MinuteHourCounter
  | .add count now => c.add count now
  | .minute now => do
    let (_, c) ← c.minuteCount now
    pure c
  | .hour now => do
    let (_, c) ← c.hourCount now
    pure c

def minuteCalls : Op → List Reading
  | .add count now => [⟨now, some count⟩]
  | .minute now => [⟨now, none⟩]
  | .hour _ => []

def hourCalls : Op → List Reading
  | .add count now => [⟨now, some count⟩]
  | .minute _ => []
  | .hour now => [⟨now, none⟩]

variable {c c' : MinuteHourCounter} {count now v : Int} {found found' : Int}

/-! ## The two counters of a run -/

theorem add_ok : c.add count now = .ok c' ↔
    c.minuteCounts.call ⟨now, some count⟩ = .ok c'.minuteCounts ∧
      c.hourCounts.call ⟨now, some count⟩ = .ok c'.hourCounts := by
  unfold add
  simp only [bind_ok, pure_eq_ok, Except.ok.injEq, call]
  constructor
  · rintro ⟨m, hm, h, hh, rfl⟩
    exact ⟨hm, hh⟩
  · rintro ⟨hm, hh⟩
    exact ⟨_, hm, _, hh, rfl⟩

/-- One of the two counters is read and put back. -/
theorem count_ok {m : TrailingBucketCounter} (set : TrailingBucketCounter → MinuteHourCounter) :
    (m.trailingCount now >>= fun x => pure (x.1, set x.2)) = .ok (v, c') ↔
      ∃ m', m.call ⟨now, none⟩ = .ok m' ∧ set m' = c' ∧ v = m'.buckets.totalSum := by
  rw [bind_ok]
  constructor
  · rintro ⟨⟨count, m'⟩, hm, h⟩
    obtain ⟨rfl, hset⟩ := Prod.mk.inj (Except.ok.inj h)
    obtain ⟨hcall, hv⟩ := trailingCount_ok.1 hm
    exact ⟨m', hcall, hset, hv⟩
  · rintro ⟨m', hcall, hset, hv⟩
    exact ⟨(v, m'), trailingCount_ok.2 ⟨hcall, hv⟩, by rw [hset]; rfl⟩

theorem minuteCount_ok : c.minuteCount now = .ok (v, c') ↔
    c.minuteCounts.call ⟨now, none⟩ = .ok c'.minuteCounts ∧ c.hourCounts = c'.hourCounts ∧
      v = c'.minuteCounts.buckets.totalSum := by
  refine (count_ok fun minuteCounts => { c with minuteCounts }).trans ⟨?_, ?_⟩
  · rintro ⟨m', hcall, rfl, hv⟩
    exact ⟨hcall, rfl, hv⟩
  · rintro ⟨hcall, hh, hv⟩
    exact ⟨_, hcall, by rw [hh], hv⟩

theorem hourCount_ok : c.hourCount now = .ok (v, c') ↔
    c.hourCounts.call ⟨now, none⟩ = .ok c'.hourCounts ∧ c.minuteCounts = c'.minuteCounts ∧
      v = c'.hourCounts.buckets.totalSum := by
  refine (count_ok fun hourCounts => { c with hourCounts }).trans ⟨?_, ?_⟩
  · rintro ⟨m', hcall, rfl, hv⟩
    exact ⟨hcall, rfl, hv⟩
  · rintro ⟨hcall, hm, hv⟩
    exact ⟨_, hcall, by rw [hm], hv⟩

theorem run_single {x : Reading} {m m' : TrailingBucketCounter} : run call m [x] = .ok m' ↔ m.call x = .ok m' := by
  rw [run_cons_ok]
  constructor
  · rintro ⟨t, ht, h⟩
    rw [run_nil, Except.ok.injEq] at h
    exact h ▸ ht
  · exact fun h => ⟨_, h, rfl⟩

/-- What is read does not matter to a run. -/
theorem discard_ok {x : Except Fault (Int × MinuteHourCounter)} :
    (x >>= fun y => pure y.2) = .ok c' ↔ ∃ v, x = .ok (v, c') := by
  rw [bind_ok]
  constructor
  · rintro ⟨⟨v, c₁⟩, hx, h⟩
    cases h
    exact ⟨v, hx⟩
  · rintro ⟨v, hx⟩
    exact ⟨(v, c'), hx, rfl⟩

theorem step_ok {op : Op} : c.step op = .ok c' ↔
    run call c.minuteCounts (minuteCalls op) = .ok c'.minuteCounts ∧
      run call c.hourCounts (hourCalls op) = .ok c'.hourCounts := by
  cases op with
  | add count now => rw [step, add_ok, minuteCalls, hourCalls, run_single, run_single]
  | minute now =>
    rw [minuteCalls, hourCalls, run_single, run_nil, Except.ok.injEq]
    refine discard_ok.trans ?_
    simp only [minuteCount_ok, exists_and_left, exists_eq, and_true]
  | hour now =>
    rw [minuteCalls, hourCalls, run_single, run_nil, Except.ok.injEq]
    refine discard_ok.trans ?_
    simp only [hourCount_ok, exists_and_left, exists_eq, and_true]
    exact and_comm

/-- Each counter sees only its own calls. -/
theorem run_ok {ops : List Op} : run step c ops = .ok c' ↔
    run call c.minuteCounts (ops.flatMap minuteCalls) = .ok c'.minuteCounts ∧
      run call c.hourCounts (ops.flatMap hourCalls) = .ok c'.hourCounts := by
  induction ops generalizing c with
  | nil =>
    simp only [List.flatMap_nil, run_nil, Except.ok.injEq]
    constructor
    · rintro rfl
      exact ⟨rfl, rfl⟩
    · rintro ⟨hm, hh⟩
      cases c
      cases c'
      simp only at hm hh
      rw [hm, hh]
  | cons op ops ih =>
    simp only [List.flatMap_cons, run_append_ok, run_cons_ok, step_ok, ih]
    constructor
    · rintro ⟨c₁, ⟨hm, hh⟩, hm', hh'⟩
      exact ⟨⟨_, hm, hm'⟩, _, hh, hh'⟩
    · rintro ⟨⟨m, hm, hm'⟩, h, hh, hh'⟩
      exact ⟨⟨m, h⟩, ⟨hm, hh⟩, hm', hh'⟩

theorem minute_counts {ops : List Op} (h : run step (ctor found found') ops = .ok c) :
    Counts 60 1 found (ops.flatMap minuteCalls) c.minuteCounts :=
  (ctor_counts 60 1 found).run (by decide) (by decide) (run_ok.1 h).1

theorem hour_counts {ops : List Op} (h : run step (ctor found found') ops = .ok c) :
    Counts 60 60 found' (ops.flatMap hourCalls) c.hourCounts :=
  (ctor_counts 60 60 found').run (by decide) (by decide) (run_ok.1 h).2

/-! ## Counts that are not negative -/

section
variable {h : List (Int × Nat)} (hh : ∀ p ∈ h, 0 ≤ p.1)
include hh

theorem within_nonneg (n : Nat) : 0 ≤ within n h := by
  induction h with
  | nil => exact le_rfl
  | cons p h ih =>
    obtain ⟨hp, hh⟩ := List.forall_mem_cons.1 hh
    have := ih hh
    rw [within_cons]
    split <;> omega

theorem within_mono {m n : Nat} (hmn : m ≤ n) : within m h ≤ within n h := by
  induction h with
  | nil => exact le_rfl
  | cons p h ih =>
    obtain ⟨hp, hh⟩ := List.forall_mem_cons.1 hh
    have := ih hh
    rw [within_cons, within_cons]
    split <;> split <;> omega

theorem fits_of_lt {N : Nat} (hlt : within N h < 2 ^ 31) : Fits N h := by
  intro k hk
  have := within_nonneg hh k
  have := within_mono hh hk
  constructor <;> omega

end

theorem history_nonneg {S : Int} {xs : List Reading} (hxs : ∀ x ∈ xs, ∀ k ∈ x.count, 0 ≤ k) :
    ∀ p ∈ history S xs, 0 ≤ p.1 := by
  induction xs with
  | nil => simp [history]
  | cons x xs ih =>
    obtain ⟨hx, hxs⟩ := List.forall_mem_cons.1 hxs
    intro p hp
    rcases List.mem_append.1 hp with hp | hp
    · obtain ⟨k, hk, rfl⟩ := List.mem_map.1 hp
      exact hx k (Option.mem_toList.1 hk)
    · exact ih hxs p hp

/-- A counter whose counts are not negative can be read at any time. -/
theorem read_ok {N : Nat} {S : Int} {m : TrailingBucketCounter} {xs : List Reading} (h₂ : 2 ≤ N) (hN : N ≤ 2 ^ 30)
    (hm : Counts N S found xs m) (hxs : ∀ x ∈ xs, ∀ k ∈ x.count, 0 ≤ k) (now : Int) :
    ∃ m', m.call ⟨now, none⟩ = .ok m' ∧ m'.buckets.totalSum = within N (history S (xs ++ [⟨now, none⟩])) := by
  have hfit : Fits N (history S xs) := fits_of_lt (history_nonneg hxs) (hm.buckets.total ▸ hm.buckets.inInt.2)
  have hfit' : Fits N (history S (xs ++ [⟨now, none⟩])) := by
    rw [history_snoc S found, new, Option.toList_none, List.map_nil, List.append_nil]
    exact hfit.aged _
  obtain ⟨m', hm'⟩ := hm.call_ok h₂ hN hfit hfit'
  exact ⟨m', hm', (hm.call h₂ hN hm').buckets.total⟩

/-! ## Clock steps -/

theorem climb_count (S t : Int) (xs ys : List Reading) (s : Int) (k : Option Int) :
    climb S t (xs ++ ⟨s, k⟩ :: ys) = climb S t (xs ++ ⟨s, none⟩ :: ys) := by
  induction xs generalizing t with
  | nil => rfl
  | cons x xs ih => rw [List.cons_append, List.cons_append, climb, climb, ih]

/-- One count among the others. -/
theorem within_one (S : Int) (n : Nat) (xs ys : List Reading) (s count : Int) :
    within n (history S (xs ++ ⟨s, some count⟩ :: ys)) =
      (if climb S s ys < n then count else 0) + within n (history S (xs ++ ⟨s, none⟩ :: ys)) := by
  induction xs with
  | nil => simp [history, new, within_cons]
  | cons x xs ih =>
    rw [List.cons_append, List.cons_append, history, history, within_append, within_append, ih,
      climb_count, add_left_comm]

theorem minuteCalls_nonneg {ops : List Op} (hops : ∀ op ∈ ops, 0 ≤ op.count) :
    ∀ x ∈ ops.flatMap minuteCalls, ∀ k ∈ x.count, 0 ≤ k := by
  intro x hx k hk
  obtain ⟨op, hop, hx⟩ := List.mem_flatMap.1 hx
  have hnonneg := hops op hop
  cases op with
  | add count now =>
    rw [List.mem_singleton.1 hx] at hk
    exact Option.some.inj hk ▸ hnonneg
  | minute now =>
    rw [List.mem_singleton.1 hx] at hk
    exact nomatch hk
  | hour now => exact nomatch hx

/-- The minute count has a count that was added at `s` exactly while the clock has climbed less than sixty
seconds since; the other counts may happen to make up for it. -/
theorem minute_count_keeps_iff {before after : List Op} {s : Int}
    (hnonneg : ∀ op ∈ before ++ .add count s :: after, 0 ≤ op.count)
    (hrun : run step (ctor found found') (before ++ .add count s :: after) = .ok c) (now : Int) :
    ∃ v c', c.minuteCount now = .ok (v, c') ∧
      (count ≤ v ↔ climb 1 s (after.flatMap minuteCalls ++ [⟨now, none⟩]) < 60 ∨
        count ≤ within 60 (history 1 (before.flatMap minuteCalls ++ ⟨s, none⟩ :: after.flatMap minuteCalls ++
          [⟨now, none⟩]))) := by
  have hcalls := minuteCalls_nonneg hnonneg
  obtain ⟨m', hm', htotal⟩ := read_ok (by decide) (by decide) (minute_counts hrun) hcalls now
  refine ⟨_, ⟨m', c.hourCounts⟩, minuteCount_ok.2 ⟨hm', rfl, rfl⟩, ?_⟩
  have hothers : 0 ≤ within 60 (history 1
      (before.flatMap minuteCalls ++ ⟨s, none⟩ :: (after.flatMap minuteCalls ++ [⟨now, none⟩]))) := by
    apply within_nonneg
    apply history_nonneg
    intro x hx k hk
    apply hcalls x _ k hk
    simp only [List.mem_append, List.mem_cons, List.not_mem_nil, or_false] at hx
    rw [List.flatMap_append, List.flatMap_cons, List.mem_append, List.mem_append]
    rcases hx with hx | rfl | hx | rfl
    · exact .inl hx
    · exact nomatch hk
    · exact .inr (.inr hx)
    · exact nomatch hk
  have hcount : 0 ≤ count := hnonneg (.add count s) (by simp)
  simp only [htotal]
  rw [List.flatMap_append, List.flatMap_cons, minuteCalls, List.singleton_append, List.append_assoc, List.cons_append,
    within_one, List.append_assoc, List.cons_append]
  by_cases hclimb : climb 1 s (after.flatMap minuteCalls ++ [⟨now, none⟩]) < 60
  · rw [if_pos hclimb]
    simp only [hclimb, true_or, iff_true]
    omega
  · rw [if_neg hclimb]
    simp only [hclimb, false_or, zero_add]

theorem minute_count_keeps_iff_minute : ∃ c v c', run step (ctor 7 7) [.add 5 100, .minute 120] = .ok c ∧
    c.minuteCount 159 = .ok (v, c') ∧ 5 ≤ v := by
  obtain ⟨v, c', hv, hiff⟩ := @minute_count_keeps_iff _ 5 7 7 [] [.minute 120] 100 (by decide) rfl 159
  exact ⟨_, v, c', rfl, hv, hiff.2 (.inl (by decide))⟩

/-- The clock goes back a minute and returns, and the count is lost at the second it was added. -/
theorem clock_step_loses_count : ∃ c c', run step (ctor 0 0) [.add 5 100, .minute 40] = .ok c ∧
    c.minuteCount 100 = .ok (0, c') :=
  ⟨_, _, rfl, rfl⟩

/-! ## The bytes of a connection -/

def Received.ops (r : Received) : List Op :=
  if 0 < r.n then
    .add (toInt r.n) r.now :: (r.minuteLogged.toList.map Op.minute ++ r.hourLogged.toList.map Op.hour)
  else []

theorem run_step_single (c : MinuteHourCounter) (op : Op) : run step c [op] = c.step op := by
  rw [run_cons]
  cases c.step op <;> rfl

theorem handleRead_eq (c : MinuteHourCounter) (r : Received) : c.handleRead r = run step c r.ops := by
  obtain ⟨n, now, minuteLogged, hourLogged⟩ := r
  unfold handleRead Received.ops
  split
  · rw [run_cons, step]
    congr 1
    funext c₁
    rw [run_append]
    cases minuteLogged with
    | none =>
      cases hourLogged with
      | none => rfl
      | some t => exact (run_step_single c₁ (.hour t)).symm
    | some t =>
      rw [Option.toList_some, List.map_singleton, run_step_single, step]
      dsimp only
      cases c₁.minuteCount t with
      | error e => rfl
      | ok x =>
        cases hourLogged with
        | none => rfl
        | some t' => exact (run_step_single x.2 (.hour t')).symm
  · rfl

theorem run_handleRead (c : MinuteHourCounter) (rs : List Received) :
    run handleRead c rs = run step c (rs.flatMap Received.ops) := by
  induction rs generalizing c with
  | nil => rfl
  | cons r rs ih =>
    rw [run_cons, List.flatMap_cons, run_append, handleRead_eq]
    congr 1
    funext c'
    exact ih c'

/-- The calls that would count the bytes as they came. -/
def received (logged : Received → Option Int) (r : Received) : List Reading :=
  if 0 < r.n then ⟨r.now, some r.n⟩ :: (logged r).toList.map (⟨·, none⟩) else []

/-- The bytes younger than sixty buckets at `now`, when `r` is the last that was read. -/
def bytes (S : Int) (logged : Received → Option Int) (rs : List Received) (r : Received) (now : Int) : Int :=
  within 60 (history S (rs.flatMap (received logged) ++ [⟨r.now, some r.n⟩] ++ [⟨now, none⟩]))

/-- What a counter sees of a read: the bytes, and the count if it is logged. -/
theorem ops_calls {r : Received} (hn : toInt r.n = r.n) {calls : Op → List Reading} {logged : Received → Option Int}
    (hadd : ∀ count now, calls (.add count now) = [⟨now, some count⟩])
    (hlogged : (r.minuteLogged.toList.map Op.minute ++ r.hourLogged.toList.map Op.hour).flatMap calls =
      (logged r).toList.map (⟨·, none⟩)) : r.ops.flatMap calls = received logged r := by
  unfold Received.ops received
  split
  · rw [List.flatMap_cons, hadd, hlogged, hn]
    rfl
  · rfl

theorem ops_minute {r : Received} (hn : toInt r.n = r.n) : r.ops.flatMap minuteCalls = received (·.minuteLogged) r :=
  ops_calls hn (fun _ _ => rfl) (by cases r.minuteLogged <;> cases r.hourLogged <;> rfl)

theorem ops_hour {r : Received} (hn : toInt r.n = r.n) : r.ops.flatMap hourCalls = received (·.hourLogged) r :=
  ops_calls hn (fun _ _ => rfl) (by cases r.minuteLogged <;> cases r.hourLogged <;> rfl)

theorem received_nonneg (logged : Received → Option Int) (rs : List Received) :
    ∀ x ∈ rs.flatMap (received logged), ∀ k ∈ x.count, 0 ≤ k := by
  intro x hx k hk
  obtain ⟨r, -, hx⟩ := List.mem_flatMap.1 hx
  unfold received at hx
  split at hx
  next hn =>
    rcases List.mem_cons.1 hx with rfl | hx
    · rw [Option.mem_def, Option.some.injEq] at hk
      omega
    · obtain ⟨now, -, rfl⟩ := List.mem_map.1 hx
      exact nomatch hk
  next => exact nomatch hx

section
variable {S : Int} {m : TrailingBucketCounter} {xs : List Reading} {r : Received}
  (hm : Counts 60 S found xs m) (hxs : ∀ x ∈ xs, ∀ k ∈ x.count, 0 ≤ k) (hn : 0 < r.n)
  (hlt : within 60 (history S (xs ++ [⟨r.now, some r.n⟩])) < 2 ^ 31)

include hxs hn in
theorem snoc_nonneg : ∀ x ∈ xs ++ [⟨r.now, some r.n⟩], ∀ k ∈ x.count, 0 ≤ k := by
  intro x hx k hk
  rcases List.mem_append.1 hx with hx | hx
  · exact hxs x hx k hk
  · rw [List.mem_singleton.1 hx, Option.mem_def, Option.some.injEq] at hk
    omega

include hm hxs hn hlt in
theorem received_add : ∃ m', m.call ⟨r.now, some r.n⟩ = .ok m' ∧ Counts 60 S found (xs ++ [⟨r.now, some r.n⟩]) m' := by
  have hfit : Fits 60 (history S xs) := fits_of_lt (history_nonneg hxs) (hm.buckets.total ▸ hm.buckets.inInt.2)
  obtain ⟨m', hm'⟩ := hm.call_ok (by decide) (by decide) hfit (fits_of_lt (history_nonneg (snoc_nonneg hxs hn)) hlt)
  exact ⟨m', hm', hm.call (by decide) (by decide) hm'⟩

include hm hxs hn hlt in
theorem received_run (logged : Received → Option Int) : ∃ m', run call m (received logged r) = .ok m' := by
  obtain ⟨m₁, hm₁, hcounts⟩ := received_add hm hxs hn hlt
  rw [received, if_pos hn]
  cases logged r with
  | none => exact ⟨m₁, run_single.2 hm₁⟩
  | some now =>
    obtain ⟨m₂, hm₂, -⟩ := read_ok (by decide) (by decide) hcounts (snoc_nonneg hxs hn) now
    exact ⟨m₂, (run_cons_ok _).2 ⟨m₁, hm₁, run_single.2 hm₂⟩⟩

include hxs hn hlt in
/-- The conversion of `n` loses nothing. -/
theorem toInt_n : toInt r.n = r.n := by
  rw [history_snoc S 0, within_append, within_aged, new, Option.toList_some, List.map_singleton, within_cons,
    if_pos (show 0 < 60 by decide), within_nil, add_zero] at hlt
  exact toInt_of (by omega) (lt_of_le_of_lt (le_add_of_nonneg_left (within_nonneg (history_nonneg hxs) _)) hlt)

end

theorem bytes_now (S : Int) (logged : Received → Option Int) (rs : List Received) (r : Received) :
    bytes S logged rs r r.now = within 60 (history S (rs.flatMap (received logged) ++ [⟨r.now, some r.n⟩])) :=
  congrArg (within 60) (history_again S _ ⟨r.now, some r.n⟩)

/-- The counters after the reads `ms`. -/
theorem run_of_bytes_lt {rs : List Received} (hlt : ∀ ms r, ms ++ [r] <+: rs → 0 < r.n → ∀ now,
      bytes 1 (·.minuteLogged) ms r now < 2 ^ 31 ∧ bytes 60 (·.hourLogged) ms r now < 2 ^ 31)
    (ms : List Received) (hms : ms <+: rs) : ∃ c, run handleRead (ctor found found') ms = .ok c ∧
      Counts 60 1 found (ms.flatMap (received (·.minuteLogged))) c.minuteCounts ∧
      Counts 60 60 found' (ms.flatMap (received (·.hourLogged))) c.hourCounts := by
  induction ms using List.reverseRecOn with
  | nil => exact ⟨_, rfl, ctor_counts 60 1 found, ctor_counts 60 60 found'⟩
  | append_singleton ms r ih =>
    obtain ⟨c, hc, hm, hh⟩ := ih ((List.prefix_append ms [r]).trans hms)
    by_cases hn : 0 < r.n
    · obtain ⟨hml, hhl⟩ := hlt ms r hms hn r.now
      rw [bytes_now] at hml hhl
      have hcast := toInt_n (received_nonneg _ ms) hn hml
      obtain ⟨m', hm'⟩ := received_run hm (received_nonneg _ ms) hn hml (·.minuteLogged)
      obtain ⟨h', hh'⟩ := received_run hh (received_nonneg _ ms) hn hhl (·.hourLogged)
      refine ⟨⟨m', h'⟩, (run_append_ok _).2 ⟨c, hc, ?_⟩, ?_, ?_⟩
      · rw [run_handleRead, List.flatMap_singleton, run_ok, ops_minute hcast, ops_hour hcast]
        exact ⟨hm', hh'⟩
      · rw [List.flatMap_append, List.flatMap_singleton]
        exact hm.run (by decide) (by decide) hm'
      · rw [List.flatMap_append, List.flatMap_singleton]
        exact hh.run (by decide) (by decide) hh'
    · have hnone (logged : Received → Option Int) : received logged r = [] := if_neg hn
      simp only [List.flatMap_append, List.flatMap_singleton, hnone, List.append_nil]
      refine ⟨c, (run_append_ok _).2 ⟨c, hc, ?_⟩, hm, hh⟩
      rw [run_handleRead, List.flatMap_singleton, Received.ops, if_neg hn]
      rfl

/-- The counters have the bytes of their windows, with no sum out of the range of an `int`, exactly as long as
these bytes are less than `2 ^ 31`. -/
theorem traffic_counted_iff (found found' : Int) (rs : List Received) :
    (∀ ms r, ms ++ [r] <+: rs → 0 < r.n → ∃ c c₁, run handleRead (ctor found found') ms = .ok c ∧
      c.add (toInt r.n) r.now = .ok c₁ ∧ ∀ now,
        (∃ c', c₁.minuteCount now = .ok (bytes 1 (·.minuteLogged) ms r now, c')) ∧
        ∃ c', c₁.hourCount now = .ok (bytes 60 (·.hourLogged) ms r now, c')) ↔
    ∀ ms r, ms ++ [r] <+: rs → 0 < r.n → ∀ now,
      bytes 1 (·.minuteLogged) ms r now < 2 ^ 31 ∧ bytes 60 (·.hourLogged) ms r now < 2 ^ 31 := by
  constructor
  · intro h ms r hms hn now
    obtain ⟨c, c₁, hc, hadd, hcounts⟩ := h ms r hms hn
    obtain ⟨⟨c', hm'⟩, c'', hh'⟩ := hcounts now
    obtain ⟨hm₁, hh₁⟩ := add_ok.1 hadd
    rw [run_handleRead] at hc
    obtain ⟨hm₂, -, hm⟩ := minuteCount_ok.1 hm'
    obtain ⟨hh₂, -, hh⟩ := hourCount_ok.1 hh'
    have hmc := ((minute_counts hc).call (by decide) (by decide) hm₁).call (by decide) (by decide) hm₂
    have hhc := ((hour_counts hc).call (by decide) (by decide) hh₁).call (by decide) (by decide) hh₂
    rw [hm, hh]
    exact ⟨hmc.buckets.inInt.2, hhc.buckets.inInt.2⟩
  · intro hlt ms r hms hn
    obtain ⟨c, hc, hm, hh⟩ := run_of_bytes_lt hlt ms ((List.prefix_append ms [r]).trans hms)
    obtain ⟨hml, hhl⟩ := hlt ms r hms hn r.now
    rw [bytes_now] at hml hhl
    obtain ⟨m₁, hm₁, hmc⟩ := received_add hm (received_nonneg _ ms) hn hml
    obtain ⟨h₁, hh₁, hhc⟩ := received_add hh (received_nonneg _ ms) hn hhl
    refine ⟨c, ⟨m₁, h₁⟩, hc, ?_, fun now => ⟨?_, ?_⟩⟩
    · rw [toInt_n (received_nonneg _ ms) hn hml]
      exact add_ok.2 ⟨hm₁, hh₁⟩
    · obtain ⟨m₂, hm₂, htotal⟩ := read_ok (by decide) (by decide) hmc (snoc_nonneg (received_nonneg _ ms) hn) now
      exact ⟨⟨m₂, h₁⟩, minuteCount_ok.2 ⟨hm₂, rfl, htotal.symm⟩⟩
    · obtain ⟨h₂, hh₂, htotal⟩ := read_ok (by decide) (by decide) hhc (snoc_nonneg (received_nonneg _ ms) hn) now
      exact ⟨⟨m₁, h₂⟩, hourCount_ok.2 ⟨hh₂, rfl, htotal.symm⟩⟩

theorem bytes_first_le (S : Int) (logged : Received → Option Int) {r : Received} (hn : 0 < r.n) (now : Int) :
    bytes S logged [] r now ≤ r.n := by
  simp only [bytes, List.flatMap_nil, List.nil_append, List.singleton_append, history, new, Option.toList_some,
    Option.toList_none, List.map_singleton, List.map_nil, List.append_nil, within_cons, within_nil]
  split <;> omega

theorem traffic_counted_iff_hello : ∃ c c₁, run handleRead (ctor 7 7) [] = .ok c ∧ c.add 5 100 = .ok c₁ ∧
    ∃ c', c₁.minuteCount 101 = .ok (5, c') := by
  have hlt : ∀ ms r, ms ++ [r] <+: [⟨5, 100, none, none⟩] → 0 < r.n → ∀ now,
      bytes 1 (·.minuteLogged) ms r now < 2 ^ 31 ∧ bytes 60 (·.hourLogged) ms r now < 2 ^ 31 := by
    intro ms r hms hn now
    have hlen := hms.length_le
    rw [List.length_append, List.length_singleton, List.length_singleton] at hlen
    obtain rfl := List.length_eq_zero_iff.1 (show ms.length = 0 by omega)
    obtain rfl : r = ⟨5, 100, none, none⟩ := by simpa using hms
    exact ⟨lt_of_le_of_lt (bytes_first_le 1 _ hn now) (by decide),
      lt_of_le_of_lt (bytes_first_le 60 _ hn now) (by decide)⟩
  obtain ⟨c, c₁, hc, hadd, h⟩ := (traffic_counted_iff 7 7 _).2 hlt [] ⟨5, 100, none, none⟩ (by simp) (by decide)
  obtain ⟨⟨c', hc'⟩, -⟩ := h 101
  have hbytes : bytes 1 (·.minuteLogged) [] ⟨5, 100, none, none⟩ 101 = 5 := by decide
  rw [hbytes] at hc'
  exact ⟨c, c₁, hc, hadd, c', hc'⟩

/-- The counter when all that was counted came in the second `0`. -/
def oneSecond (total : Int) : MinuteHourCounter := ⟨⟨⟨[total], 60, total⟩, 1, 0⟩, ⟨⟨[total], 60, total⟩, 60, 0⟩⟩

theorem add_again (S total count : Int) : TrailingBucketCounter.add ⟨⟨[total], 60, total⟩, S, 0⟩ count 0 =
    (int (total + count)).map fun total => ⟨⟨[total], 60, total⟩, S, 0⟩ := by
  unfold TrailingBucketCounter.add update
  rw [passed_self]
  show (int (total + count) >>= fun _ => _) >>= _ = _
  cases hsum : int (total + count) with
  | error e => rfl
  | ok y =>
    simp only [ok_bind, Except.map]
    rfl

theorem handleRead_again (total n : Int) (hn : 0 < n) (hn' : n < 2 ^ 31) :
    (oneSecond total).handleRead ⟨n, 0, none, none⟩ = (int (total + n)).map oneSecond := by
  have hcast : toInt n = n := toInt_of (by omega) hn'
  rw [handleRead, if_pos hn]
  simp only [hcast, MinuteHourCounter.add, oneSecond, add_again]
  cases int (total + n) with
  | error e => rfl
  | ok y => rfl

theorem run_blocks {k : Nat} (hk : k < 32767) :
    run handleRead (ctor 0 0) (List.replicate (k + 1) ⟨65536, 0, none, none⟩) = .ok (oneSecond (65536 * (k + 1))) := by
  induction k with
  | zero => decide
  | succ k ih =>
    rw [List.replicate_succ', run_append, ih (by omega), ok_bind, run_cons,
      handleRead_again _ _ (by decide) (by decide), int_of ⟨by omega, by omega⟩]
    show Except.ok (oneSecond (65536 * (k + 1) + 65536)) = _
    push_cast
    rw [mul_add (65536 : Int) (k + 1) 1, mul_one]

/-- Two gigabytes within a second, in reads of one `extrabuf` each. -/
theorem fast_transfer_overflows :
    run handleRead (ctor 0 0) (List.replicate 32768 ⟨65536, 0, none, none⟩) = .error .overflow := by
  have hblocks := @run_blocks 32766 (by decide)
  generalize hk : 32766 = k at hblocks
  rw [show 32768 = k + 1 + 1 by omega, List.replicate_succ', run_append, hblocks, ok_bind, run_cons,
    handleRead_again _ _ (by decide) (by decide)]
  have hsum : int (65536 * (k + 1) + 65536) = .error .overflow := if_neg (by omega)
  rw [hsum]
  rfl

end Zhengqi.MinuteHourCounter
