import Zhengqi.Lib.Window
import Zhengqi.MinuteHourCounter

/-!
# The trailing counts

A run is read as a history: every count that was added, with the number of buckets the clock has climbed
since. The queue holds the youngest slots of that history, and its total is what is younger than `N`.
-/

namespace Zhengqi

open Run Window

def InInt (x : Int) : Prop := -2 ^ 31 ≤ x ∧ x < 2 ^ 31

theorem inInt_zero : InInt 0 := by
  constructor <;> decide

/-! ## ConveyorQueue -/

namespace ConveyorQueue

variable {N : Nat} {c c' : ConveyorQueue} {h : List (Int × Nat)} {q : List Int} {total d : Int}

theorem fallOff_eq {r : List Int × Int} (hq : q.length < 2 ^ 31) (hr : fallOff N q total = .ok r) :
    r = (q.drop (q.length - N), total - (q.take (q.length - N)).sum) := by
  induction q generalizing total with
  | nil =>
    have hN : ¬((N : Int) < 0) := by omega
    simp only [fallOff, if_neg hN, pure_eq_ok, Except.ok.injEq] at hr
    simp [← hr]
  | cons x q ih =>
    have hcast : toInt (q.length + 1) = q.length + 1 := toInt_of (by omega) (by rw [List.length_cons] at hq; omega)
    rw [fallOff, hcast] at hr
    by_cases hN : (N : Int) < q.length + 1
    · rw [if_pos hN] at hr
      obtain ⟨t, ht, hr⟩ := bind_ok.1 hr
      obtain ⟨-, rfl⟩ := int_ok.1 ht
      have hlen : (x :: q).length - N = q.length - N + 1 := by rw [List.length_cons]; omega
      rw [ih (by rw [List.length_cons] at hq; omega) hr, hlen, List.drop_succ_cons, List.take_succ_cons, List.sum_cons,
        sub_sub]
    · rw [if_neg hN, pure_eq_ok, Except.ok.injEq] at hr
      have hlen : (x :: q).length - N = 0 := by rw [List.length_cons]; omega
      rw [← hr, hlen, List.drop_zero, List.take_zero, List.sum_nil, sub_zero]

theorem fallOff_ok (hq : q.length < 2 ^ 31) (hfit : ∀ j ≤ q.length - N, InInt (total - (q.take j).sum)) :
    ∃ r, fallOff N q total = .ok r := by
  induction q generalizing total with
  | nil => exact ⟨_, if_neg (by omega)⟩
  | cons x q ih =>
    have hcast : toInt (q.length + 1) = q.length + 1 := toInt_of (by omega) (by rw [List.length_cons] at hq; omega)
    rw [fallOff, hcast]
    by_cases hN : (N : Int) < q.length + 1
    · have hx : InInt (total - x) := by
        have := hfit 1 (by rw [List.length_cons]; omega)
        rwa [List.take_succ_cons, List.take_zero, List.sum_singleton] at this
      rw [if_pos hN, int_of hx]
      apply ih (by rw [List.length_cons] at hq; omega)
      intro j hj
      have := hfit (j + 1) (by rw [List.length_cons]; omega)
      rwa [List.take_succ_cons, List.sum_cons, ← sub_sub] at this
    · exact ⟨_, if_neg hN⟩

theorem fallOff_inInt {r : List Int × Int} (ht : InInt total) (hr : fallOff N q total = .ok r) : InInt r.2 := by
  induction q generalizing total with
  | nil =>
    have hN : ¬((N : Int) < 0) := by omega
    simp only [fallOff, if_neg hN, pure_eq_ok, Except.ok.injEq] at hr
    exact hr ▸ ht
  | cons x q ih =>
    rw [fallOff] at hr
    rcases ite_ok hr with ⟨-, hr⟩ | ⟨-, hr⟩
    · obtain ⟨t, ht', hr⟩ := bind_ok.1 hr
      obtain ⟨hin, rfl⟩ := int_ok.1 ht'
      exact ih hin hr
    · rw [pure_eq_ok, Except.ok.injEq] at hr
      exact hr ▸ ht

/-- The queue has the youngest slots of the history, and all of them that are younger than `N`. -/
structure Holds (N : Nat) (h : List (Int × Nat)) (c : ConveyorQueue) : Prop where
  maxItems : c.maxItems = N
  slots : c.q.reverse = slots h c.q.length
  length_le : c.q.length ≤ N
  young : ∀ p ∈ h, p.2 < N → p.2 < c.q.length
  total : c.totalSum = within N h
  inInt : InInt c.totalSum

def Fits (N : Nat) (h : List (Int × Nat)) : Prop := ∀ k ≤ N, InInt (within k h)

theorem fits_nil (N : Nat) : Fits N [] := by
  intro k _
  exact inInt_zero

theorem Fits.aged (hfit : Fits N h) (d : Nat) : Fits N (aged d h) := by
  intro k hk
  rw [within_aged]
  exact hfit (k - d) (by omega)

theorem Holds.within_length (hc : Holds N h c) : within N h = within c.q.length h :=
  within_eq hc.length_le hc.young

theorem Holds.totalSum_eq (hc : Holds N h c) : c.totalSum = c.q.sum := by
  rw [hc.total, hc.within_length, ← sum_slots, ← hc.slots, List.sum_reverse]

theorem ctor_holds (N : Nat) : Holds N [] (ctor N) where
  maxItems := rfl
  slots := rfl
  length_le := Nat.zero_le _
  young := by simp
  total := rfl
  inInt := inInt_zero

/-- The queue with `d` zeros pushed, from its back. -/
theorem Holds.reverse_pushed (hc : Holds N h c) (d : Nat) :
    (c.q ++ List.replicate d 0).reverse = Window.slots (aged d h) (d + c.q.length) := by
  rw [List.reverse_append, List.reverse_replicate, hc.slots, slots_aged]

/-- What is left when `j` items have fallen off. -/
theorem Holds.sum_left (hc : Holds N h c) (d : Nat) {j : Nat} (hj : j ≤ c.q.length) :
    c.totalSum - ((c.q ++ List.replicate d 0).take j).sum = within (c.q.length - j) h := by
  have hsplit : (c.q.take j).sum + (c.q.drop j).sum = c.q.sum := by
    rw [← List.sum_append, List.take_append_drop]
  have hdrop : (c.q.drop j).sum = within (c.q.length - j) h := by
    rw [← List.sum_reverse, List.reverse_drop, hc.slots, take_slots h (by omega), sum_slots]
  rw [List.take_append_of_le_length hj, hc.totalSum_eq, ← hdrop]
  omega

/-- So many buckets have passed that nothing is left. -/
theorem Holds.cleared (hc : Holds N h c) {d : Nat} (hd : N ≤ d) :
    Holds N (aged d h) { c with q := [], totalSum := 0 } := by
  refine ⟨hc.maxItems, rfl, Nat.zero_le _, fun p hp hlt => ?_, ?_, inInt_zero⟩
  · obtain ⟨p', -, rfl⟩ := List.mem_map.1 hp
    simp only at hlt
    omega
  · rw [within_aged, Nat.sub_eq_zero_of_le hd, within_zero]

/-- The zeros are pushed, and the excess has fallen off. -/
theorem Holds.shifted (hc : Holds N h c) {d : Nat} (hd : d ≤ N) {t : Int}
    (ht : t = c.totalSum - ((c.q ++ List.replicate d 0).take (c.q.length + d - N)).sum) (hin : InInt t) :
    Holds N (aged d h) { c with q := (c.q ++ List.replicate d 0).drop (c.q.length + d - N), totalSum := t } := by
  have hlen := hc.length_le
  have hleft : ((c.q ++ List.replicate d 0).drop (c.q.length + d - N)).length = min N (d + c.q.length) := by
    rw [List.length_drop, List.length_append, List.length_replicate]
    omega
  have hfull : (c.q ++ List.replicate d 0).length - (c.q.length + d - N) = min N (d + c.q.length) := by
    rw [← List.length_drop, hleft]
  refine ⟨hc.maxItems, ?_, ?_, fun p hp hlt => ?_, ?_, hin⟩
  · simp only [hleft]
    rw [List.reverse_drop, hfull, hc.reverse_pushed, take_slots _ (Nat.min_le_right ..)]
  · simp only [hleft]
    exact Nat.min_le_left ..
  · obtain ⟨p', hp', rfl⟩ := List.mem_map.1 hp
    simp only at hlt
    have hyoung := hc.young p' hp' (by omega)
    simp only [hleft]
    omega
  · simp only [ht]
    rw [hc.sum_left d (by omega), within_aged]
    by_cases hover : N ≤ c.q.length + d
    · congr 1
      omega
    · have hnone : c.q.length + d - N = 0 := by omega
      rw [hnone, Nat.sub_zero]
      exact (within_eq (by omega) fun p hp hlt => hc.young p hp (by omega)).symm

theorem Holds.shift (hN : N ≤ 2 ^ 30) (hc : Holds N h c) (hs : c.shift d = .ok c') : Holds N (aged d.toNat h) c' := by
  unfold ConveyorQueue.shift at hs
  rw [hc.maxItems] at hs
  by_cases hd : (N : Int) ≤ d
  · rw [if_pos hd, pure_eq_ok, Except.ok.injEq] at hs
    rw [← hs, ← hc.maxItems]
    exact hc.cleared (by omega)
  · rw [if_neg hd] at hs
    have hlen := hc.length_le
    obtain ⟨r, hr, hs⟩ := bind_ok.1 hs
    have hin := fallOff_inInt hc.inInt hr
    have hr := fallOff_eq (by rw [List.length_append, List.length_replicate]; omega) hr
    rw [List.length_append, List.length_replicate] at hr
    rw [hr] at hs hin
    simp only [pure_eq_ok, Except.ok.injEq] at hs
    rw [← hs, ← hc.maxItems]
    exact hc.shifted (by omega) rfl hin

theorem Holds.shift_ok (hN : N ≤ 2 ^ 30) (hc : Holds N h c) (hfit : Fits N h) (d : Int) : ∃ c', c.shift d = .ok c' := by
  unfold ConveyorQueue.shift
  rw [hc.maxItems]
  by_cases hd : (N : Int) ≤ d
  · exact ⟨_, if_pos hd⟩
  · have hlen := hc.length_le
    obtain ⟨r, hr⟩ : ∃ r, fallOff N (c.q ++ List.replicate d.toNat 0) c.totalSum = .ok r := by
      apply fallOff_ok
      · rw [List.length_append, List.length_replicate]
        omega
      · intro j hj
        rw [List.length_append, List.length_replicate] at hj
        rw [hc.sum_left d.toNat (by omega)]
        exact hfit _ (by omega)
    exact ⟨_, by rw [if_neg hd, hr]; rfl⟩

/-- The item `Shift(1)` puts into an empty queue. -/
theorem shift_one (hN : 2 ≤ N) (hmax : c.maxItems = N) (hq : c.q = []) : c.shift 1 = .ok { c with q := [0] } := by
  have hcast : toInt (([] : List Int).length + 1) = 1 := by decide
  unfold ConveyorQueue.shift
  rw [hmax, hq, if_neg (by omega)]
  simp only [Int.toNat_one, List.replicate_one, List.nil_append, fallOff, hcast]
  rw [if_neg (by omega)]
  rfl

/-- Nothing falls off while the size, as an `int`, is no more than `max_items_`. -/
theorem shift_of_size_le {d : Nat} (hd : (d : Int) < c.maxItems) (hq : c.q ≠ [])
    (hsize : toInt (c.q.length + d) ≤ c.maxItems) : c.shift d = .ok { c with q := c.q ++ List.replicate d 0 } := by
  obtain ⟨x, q, hx⟩ := List.exists_cons_of_ne_nil hq
  have hlen : ((q ++ List.replicate d 0).length + 1 : Int) = c.q.length + d := by
    rw [hx, List.length_append, List.length_replicate, List.length_cons]
    omega
  unfold ConveyorQueue.shift
  rw [if_neg (by omega), Int.toNat_natCast, hx, List.cons_append, fallOff, hlen, if_neg (by omega)]
  rfl

theorem Holds.nonempty (hN : 2 ≤ N) (hc : Holds N h c) :
    ∃ c', (if c.q = [] then c.shift 1 else pure c) = .ok c' ∧ Holds N h c' ∧ c'.q ≠ [] := by
  by_cases hq : c.q = []
  · have hnone : ∀ p ∈ h, p.2 < N → False := by
      intro p hp hlt
      have := hc.young p hp hlt
      rw [hq] at this
      exact Nat.not_lt_zero _ this
    have hslot : slot h 0 = 0 := by
      have hone : within 1 h = within 0 h := within_eq (Nat.zero_le _) fun p hp hlt => (hnone p hp (by omega)).elim
      rwa [within_succ, within_zero, zero_add] at hone
    refine ⟨_, by rw [if_pos hq, shift_one hN hc.maxItems hq], ?_, by simp⟩
    refine ⟨hc.maxItems, ?_, ?_, fun p hp hlt => (hnone p hp hlt).elim, hc.total, hc.inInt⟩
    · simp [Window.slots, hslot]
    · simp only [List.length_singleton]
      omega
  · exact ⟨c, if_neg hq, hc, hq⟩

theorem Holds.getLast (hc : Holds N h c) (hq : c.q ≠ []) : c.q.getLast? = some (slot h 0) := by
  obtain ⟨n, hn⟩ := Nat.exists_eq_succ_of_ne_zero (List.length_pos_iff.2 hq).ne'
  rw [← List.head?_reverse, hc.slots, hn, Window.slots, Nat.succ_eq_add_one, List.range_succ_eq_map]
  rfl

theorem Holds.incremented (hc : Holds N h c) (hq : c.q ≠ []) {count : Int} (hin : InInt (c.totalSum + count)) :
    Holds N (h ++ [(count, 0)]) { c with q := c.q.dropLast ++ [slot h 0 + count], totalSum := c.totalSum + count } := by
  have hpos := List.length_pos_iff.2 hq
  have hlen : (c.q.dropLast ++ [slot h 0 + count]).length = c.q.length := by
    rw [List.length_append, List.length_dropLast, List.length_singleton]
    omega
  refine ⟨hc.maxItems, ?_, ?_, ?_, ?_, hin⟩
  · simp only [hlen]
    obtain ⟨n, hn⟩ := Nat.exists_eq_succ_of_ne_zero hpos.ne'
    rw [hn, Nat.succ_eq_add_one, slots_new, ← Nat.succ_eq_add_one, ← hn, ← hc.slots, List.reverse_append,
      List.reverse_singleton, List.singleton_append, List.tail_reverse]
  · simp only [hlen]
    exact hc.length_le
  · simp only [hlen]
    intro p hp hlt
    rcases List.mem_append.1 hp with hp | hp
    · exact hc.young p hp hlt
    · rw [List.mem_singleton.1 hp]
      exact hpos
  · have hle := hc.length_le
    simp only [within_append, within_cons, within_nil, add_zero, ← hc.total]
    rw [if_pos (by omega)]

theorem Holds.addToBack (hN : 2 ≤ N) (hc : Holds N h c) {count : Int} (ha : c.addToBack count = .ok c') :
    Holds N (h ++ [(count, 0)]) c' := by
  obtain ⟨c₁, hc₁, hh, hq⟩ := hc.nonempty hN
  unfold ConveyorQueue.addToBack at ha
  rw [hc₁, ok_bind, hh.getLast hq] at ha
  obtain ⟨b, hb, ha⟩ := bind_ok.1 ha
  obtain ⟨t, ht, ha⟩ := bind_ok.1 ha
  obtain ⟨-, rfl⟩ := int_ok.1 hb
  obtain ⟨hin, rfl⟩ := int_ok.1 ht
  rw [pure_eq_ok, Except.ok.injEq] at ha
  exact ha ▸ hh.incremented hq hin

theorem Holds.addToBack_ok (hN : 2 ≤ N) (hc : Holds N h c) {count : Int} (hfit : Fits N (h ++ [(count, 0)])) :
    ∃ c', c.addToBack count = .ok c' := by
  obtain ⟨c₁, hc₁, hh, hq⟩ := hc.nonempty hN
  have hback : InInt (slot h 0 + count) := by
    have := hfit 1 (by omega)
    rwa [within_append, within_succ, within_zero, zero_add, within_cons, if_pos Nat.zero_lt_one, within_nil,
      add_zero] at this
  have htotal : InInt (c₁.totalSum + count) := by
    have := hfit N le_rfl
    rwa [within_append, within_cons, if_pos (by omega), within_nil, add_zero, ← hh.total] at this
  unfold ConveyorQueue.addToBack
  rw [hc₁, ok_bind, hh.getLast hq]
  exact ⟨{ c₁ with q := c₁.q.dropLast ++ [slot h 0 + count], totalSum := c₁.totalSum + count },
    by simp only [int_of hback, int_of htotal, ok_bind, pure_eq_ok]⟩

end ConveyorQueue

/-! ## TrailingBucketCounter -/

namespace TrailingBucketCounter

open ConveyorQueue (Fits)

/-- `Add` of a count, or `TrailingCount`. -/
structure Reading where
  now : Int
  count : Option Int
  deriving DecidableEq, Repr

def call (c : TrailingBucketCounter) (x : Reading) : Except Fault TrailingBucketCounter :=
  match x.count with
  | some count => c.add count x.now
  | none => do
    let (_, c) ← c.trailingCount x.now
    pure c

/-- How many buckets the clock climbs over the calls: the steps back count for nothing. -/
def climb (S t : Int) : List Reading → Nat
  | [] => 0
  | x :: xs => (passed S t x.now).toNat + climb S x.now xs

def new (x : Reading) (age : Nat) : List (Int × Nat) := x.count.toList.map (·, age)

/-- Every count that was added, with the climb of the clock since. -/
def history (S : Int) : List Reading → List (Int × Nat)
  | [] => []
  | x :: xs => new x (climb S x.now xs) ++ history S xs

def lastNow : Int → List Reading → Int
  | t, [] => t
  | _, x :: xs => lastNow x.now xs

variable {N : Nat} {S found t : Int} {c c' : TrailingBucketCounter} {x : Reading} {xs ys : List Reading}

theorem climb_snoc (S t : Int) (xs : List Reading) (x : Reading) :
    climb S t (xs ++ [x]) = climb S t xs + (passed S (lastNow t xs) x.now).toNat := by
  induction xs generalizing t with
  | nil => rw [List.nil_append, climb, climb, climb, lastNow, Nat.zero_add, Nat.add_zero]
  | cons y ys ih => rw [List.cons_append, climb, climb, ih, lastNow, Nat.add_assoc]

theorem aged_new (d age : Nat) (x : Reading) : aged d (new x age) = new x (age + d) := by
  rw [aged, new, List.map_map]
  rfl

theorem aged_append (d : Nat) (h k : List (Int × Nat)) : aged d (h ++ k) = aged d h ++ aged d k := List.map_append

theorem history_snoc (S t : Int) (xs : List Reading) (x : Reading) :
    history S (xs ++ [x]) = aged (passed S (lastNow t xs) x.now).toNat (history S xs) ++ new x 0 := by
  induction xs generalizing t with
  | nil => rw [List.nil_append, history, history, climb, history, List.append_nil]; rfl
  | cons y ys ih =>
    rw [List.cons_append, history, history, aged_append, aged_new, lastNow, climb_snoc, ih y.now, List.append_assoc]

theorem lastNow_snoc (t : Int) (xs : List Reading) (x : Reading) : lastNow t (xs ++ [x]) = x.now := by
  induction xs generalizing t with
  | nil => rfl
  | cons y ys ih => rw [List.cons_append, lastNow, ih]

theorem call_eq (c : TrailingBucketCounter) (x : Reading) :
    c.call x = c.update x.now >>= fun c => match x.count with
      | some count => c.buckets.addToBack count >>= fun buckets => pure { c with buckets }
      | none => pure c := by
  unfold call add trailingCount
  cases x.count with
  | some count => rfl
  | none =>
    cases c.update x.now with
    | ok c => rfl
    | error e => rfl

/-- The counter after the calls `xs`. -/
structure Counts (N : Nat) (S found : Int) (xs : List Reading) (c : TrailingBucketCounter) : Prop where
  buckets : c.buckets.Holds N (history S xs)
  secs : c.secsPerBucket = S
  last : c.lastUpdateTime = lastNow found xs

theorem ctor_counts (N : Nat) (S found : Int) : Counts N S found [] (ctor N S found) :=
  ⟨ConveyorQueue.ctor_holds N, rfl, rfl⟩

theorem Counts.call (h₂ : 2 ≤ N) (hN : N ≤ 2 ^ 30) (hc : Counts N S found xs c) (hx : c.call x = .ok c') :
    Counts N S found (xs ++ [x]) c' := by
  rw [call_eq] at hx
  obtain ⟨c₁, hu, hx⟩ := bind_ok.1 hx
  obtain ⟨b, hb, hu⟩ := bind_ok.1 hu
  rw [hc.secs, hc.last] at hb
  have hb := hc.buckets.shift hN hb
  rw [pure_eq_ok, Except.ok.injEq] at hu
  have hnew := history_snoc S found xs x
  cases hcount : x.count with
  | none =>
    simp only [hcount, pure_eq_ok, Except.ok.injEq] at hx
    rw [new, hcount, Option.toList_none, List.map_nil, List.append_nil] at hnew
    rw [← hx, ← hu]
    exact ⟨hnew ▸ hb, hc.secs, (lastNow_snoc _ _ _).symm⟩
  | some count =>
    simp only [hcount] at hx
    obtain ⟨b', hb', hx⟩ := bind_ok.1 hx
    rw [pure_eq_ok, Except.ok.injEq] at hx
    rw [new, hcount, Option.toList_some, List.map_singleton] at hnew
    rw [← hu] at hb' hx
    rw [← hx]
    exact ⟨hnew ▸ hb.addToBack h₂ hb', hc.secs, (lastNow_snoc _ _ _).symm⟩

theorem Counts.call_ok (h₂ : 2 ≤ N) (hN : N ≤ 2 ^ 30) (hc : Counts N S found xs c) (hfit : Fits N (history S xs))
    (hfit' : Fits N (history S (xs ++ [x]))) : ∃ c', c.call x = .ok c' := by
  rw [call_eq]
  obtain ⟨b, hb⟩ := hc.buckets.shift_ok hN hfit (passed c.secsPerBucket c.lastUpdateTime x.now)
  have hu : c.update x.now = .ok { c with buckets := b, lastUpdateTime := x.now } := by
    unfold update
    rw [hb]
    rfl
  rw [hc.secs, hc.last] at hb
  rw [hu, ok_bind]
  cases hcount : x.count with
  | none => exact ⟨_, rfl⟩
  | some count =>
    rw [history_snoc S found xs x, new, hcount, Option.toList_some, List.map_singleton] at hfit'
    obtain ⟨b', hb'⟩ := (hc.buckets.shift hN hb).addToBack_ok h₂ hfit'
    exact ⟨{ c with buckets := b', lastUpdateTime := x.now }, by simp only [hb', ok_bind, pure_eq_ok]⟩

theorem Counts.run (h₂ : 2 ≤ N) (hN : N ≤ 2 ^ 30) (hc : Counts N S found xs c)
    (hr : Run.run TrailingBucketCounter.call c ys = .ok c') :
    Counts N S found (xs ++ ys) c' := by
  induction ys generalizing xs c with
  | nil =>
    rw [run_nil, Except.ok.injEq] at hr
    rwa [List.append_nil, ← hr]
  | cons y ys ih =>
    obtain ⟨c₁, hy, hr⟩ := (run_cons_ok _).1 hr
    rw [List.append_cons]
    exact ih (hc.call h₂ hN hy) hr

theorem Counts.run_ok (h₂ : 2 ≤ N) (hN : N ≤ 2 ^ 30) (hc : Counts N S found xs c)
    (hfit : ∀ zs, zs <+: ys → Fits N (history S (xs ++ zs))) :
    ∃ c', Run.run TrailingBucketCounter.call c ys = .ok c' := by
  induction ys generalizing xs c with
  | nil => exact ⟨c, rfl⟩
  | cons y ys ih =>
    have hxs := hfit [] List.nil_prefix
    rw [List.append_nil] at hxs
    have hy := hfit [y] (by simp)
    obtain ⟨c₁, hc₁⟩ := hc.call_ok h₂ hN hxs hy
    obtain ⟨c', hc'⟩ := ih (hc.call h₂ hN hc₁) fun zs hzs => by
      rw [List.append_assoc]
      exact hfit (y :: zs) (List.prefix_cons_inj y |>.2 hzs)
    exact ⟨c', (run_cons_ok _).2 ⟨c₁, hc₁, hc'⟩⟩

theorem trailingCount_eq (c : TrailingBucketCounter) (now : Int) :
    c.trailingCount now = (c.call ⟨now, none⟩).map fun c => (c.buckets.totalSum, c) := by
  rw [call_eq, trailingCount]
  cases c.update now with
  | ok c => rfl
  | error e => rfl

theorem trailingCount_ok {count now : Int} : c.trailingCount now = .ok (count, c') ↔
    c.call ⟨now, none⟩ = .ok c' ∧ count = c'.buckets.totalSum := by
  rw [trailingCount_eq]
  constructor
  · intro h
    obtain ⟨c₁, hc₁, h⟩ := ok_of_map h
    obtain ⟨rfl, rfl⟩ := Prod.mk.inj h
    exact ⟨hc₁, rfl⟩
  · rintro ⟨h, rfl⟩
    rw [h]
    rfl

/-! ## A clock that never goes back -/

/-- The sum of the counts that were added less than `n` buckets before `now`. -/
def counted (S : Int) (n : Nat) (now : Int) (xs : List Reading) : Int :=
  ((xs.filter fun x => now / S - x.now / S < n).map fun x => x.count.getD 0).sum

section
variable {a b now : Int} (hS : 1 ≤ S)
include hS

theorem passed_eq (ha : 0 ≤ a) (hab : a ≤ b) (hb : b < 2 ^ 31) : passed S a b = b / S - a / S := by
  have hdiv : a / S ≤ b / S := Int.ediv_le_ediv (by omega) hab
  have ha' : 0 ≤ a / S := Int.ediv_nonneg ha (by omega)
  have hb' : b / S ≤ b := Int.ediv_le_self S (by omega)
  have hb₀ : toInt b = b := toInt_of (by omega) hb
  have ha₀ : toInt a = a := toInt_of (by omega) (by omega)
  rw [passed, hb₀, ha₀, Int.tdiv_eq_ediv_of_nonneg (by omega), Int.tdiv_eq_ediv_of_nonneg ha,
    toInt_of (by omega) (by omega)]

theorem climb_eq (hxs : xs.Pairwise (·.now ≤ ·.now)) (hnow : ∀ x ∈ xs, t ≤ x.now ∧ x.now ≤ now) (ht : 0 ≤ t)
    (htn : t ≤ now) (hmax : now < 2 ^ 31) : (climb S t (xs ++ [⟨now, none⟩]) : Int) = now / S - t / S := by
  induction xs generalizing t with
  | nil =>
    have hdiv : t / S ≤ now / S := Int.ediv_le_ediv (by omega) htn
    rw [List.nil_append, climb, climb, passed_eq hS ht htn hmax]
    omega
  | cons x xs ih =>
    obtain ⟨hx, hxs⟩ := List.pairwise_cons.1 hxs
    obtain ⟨⟨htx, hxn⟩, hnow⟩ := List.forall_mem_cons.1 hnow
    have hdiv : t / S ≤ x.now / S := Int.ediv_le_ediv (by omega) htx
    have ih := ih hxs (fun y hy => ⟨hx y hy, (hnow y hy).2⟩) (by omega) hxn
    rw [List.cons_append, climb, passed_eq hS ht htx (by omega), Int.natCast_add, ih]
    omega

theorem within_history (hxs : xs.Pairwise (·.now ≤ ·.now)) (hnow : ∀ x ∈ xs, 0 ≤ x.now ∧ x.now ≤ now)
    (hmax : now < 2 ^ 31) (n : Nat) : within n (history S (xs ++ [⟨now, none⟩])) = counted S n now xs := by
  induction xs with
  | nil => rfl
  | cons x xs ih =>
    obtain ⟨hx, hxs⟩ := List.pairwise_cons.1 hxs
    obtain ⟨⟨h₀, hxn⟩, hnow⟩ := List.forall_mem_cons.1 hnow
    have hclimb := climb_eq hS hxs (fun y hy => ⟨hx y hy, (hnow y hy).2⟩) h₀ hxn hmax
    have hyoung : climb S x.now (xs ++ [⟨now, none⟩]) < n ↔ now / S - x.now / S < n := by omega
    rw [List.cons_append, history, within_append, ih hxs hnow, counted, counted, List.filter_cons, new]
    by_cases hn : now / S - x.now / S < n
    · cases hcount : x.count <;> simp [within_cons, hyoung, hn, hcount]
    · cases x.count <;> simp [within_cons, hyoung, hn]

end

theorem passed_self (S t : Int) : passed S t t = 0 := by
  rw [passed, sub_self]
  rfl

/-- A reading that repeats the last one leaves the history as it is. -/
theorem history_again (S : Int) (xs : List Reading) (x : Reading) :
    history S (xs ++ [x] ++ [⟨x.now, none⟩]) = history S (xs ++ [x]) := by
  rw [history_snoc S 0, lastNow_snoc, passed_self]
  simp [aged, new]

theorem fits_history (hS : 1 ≤ S) {now : Int} (hxs : xs.Pairwise (·.now ≤ ·.now))
    (hnow : ∀ x ∈ xs, 0 ≤ x.now ∧ x.now ≤ now) (hmax : now < 2 ^ 31)
    (hfit : ∀ ys y, ys ++ [y] <+: xs → ∀ k ≤ N, InInt (counted S k y.now (ys ++ [y]))) (hys : ys <+: xs) :
    Fits N (history S ys) := by
  rcases List.eq_nil_or_concat' ys with rfl | ⟨zs, z, rfl⟩
  · exact ConveyorQueue.fits_nil N
  · intro k hk
    have hsub := hys.sublist
    have hpair := hxs.sublist hsub
    have hz : ∀ y ∈ zs ++ [z], 0 ≤ y.now ∧ y.now ≤ z.now := by
      intro y hy
      refine ⟨(hnow y (hsub.subset hy)).1, ?_⟩
      rcases List.mem_append.1 hy with hy' | hy'
      · exact (List.pairwise_append.1 hpair).2.2 y hy' z (List.mem_singleton_self z)
      · rw [List.mem_singleton.1 hy']
    have hzmax := (hnow z (hsub.subset (by simp))).2
    rw [← history_again, within_history hS hpair hz (by omega)]
    exact hfit zs z hys k hk

theorem trailing_counts_exact {now : Int} (h₂ : 2 ≤ N) (hN : N ≤ 2 ^ 30) (hS : 1 ≤ S)
    (hxs : xs.Pairwise (·.now ≤ ·.now)) (hnow : ∀ x ∈ xs, 0 ≤ x.now ∧ x.now ≤ now) (hmax : now < 2 ^ 31) :
    (∀ c, run call (ctor N S found) xs = .ok c →
      (c.buckets.q.length ≤ N ∧ c.buckets.totalSum = c.buckets.q.sum) ∧
      ∀ count c', c.trailingCount now = .ok (count, c') →
        count = counted S N now xs ∧ c'.buckets.q.length ≤ N ∧ c'.buckets.totalSum = c'.buckets.q.sum) ∧
    ((∀ ys y, ys ++ [y] <+: xs → ∀ k ≤ N, InInt (counted S k y.now (ys ++ [y]))) →
      ∃ c r, run call (ctor N S found) xs = .ok c ∧ c.trailingCount now = .ok r) := by
  constructor
  · intro c hc
    have hcounts := (ctor_counts N S found).run h₂ hN hc
    rw [List.nil_append] at hcounts
    refine ⟨⟨hcounts.buckets.length_le, hcounts.buckets.totalSum_eq⟩, fun count c' hcount => ?_⟩
    obtain ⟨hcall, rfl⟩ := trailingCount_ok.1 hcount
    have hcounts' := hcounts.call h₂ hN hcall
    refine ⟨?_, hcounts'.buckets.length_le, hcounts'.buckets.totalSum_eq⟩
    rw [hcounts'.buckets.total, within_history hS hxs hnow hmax]
  · intro hfit
    have hfits := fun ys => @fits_history N S xs ys hS now hxs hnow hmax hfit
    obtain ⟨c, hc⟩ := (ctor_counts N S found).run_ok h₂ hN fun ys hys => hfits ys hys
    have hcounts := (ctor_counts N S found).run h₂ hN hc
    rw [List.nil_append] at hcounts
    have hlast : Fits N (history S (xs ++ [⟨now, none⟩])) := by
      rw [history_snoc S 0, new, Option.toList_none, List.map_nil, List.append_nil]
      exact (hfits xs List.prefix_rfl).aged _
    obtain ⟨c', hc'⟩ := hcounts.call_ok h₂ hN (hfits xs List.prefix_rfl) hlast
    exact ⟨c, _, hc, trailingCount_ok.2 ⟨hc', rfl⟩⟩

theorem trailing_counts_exact_minute : ∃ c r,
    run call (ctor (60 : Nat) 1 (-7)) [⟨100, some 5⟩, ⟨159, none⟩, ⟨160, some 2⟩] = .ok c ∧
      c.trailingCount 161 = .ok r ∧ r.1 = 2 := by
  have h := @trailing_counts_exact 60 1 (-7) [⟨100, some 5⟩, ⟨159, none⟩, ⟨160, some 2⟩] 161 (by decide) (by decide)
    (by decide) (by decide) (by decide) (by decide)
  exact ⟨_, _, rfl, rfl, (h.1 _ rfl).2 _ _ rfl |>.1⟩

/-- A reading at which nothing falls off. -/
theorem call_of_size_le {d : Nat} {now : Int} (hpassed : passed c.secsPerBucket c.lastUpdateTime now = d)
    (hd : (d : Int) < c.buckets.maxItems) (hq : c.buckets.q ≠ [])
    (hsize : toInt (c.buckets.q.length + d) ≤ c.buckets.maxItems) :
    c.call ⟨now, none⟩ =
      .ok { c with buckets := { c.buckets with q := c.buckets.q ++ List.replicate d 0 }, lastUpdateTime := now } := by
  rw [call_eq, update, hpassed, ConveyorQueue.shift_of_size_le hd hq hsize]
  rfl

/-- A size past `INT_MAX` turns negative, and an item of the bucket `0` is still there `2 ^ 31 - 1` buckets later. -/
theorem huge_queue_never_sheds : ∃ c c',
    run call (ctor (2 ^ 31 - 1) 1 0) [⟨0, some 1⟩, ⟨2 ^ 31 - 2, none⟩] = .ok c ∧
      c.trailingCount (2 ^ 31 - 1) = .ok (1, c') ∧ c'.buckets.q.length = 2 ^ 31 ∧
      counted 1 (2 ^ 31 - 1) (2 ^ 31 - 1) [⟨0, some 1⟩, ⟨2 ^ 31 - 2, none⟩] = 0 := by
  have hadd : (ctor (2 ^ 31 - 1) 1 0).call ⟨0, some 1⟩ = .ok ⟨⟨[1], 2 ^ 31 - 1, 1⟩, 1, 0⟩ := by decide
  have hpassed : passed 1 0 (2 ^ 31 - 2) = (2 ^ 31 - 2 : Nat) := by decide
  have hpassed' : passed 1 (2 ^ 31 - 2) (2 ^ 31 - 1) = (1 : Nat) := by decide
  have hsize : toInt (([1] : List Int).length + (2 ^ 31 - 2 : Nat)) ≤ 2 ^ 31 - 1 := by decide
  have hsize' : toInt ((2 ^ 31 - 1 : Nat) + (1 : Nat)) ≤ 2 ^ 31 - 1 := by decide
  generalize hn : 2 ^ 31 - 2 = n at hpassed hsize
  have hread := @call_of_size_le ⟨⟨[1], 2 ^ 31 - 1, 1⟩, 1, 0⟩ n (2 ^ 31 - 2) hpassed (by simp only; omega)
    (List.cons_ne_nil _ _) hsize
  have hlen : ([1] ++ List.replicate n (0 : Int)).length = 2 ^ 31 - 1 := by
    rw [List.length_append, List.length_replicate, List.length_singleton]
    omega
  have hlast := @call_of_size_le ⟨⟨[1] ++ List.replicate n (0 : Int), 2 ^ 31 - 1, 1⟩, 1, 2 ^ 31 - 2⟩ 1
    (2 ^ 31 - 1) hpassed'
    (by simp only; omega) (List.cons_ne_nil _ _) (by rw [hlen]; exact hsize')
  refine ⟨_, ⟨⟨[1] ++ List.replicate n 0 ++ List.replicate 1 0, 2 ^ 31 - 1, 1⟩, 1, 2 ^ 31 - 1⟩,
    (run_cons_ok _).2 ⟨_, hadd, (run_cons_ok _).2 ⟨_, hread, rfl⟩⟩, ?_, ?_, by decide⟩
  · exact trailingCount_ok.2 ⟨hlast, rfl⟩
  · show ([1] ++ List.replicate n 0 ++ List.replicate 1 (0 : Int)).length = 2 ^ 31
    rw [List.length_append, hlen, List.length_replicate]
    omega

end TrailingBucketCounter

end Zhengqi
