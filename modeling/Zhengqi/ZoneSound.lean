import Mathlib.Data.List.Chain
import Zhengqi.DateTimeSound
import Zhengqi.Lib.Shift

/-!
# Local times

The table of a zone as a table of shifts. `findLocalTime` answers the row of a UTC time and
`findLocalTimeOf` the row that `Shift.Table.pick` chooses for a local time.
-/

namespace Zhengqi.TimeZone

open Run Shift UpperBound

namespace Data

variable {d : Data} {dt : DateTime} {t x : Int} {k r : Nat} {post : Bool}

/-! ## The rows of a table -/

def rows (d : Data) : Nat := d.transitions.length

/-- A field of the transition that starts row `k`. -/
def nth (f : Transition → Int) (d : Data) (k : Nat) : Int := (d.transitions[k - 1]?.map f).getD 0

def instant (d : Data) (k : Nat) : Int := d.nth Transition.utctime k

def start (d : Data) (k : Nat) : Int := d.nth Transition.localtime k

def rowAt (d : Data) (k : Nat) : LocalTime :=
  (if k = 0 then d.localtimes[0]? else d.transitions[k - 1]?.bind (d.localtimes[·.localtimeIdx]?)).getD ⟨0, false, 0⟩

def offset (d : Data) (k : Nat) : Int := (d.rowAt k).utcOffset

/-- No lookup leaves `localtimes_`. -/
structure Indexed (d : Data) : Prop where
  front : d.localtimes ≠ []
  idx : ∀ tr ∈ d.transitions, tr.localtimeIdx < d.localtimes.length

theorem Indexed.get_front (h : d.Indexed) : Zhengqi.front d.localtimes = .ok (d.rowAt 0) := by
  obtain ⟨lt, rest, hlt⟩ := List.exists_cons_of_ne_nil h.front
  rw [Zhengqi.front, get, rowAt, if_pos rfl, hlt]
  rfl

theorem Indexed.get_nth (h : d.Indexed) (h₁ : 1 ≤ k) (hk : k ≤ d.rows) :
    ∃ tr, d.transitions[k - 1]? = some tr ∧ get d.transitions (k - 1) = .ok tr ∧
      get d.localtimes tr.localtimeIdx = .ok (d.rowAt k) ∧ tr.utctime = d.instant k ∧ tr.localtime = d.start k := by
  have hlt : k - 1 < d.transitions.length := by
    rw [rows] at hk
    omega
  have htr := List.getElem?_eq_getElem hlt
  have hidx := List.getElem?_eq_getElem (h.idx _ (List.getElem_mem hlt))
  refine ⟨_, htr, ?_, ?_, ?_, ?_⟩
  · rw [get, htr]
  · rw [get, rowAt, if_neg (by omega), htr, Option.bind_some, hidx]
    rfl
  · rw [instant, nth, htr]
    rfl
  · rw [start, nth, htr]
    rfl

/-- The row that is found for a time by one of the fields. -/
def pos (f : Transition → Int) (d : Data) (t : Int) : Nat :=
  match d.transitions with
  | [] => 0
  | first :: _ => if t < f first then 0 else upperBound (fun tr => decide (t < f tr)) d.transitions

theorem pos_le (f : Transition → Int) : d.pos f t ≤ d.rows := by
  unfold pos rows
  split
  · exact Nat.zero_le _
  · split
    · exact Nat.zero_le _
    · exact upperBound_le

theorem pos_nil {f : Transition → Int} (h : d.transitions = []) : d.pos f t = 0 := by
  rw [pos, h]

section
variable {f : Transition → Int} {first : Transition} {rest : List Transition} (h : d.transitions = first :: rest)
include h

theorem pos_of_lt (hlt : t < f first) : d.pos f t = 0 := by
  rw [pos, h]
  exact if_pos hlt

theorem pos_of_ge (hge : ¬ t < f first) :
    d.pos f t = upperBound (fun tr => decide (t < f tr)) d.transitions ∧ d.pos f t ≠ 0 := by
  have hpos : d.pos f t = upperBound (fun tr => decide (t < f tr)) d.transitions := by
    rw [pos, h]
    exact if_neg hge
  refine ⟨hpos, ?_⟩
  rw [hpos, h]
  exact upperBound_pos (x := first) rfl (decide_eq_false hge)

end

/-- A field that goes up along the table is parted by the row of a time. -/
theorem pos_row {f : Transition → Int} (hf : ∀ i j, 1 ≤ i → i < j → j ≤ d.rows → d.nth f i < d.nth f j) :
    Row (d.nth f) d.rows t (d.pos f t) := by
  have hnth : ∀ {i tr}, d.transitions[i]? = some tr → d.nth f (i + 1) = f tr := by
    intro i tr htr
    rw [nth, Nat.add_sub_cancel, htr]
    rfl
  have hup : Ascends (fun tr => decide (t < f tr)) d.transitions := by
    intro i j x y hij hx hy hlt
    rw [decide_eq_true_eq] at hlt ⊢
    obtain rfl | hne := eq_or_ne i j
    · rwa [← Option.some.inj (hx.symm.trans hy)]
    · have hj := (List.getElem?_eq_some_iff.1 hy).1
      have := hf (i + 1) (j + 1) (by omega) (by omega) hj
      rw [hnth hx, hnth hy] at this
      omega
  rcases htrs : d.transitions with _ | ⟨first, rest⟩
  · rw [pos_nil htrs]
    exact ⟨Nat.zero_le _, fun h₁ => by omega, fun hn => absurd hn (by rw [rows, htrs]; exact Nat.lt_irrefl 0)⟩
  · by_cases hlt : t < f first
    · rw [pos_of_lt htrs hlt]
      refine ⟨Nat.zero_le _, fun h₁ => by omega, fun _ => ?_⟩
      have hfirst : d.transitions[0]? = some first := by
        rw [htrs]
        rfl
      rwa [hnth hfirst]
    · obtain ⟨hpos, hne⟩ := pos_of_ge htrs hlt
      have hle := d.pos_le f (t := t)
      refine ⟨hle, fun h₁ => ?_, fun hn => ?_⟩
      · have hx := List.getElem?_eq_getElem (show d.pos f t - 1 < d.transitions.length by rw [rows] at hle; omega)
        have hspec := upperBound_spec hup hx
        rw [← hpos, decide_eq_true_eq] at hspec
        have hval := hnth hx
        rw [Nat.sub_add_cancel h₁] at hval
        omega
      · have hx := List.getElem?_eq_getElem (show d.pos f t < d.transitions.length from hn)
        have hspec := upperBound_spec hup hx
        rw [← hpos, decide_eq_true_eq] at hspec
        rw [hnth hx]
        exact hspec.2 le_rfl

theorem Indexed.findLocalTime (h : d.Indexed) : d.findLocalTime t = .ok (d.rowAt (d.pos Transition.utctime t)) := by
  unfold Data.findLocalTime
  split
  · rename_i hnil
    rw [pos_nil hnil]
    exact h.get_front
  · rename_i first rest hcons
    split
    · rename_i hlt
      rw [pos_of_lt hcons hlt]
      exact h.get_front
    · rename_i hge
      obtain ⟨hpos, hne⟩ := pos_of_ge hcons hge
      obtain ⟨tr, -, htr, hrow, -⟩ := h.get_nth (by omega) (d.pos_le Transition.utctime (t := t))
      dsimp only
      rw [← hpos, check, if_pos hne, ok_bind]
      split
      · rw [htr, ok_bind, hrow]
      · rename_i hlast
        rw [back, ← not_not.1 hlast, htr, ok_bind, hrow]

/-- The row that is chosen for a local time of row `r`. -/
def choose (d : Data) (x : Int) (r : Nat) (post : Bool) : Except Fault Nat :=
  if r = 0 then .ok 0
  else if r = d.rows then .ok d.rows
  else do
    let second ← int64 ((← int64 (d.instant (r + 1) - 1)) + d.offset r)
    if second < x then pure (if post then r + 1 else r)
    else if r = 1 then pure 1
    else do
      let second ← int64 ((← int64 (d.instant r - 1)) + d.offset (r - 1))
      if x ≤ second then pure (if post then r else r - 1) else pure r

theorem Indexed.findLocalTimeOf (h : d.Indexed) : d.findLocalTimeOf dt post = (do
    let x ← fromUtcTime dt
    let k ← d.choose x (d.pos Transition.localtime x) post
    pure (d.rowAt k)) := by
  unfold Data.findLocalTimeOf
  refine congrArg _ (funext fun x => ?_)
  split
  · rename_i hnil
    rw [pos_nil hnil]
    exact h.get_front
  · rename_i first rest hcons
    split
    · rename_i hlt
      rw [pos_of_lt hcons hlt]
      exact h.get_front
    · rename_i hge
      obtain ⟨hpos, hne⟩ := pos_of_ge hcons hge
      have hle := d.pos_le Transition.localtime (t := x)
      dsimp only
      rw [← hpos, check, if_pos hne, ok_bind, choose, if_neg hne]
      generalize d.pos Transition.localtime x = r at hne hle
      obtain ⟨tr, -, htr, hrow, hinstant, -⟩ := h.get_nth (k := r) (by omega) hle
      rw [← rows]
      by_cases hlast : r = d.rows
      · rw [if_pos hlast, if_pos hlast, back, ← rows, ← hlast, htr, ok_bind, hrow]
        rfl
      · obtain ⟨tr', -, htr', hrow', hinstant', -⟩ := h.get_nth (k := r + 1) (by omega) (by omega)
        rw [Nat.add_sub_cancel] at htr'
        rw [if_neg hlast, if_neg hlast, htr', ok_bind, htr, ok_bind, hinstant', bind_assoc]
        refine congrArg _ (funext fun before => ?_)
        rw [hrow, ok_bind, bind_assoc]
        refine congrArg _ (funext fun second => ?_)
        by_cases hskip : second < x
        · rw [if_pos hskip, if_pos hskip]
          cases post
          · exact hrow
          · exact hrow'
        · rw [if_neg hskip, if_neg hskip]
          by_cases hfirst : r = 1
          · -- `prior_trans` is still the first transition itself
            rw [if_neg (by omega), if_pos hfirst, pure_eq_ok, ok_bind, ite_self, hrow, ite_self, hfirst]
            rfl
          · obtain ⟨tr'', -, htr'', hrow'', -⟩ := h.get_nth (k := r - 1) (by omega) (by omega)
            rw [if_pos (by omega), if_neg hfirst, htr'', ok_bind, hinstant, bind_assoc]
            refine congrArg _ (funext fun before => ?_)
            rw [hrow'', ok_bind, bind_assoc]
            refine congrArg _ (funext fun second => ?_)
            rw [pure_eq_ok, ok_bind]
            split
            · cases post
              · exact hrow''
              · exact hrow
            · rfl

/-! ## Well-formed zones -/

/-- A zone whose transitions are further apart than its offsets, and whose numbers are in their types.
The instants of the transitions then go up. -/
structure WellFormed (d : Data) : Prop where
  front : d.localtimes ≠ []
  row : ∀ tr ∈ d.transitions, ∃ lt ∈ d.localtimes[tr.localtimeIdx]?, tr.localtime = tr.utctime + lt.utcOffset
  gap : d.transitions.IsChain fun tr tr' =>
    tr.utctime < tr'.utctime ∧ ∀ lt ∈ d.localtimes, ∀ lt' ∈ d.localtimes, lt.utcOffset - lt'.utcOffset <
      tr'.utctime - tr.utctime
  utcOffset : ∀ lt ∈ d.localtimes, -2 ^ 31 ≤ lt.utcOffset ∧ lt.utcOffset < 2 ^ 31
  utctime : ∀ tr ∈ d.transitions, -2 ^ 63 ≤ tr.utctime ∧ tr.utctime < 2 ^ 63
  localtime : ∀ tr ∈ d.transitions, -2 ^ 63 ≤ tr.localtime ∧ tr.localtime < 2 ^ 63

instance (d : Data) : Decidable d.WellFormed :=
  decidable_of_iff (_ ∧ _ ∧ _ ∧ _ ∧ _ ∧ _)
    ⟨fun ⟨h₁, h₂, h₃, h₄, h₅, h₆⟩ => ⟨h₁, h₂, h₃, h₄, h₅, h₆⟩,
      fun h => ⟨h.front, h.row, h.gap, h.utcOffset, h.utctime, h.localtime⟩⟩

namespace WellFormed

variable (h : d.WellFormed)
include h

theorem indexed : d.Indexed := by
  refine ⟨h.front, fun tr htr => ?_⟩
  obtain ⟨lt, hlt, -⟩ := h.row tr htr
  exact (List.getElem?_eq_some_iff.1 hlt).1

theorem rowAt_mem (hk : k ≤ d.rows) : d.rowAt k ∈ d.localtimes := by
  have hget : ∀ {i}, get d.localtimes i = .ok (d.rowAt k) → d.rowAt k ∈ d.localtimes := by
    intro i hi
    unfold get at hi
    split at hi
    · rename_i lt hlt
      cases hi
      exact List.mem_of_getElem? hlt
    · cases hi
  rcases Nat.eq_zero_or_pos k with rfl | h₁
  · exact hget h.indexed.get_front
  · obtain ⟨tr, -, -, hrow, -⟩ := h.indexed.get_nth h₁ hk
    exact hget hrow

theorem start_eq (h₁ : 1 ≤ k) (hk : k ≤ d.rows) : d.start k = d.instant k + d.offset k := by
  obtain ⟨tr, htr, -, hrow, hinstant, hstart⟩ := h.indexed.get_nth h₁ hk
  obtain ⟨lt, hlt, hsum⟩ := h.row tr (List.mem_of_getElem? htr)
  rw [get, Option.mem_def.1 hlt] at hrow
  rw [← hstart, ← hinstant, hsum, offset, ← Except.ok.inj hrow]

theorem gap_of (h₁ : 1 ≤ k) (hk : k < d.rows) {i j : Nat} (hi : i ≤ d.rows) (hj : j ≤ d.rows) :
    d.offset i - d.offset j < d.instant (k + 1) - d.instant k := by
  obtain ⟨tr, htr, -, -, hinstant, -⟩ := h.indexed.get_nth h₁ hk.le
  obtain ⟨tr', htr', -, -, hinstant', -⟩ := h.indexed.get_nth (k := k + 1) (by omega) hk
  have hchain := List.isChain_iff_getElem.1 h.gap (k - 1) (by rw [rows] at hk; omega)
  obtain ⟨hlt, rfl⟩ := List.getElem?_eq_some_iff.1 htr
  obtain ⟨hlt', rfl⟩ := List.getElem?_eq_some_iff.1 htr'
  rw [← hinstant, ← hinstant']
  simp only [Nat.sub_add_cancel h₁] at hchain
  exact hchain.2 _ (h.rowAt_mem hi) _ (h.rowAt_mem hj)

end WellFormed

def table (d : Data) (h : d.WellFormed) : Shift.Table where
  n := d.rows
  u := d.instant
  off := d.offset
  gap _ h₁ hk _ _ hi hj := h.gap_of h₁ hk hi hj

namespace WellFormed

variable (h : d.WellFormed)

theorem l_eq (h₁ : 1 ≤ k) (hk : k ≤ d.rows) : (d.table h).l k = d.start k := (h.start_eq h₁ hk).symm

theorem row_instant (t : Int) : Row (d.table h).u d.rows t (d.pos Transition.utctime t) := pos_row (d.table h).u_lt

theorem row_start (x : Int) : Row (d.table h).l d.rows x (d.pos Transition.localtime x) := by
  have hup : ∀ i j, 1 ≤ i → i < j → j ≤ d.rows → d.start i < d.start j := by
    intro i j hi hij hj
    rw [← h.l_eq hi (by omega), ← h.l_eq (by omega) hj]
    exact (d.table h).l_lt i j hi hij hj
  have hrow : Row d.start d.rows x (d.pos Transition.localtime x) := pos_row hup
  refine ⟨hrow.le, fun h₁ => ?_, fun hn => ?_⟩
  · rw [h.l_eq h₁ hrow.le]
    exact hrow.low h₁
  · rw [h.l_eq (by omega) hn]
    exact hrow.high hn

end WellFormed

/-- The second before the change that ends the row of `x`, by the offset of the row, is an `int64_t`. -/
def Fits (d : Data) (x : Int) : Prop :=
  ∀ k, 1 ≤ k → k < d.rows → d.start k ≤ x → x < d.start (k + 1) → d.instant (k + 1) - 1 + d.offset k < 2 ^ 63

instance (d : Data) (x : Int) : Decidable (d.Fits x) :=
  decidable_of_iff (∀ k < d.rows, 1 ≤ k → d.start k ≤ x → x < d.start (k + 1) →
    d.instant (k + 1) - 1 + d.offset k < 2 ^ 63)
    ⟨fun h k h₁ hk => h k hk h₁, fun h k hk h₁ => h k h₁ hk⟩

namespace WellFormed

variable (h : d.WellFormed)
include h

theorem offset_bounds (hk : k ≤ d.rows) : -2 ^ 31 ≤ d.offset k ∧ d.offset k < 2 ^ 31 := h.utcOffset _ (h.rowAt_mem hk)

theorem bounds (h₁ : 1 ≤ k) (hk : k ≤ d.rows) :
    (-2 ^ 63 ≤ d.instant k ∧ d.instant k < 2 ^ 63) ∧ -2 ^ 63 ≤ d.start k ∧ d.start k < 2 ^ 63 := by
  obtain ⟨tr, htr, -, -, hinstant, hstart⟩ := h.indexed.get_nth h₁ hk
  have hmem := List.mem_of_getElem? htr
  rw [← hinstant, ← hstart]
  exact ⟨h.utctime tr hmem, h.localtime tr hmem⟩

theorem fits_iff (x : Int) : d.Fits x ↔
    (1 ≤ d.pos Transition.localtime x → d.pos Transition.localtime x < d.rows →
      d.instant (d.pos Transition.localtime x + 1) - 1 + d.offset (d.pos Transition.localtime x) < 2 ^ 63) := by
  have hr := h.row_start x
  constructor
  · intro hfit h₁ hn
    apply hfit _ h₁ hn
    · rw [← h.l_eq h₁ hn.le]
      exact hr.low h₁
    · rw [← h.l_eq (by omega) hn]
      exact hr.high hn
  · intro hfit k h₁ hn hlow hhigh
    have hk : Row (d.table h).l d.rows x k := by
      refine ⟨hn.le, fun _ => ?_, fun _ => ?_⟩
      · rwa [h.l_eq h₁ hn.le]
      · rwa [h.l_eq (by omega) hn]
    obtain rfl := hr.unique (d.table h).l_lt hk
    exact hfit h₁ hn

/-- The second before a change, by the offset of the row that ends there. -/
theorem prior_second (h₁ : 1 ≤ r) (hn : r < d.rows) :
    (do int64 ((← int64 (d.instant (r + 1) - 1)) + d.offset r)) = int64 (d.instant (r + 1) - 1 + d.offset r) ∧
      -2 ^ 63 ≤ d.instant (r + 1) - 1 + d.offset r := by
  have hb := h.bounds h₁ hn.le
  have hb' := h.bounds (k := r + 1) (by omega) hn
  have hlt := (d.table h).u_lt r (r + 1) h₁ (by omega) hn
  have hlt : d.instant r < d.instant (r + 1) := hlt
  rw [h.start_eq h₁ hn.le] at hb
  rw [int64_of (x := d.instant (r + 1) - 1) (by omega), ok_bind]
  exact ⟨rfl, by omega⟩

theorem choose_eq (hr : r ≤ d.rows) (hfit : 1 ≤ r → r < d.rows → d.instant (r + 1) - 1 + d.offset r < 2 ^ 63) :
    d.choose x r post = .ok ((d.table h).pick x r post) := by
  have hpick : (d.table h).pick x r post = if r = 0 then 0 else if r = d.rows then d.rows
      else if d.instant (r + 1) - 1 + d.offset r < x then if post then r + 1 else r
      else if r = 1 then 1
      else if x ≤ d.instant r - 1 + d.offset (r - 1) then if post then r else r - 1 else r := rfl
  rw [hpick]
  unfold choose
  by_cases h₀ : r = 0
  · rw [if_pos h₀, if_pos h₀]
  by_cases hn : r = d.rows
  · rw [if_neg h₀, if_neg h₀, if_pos hn, if_pos hn]
  obtain ⟨hsecond, hlow⟩ := h.prior_second (r := r) (by omega) (by omega)
  have hhigh := hfit (by omega) (by omega)
  rw [if_neg h₀, if_neg h₀, if_neg hn, if_neg hn, ← bind_assoc, hsecond, int64_of ⟨hlow, hhigh⟩, ok_bind]
  by_cases hskip : d.instant (r + 1) - 1 + d.offset r < x
  · rw [if_pos hskip, if_pos hskip]
    rfl
  rw [if_neg hskip, if_neg hskip]
  by_cases h₁ : r = 1
  · rw [if_pos h₁, if_pos h₁]
    rfl
  -- the second before the row itself is between two numbers that are in the type
  obtain ⟨hsecond, hlow⟩ := h.prior_second (r := r - 1) (by omega) (by omega)
  have hgap := h.gap_of (k := r) (i := r - 1) (j := r) (by omega) (by omega) (by omega) (by omega)
  rw [Nat.sub_add_cancel (by omega)] at hsecond hlow
  rw [if_neg h₁, if_neg h₁, ← bind_assoc, hsecond, int64_of ⟨hlow, by omega⟩, ok_bind]
  split <;> rfl

theorem choose_overflow (h₁ : 1 ≤ r) (hn : r < d.rows) (hfit : ¬ d.instant (r + 1) - 1 + d.offset r < 2 ^ 63) :
    d.choose x r post = .error .overflow := by
  rw [choose, if_neg (by omega), if_neg (by omega), ← bind_assoc, (h.prior_second h₁ hn).1, int64, if_neg (by omega)]
  rfl

end WellFormed

/-! ## The conversions -/

theorem fromUtcTime_bounds (h : fromUtcTime dt = .ok x) : -2 ^ 62 ≤ x ∧ x < 2 ^ 62 := by
  simp only [fromUtcTime, bind_ok, int_ok, int64_ok] at h
  obtain ⟨date, -, -, -, -, -, sum, -, s, ⟨hs, rfl⟩, days, ⟨hdays, rfl⟩, y, ⟨-, rfl⟩, -, rfl⟩ := h
  unfold kSecondsPerDay
  omega

/-- The second that `toLocalTime` breaks down for `t` is `x`. -/
def IsLocal (d : Data) (t x : Int) : Prop := (d.findLocalTime t).map (t + ·.utcOffset) = .ok x

instance (d : Data) (t x : Int) : Decidable (d.IsLocal t x) := inferInstanceAs (Decidable (_ = _))

namespace WellFormed

variable (h : d.WellFormed)
include h

theorem isLocal_iff : d.IsLocal t x ↔ t + d.offset (d.pos Transition.utctime t) = x := by
  rw [IsLocal, h.indexed.findLocalTime]
  exact ⟨fun heq => Except.ok.inj heq, fun heq => congrArg _ heq⟩

theorem isLocal_iff_source : d.IsLocal t x ↔ (d.table h).Source x t := by
  rw [h.isLocal_iff]
  constructor
  · intro heq
    exact ⟨_, h.row_instant t, heq⟩
  · rintro ⟨k, hk, heq⟩
    rwa [(h.row_instant t).unique (d.table h).u_lt hk]

theorem fromLocalTime_eq (hdt : fromUtcTime dt = .ok x) (hfit : d.Fits x) : fromLocalTime ⟨some d⟩ dt post =
    .ok (x - d.offset ((d.table h).pick x (d.pos Transition.localtime x) post)) := by
  have hle := (h.row_start x).le
  obtain ⟨hx₀, hx₁⟩ := fromUtcTime_bounds hdt
  have hoff := h.offset_bounds ((d.table h).pick_le (x := x) hle post)
  simp only [fromLocalTime]
  rw [h.indexed.findLocalTimeOf, hdt, ok_bind, h.choose_eq hle ((h.fits_iff x).1 hfit), ok_bind,
    pure_eq_ok, ok_bind, ok_bind, ← offset, int64_of (by omega)]

theorem fromLocalTime_overflow (hdt : fromUtcTime dt = .ok x) (hfit : ¬ d.Fits x) :
    fromLocalTime ⟨some d⟩ dt post = .error .overflow := by
  rw [h.fits_iff, Classical.not_imp, Classical.not_imp] at hfit
  obtain ⟨h₁, hn, hfit⟩ := hfit
  simp only [fromLocalTime]
  rw [h.indexed.findLocalTimeOf, hdt, ok_bind, h.choose_overflow h₁ hn hfit]
  rfl

theorem toLocalTime_eq (ht : d.IsLocal t x) (hx : SecondInRange x) :
    ∃ dt, toLocalTime ⟨some d⟩ t = .ok (dt, x - t) ∧ fromUtcTime dt = .ok x := by
  obtain ⟨dt, hdt, hback, -⟩ := utcTime_inverse hx
  obtain rfl := h.isLocal_iff.1 ht
  obtain ⟨hx₀, hx₁⟩ := fromUtcTime_bounds hback
  refine ⟨dt, ?_, hback⟩
  rw [toUtcTime] at hdt
  simp only [toLocalTime]
  rw [h.indexed.findLocalTime, ok_bind, ← offset, int64_of (by omega), ok_bind, hdt, ok_bind,
    pure_eq_ok, add_sub_cancel_left]

end WellFormed

end Data

/-- A zone of one offset repeats and skips nothing. -/
theorem ofOffset_round_trip {eastOfUtc t : Int} {name : Bytes} (he : -2 ^ 31 ≤ eastOfUtc ∧ eastOfUtc < 2 ^ 31)
    (ht : SecondInRange (t + eastOfUtc)) : ∃ dt, toLocalTime (ofOffset eastOfUtc name) t = .ok (dt, eastOfUtc) ∧
      ∀ post, fromLocalTime (ofOffset eastOfUtc name) dt post = .ok t := by
  obtain ⟨dt, hdt, hback, -⟩ := utcTime_inverse ht
  obtain ⟨h₀, h₁⟩ := Data.fromUtcTime_bounds hback
  refine ⟨dt, ?_, fun post => ?_⟩
  · show (int64 (t + eastOfUtc) >>= fun s => breakTime s >>= fun lt => pure (lt, eastOfUtc)) = _
    rw [int64_of (by omega), ok_bind, show breakTime _ = _ from hdt, ok_bind, pure_eq_ok]
  · simp only [fromLocalTime, ofOffset, Data.findLocalTimeOf, hback, ok_bind]
    show int64 (t + eastOfUtc - eastOfUtc) = _
    rw [Int.add_sub_cancel, int64_of (by omega)]

/-- A UTC time comes back from its local time unless it lies in the time that is repeated at the first
transition or at the last one. -/
theorem local_round_trip_iff {d : Data} {t x : Int} (h : d.WellFormed) (ht : d.IsLocal t x) (hx : SecondInRange x) :
    (∃ dt, toLocalTime ⟨some d⟩ t = .ok (dt, x - t) ∧
      (fromLocalTime ⟨some d⟩ dt false = .ok t ∨ fromLocalTime ⟨some d⟩ dt true = .ok t)) ↔
    (1 ≤ d.rows → (t < d.instant 1 → x < d.start 1) ∧ (t < d.instant d.rows → x < d.start d.rows)) ∧ d.Fits x := by
  obtain ⟨dt, hto, hfrom⟩ := h.toLocalTime_eq ht hx
  have hdt : ∀ {p : DateTime → Prop}, (∃ dt, toLocalTime ⟨some d⟩ t = .ok (dt, x - t) ∧ p dt) ↔ p dt := by
    intro p
    rw [hto]
    constructor
    · rintro ⟨dt', heq, hp⟩
      cases heq
      exact hp
    · exact fun hp => ⟨dt, rfl, hp⟩
  rw [hdt]
  by_cases hfit : d.Fits x
  · obtain rfl := h.isLocal_iff.1 ht
    have hback := Table.pick_back_iff (h.row_instant t) (h.row_start _)
    rw [Bool.exists_bool] at hback
    rw [h.fromLocalTime_eq hfrom hfit, h.fromLocalTime_eq hfrom hfit, Except.ok.injEq,
      Except.ok.injEq, and_iff_left hfit]
    refine hback.trans (imp_congr_right fun hn => ?_)
    rw [h.l_eq le_rfl hn, h.l_eq hn le_rfl]
    rfl
  · rw [h.fromLocalTime_overflow hfrom hfit, h.fromLocalTime_overflow hfrom hfit]
    simp [hfit]

/-- An hour is repeated at the first transition of this zone, and one at the last. -/
def repeats : Data where
  transitions := [⟨100000, 100000, 1⟩, ⟨200000, 203600, 0⟩, ⟨300000, 300000, 1⟩]
  localtimes := [⟨3600, true, 0⟩, ⟨0, false, 4⟩]

theorem local_round_trip_iff_between : ∃ dt, toLocalTime ⟨some repeats⟩ 250000 = .ok (dt, 253600 - 250000) ∧
    (fromLocalTime ⟨some repeats⟩ dt false = .ok 250000 ∨ fromLocalTime ⟨some repeats⟩ dt true = .ok 250000) := by
  exact (local_round_trip_iff (x := 253600) (by decide) (by decide) (by decide)).2 (by decide)

theorem repeated_hour_not_found : repeats.WellFormed ∧
    (toLocalTime ⟨some repeats⟩ 99999 = .ok (⟨1970, 1, 2, 4, 46, 39⟩, 3600) ∧
      ∀ post, fromLocalTime ⟨some repeats⟩ ⟨1970, 1, 2, 4, 46, 39⟩ post = .ok 103599) ∧
    toLocalTime ⟨some repeats⟩ 299999 = .ok (⟨1970, 1, 4, 12, 19, 59⟩, 3600) ∧
      ∀ post, fromLocalTime ⟨some repeats⟩ ⟨1970, 1, 4, 12, 19, 59⟩ post = .ok 303599 := by
  decide

namespace Data

/-- No second has the local time `x`: it is left out at transition `k`. -/
structure SkippedAt (d : Data) (x : Int) (k : Nat) : Prop where
  pos : 1 ≤ k
  le : k ≤ d.rows
  low : d.instant k + d.offset (k - 1) ≤ x
  high : x < d.instant k + d.offset k

theorem skippedAt_succ {d : Data} {x : Int} {k : Nat} (h : d.WellFormed) :
    d.SkippedAt x (k + 1) ↔ (d.table h).Skipped x k :=
  ⟨fun hs => ⟨hs.le, hs.low, hs.high⟩, fun hs => ⟨by omega, hs.lt, hs.low, hs.high⟩⟩

theorem WellFormed.row_between {d : Data} {x : Int} (h : d.WellFormed) (hn : 2 ≤ d.rows) (hlo : d.start 2 ≤ x)
    (hhi : x < d.start d.rows) : 2 ≤ d.pos Transition.localtime x ∧ d.pos Transition.localtime x < d.rows := by
  have hr := h.row_start x
  rw [← h.l_eq (by omega) (by omega)] at hlo hhi
  constructor
  · by_contra hlt
    obtain h₀ | h₁ : d.pos Transition.localtime x = 0 ∨ d.pos Transition.localtime x = 1 := by omega
    · rw [h₀] at hr
      have hhigh : x < (d.table h).l 1 := hr.high (by omega)
      have := (d.table h).l_lt 1 2 le_rfl (by omega) hn
      omega
    · rw [h₁] at hr
      have hhigh : x < (d.table h).l 2 := hr.high (by omega)
      omega
  · apply lt_of_le_of_ne hr.le
    intro heq
    have := hr.low (by omega)
    rw [heq] at this
    omega

end Data

/-- Between the second transition and the last one. -/
theorem fromLocalTime_between {d : Data} {dt : DateTime} {x : Int} (h : d.WellFormed) (hdt : fromUtcTime dt = .ok x)
    (hfit : d.Fits x) (hn : 2 ≤ d.rows) (hlo : d.instant 2 + d.offset 2 ≤ x)
    (hhi : x < d.instant d.rows + d.offset d.rows) :
    (∀ t, d.IsLocal t x → (∀ s, d.IsLocal s x → s = t) → ∀ post, fromLocalTime ⟨some d⟩ dt post = .ok t) ∧
    (∀ s t, d.IsLocal s x → d.IsLocal t x → s < t →
      fromLocalTime ⟨some d⟩ dt false = .ok s ∧ fromLocalTime ⟨some d⟩ dt true = .ok t) ∧
    ((∀ t, ¬ d.IsLocal t x) ↔ ∃ k, d.SkippedAt x k) ∧
    ∀ k, d.SkippedAt x k → fromLocalTime ⟨some d⟩ dt false = .ok (x - d.offset (k - 1)) ∧
      fromLocalTime ⟨some d⟩ dt true = .ok (x - d.offset k) := by
  have hr := h.row_start x
  rw [← h.start_eq (by omega) (by omega)] at hlo hhi
  obtain ⟨h₂, hlast⟩ := h.row_between hn hlo hhi
  simp only [h.isLocal_iff_source, h.fromLocalTime_eq hdt hfit, Except.ok.injEq]
  refine ⟨?_, ?_, ?_, ?_⟩
  · intro t ht honly post
    exact Table.pick_unique hr h₂ hlast ht honly post
  · intro s t hs ht hst
    exact Table.pick_repeated hr h₂ hlast hs ht hst
  · constructor
    · intro hnone
      exact ⟨_, (Data.skippedAt_succ h).2 (Table.skipped_of_not_source hr hlast hnone)⟩
    · rintro ⟨k, hk⟩ t
      obtain ⟨k, rfl⟩ : ∃ j, k = j + 1 := ⟨k - 1, by have := hk.pos; omega⟩
      exact ((Data.skippedAt_succ h).1 hk).not_source hr
  · intro k hk
    obtain ⟨k, rfl⟩ : ∃ j, k = j + 1 := ⟨k - 1, by have := hk.pos; omega⟩
    have hs := (Data.skippedAt_succ h).1 hk
    rw [hs.pick hr (by omega), hs.pick hr (by omega)]
    exact ⟨rfl, rfl⟩

def summers : Data where
  transitions := [⟨100000, 103600, 1⟩, ⟨200000, 200000, 0⟩, ⟨300000, 303600, 1⟩,
    ⟨400000, 400000, 0⟩, ⟨500000, 503600, 1⟩]
  localtimes := [⟨0, false, 0⟩, ⟨3600, true, 4⟩]

/-- An hour that is skipped and one that is repeated. -/
theorem fromLocalTime_between_summers :
    (fromLocalTime ⟨some summers⟩ ⟨1970, 1, 4, 11, 36, 40⟩ false = .ok 301000 ∧
      fromLocalTime ⟨some summers⟩ ⟨1970, 1, 4, 11, 36, 40⟩ true = .ok 297400) ∧
    fromLocalTime ⟨some summers⟩ ⟨1970, 1, 5, 15, 23, 20⟩ false = .ok 397400 ∧
      fromLocalTime ⟨some summers⟩ ⟨1970, 1, 5, 15, 23, 20⟩ true = .ok 401000 := by
  have h : summers.WellFormed := by decide
  have hskip := fromLocalTime_between h (show fromUtcTime ⟨1970, 1, 4, 11, 36, 40⟩ = .ok 301000 by decide) (by decide)
    (by decide) (by decide) (by decide)
  have hrepeat := fromLocalTime_between h (show fromUtcTime ⟨1970, 1, 5, 15, 23, 20⟩ = .ok 401000 by decide) (by decide)
    (by decide) (by decide) (by decide)
  exact ⟨hskip.2.2.2 3 ⟨by decide, by decide, by decide, by decide⟩,
    hrepeat.2.1 397400 401000 (by decide) (by decide) (by decide)⟩

/-- The last transition of this zone is at the last second of `int64_t`. -/
def lastSecond : Data where
  transitions := [⟨0, 0, 1⟩, ⟨100000, 103600, 0⟩, ⟨2 ^ 63 - 1, 2 ^ 63 - 1, 1⟩]
  localtimes := [⟨3600, true, 0⟩, ⟨0, false, 4⟩]

/-- The second before the last transition overflows, although `200000` is the local time of one second. -/
theorem prior_second_overflows : lastSecond.WellFormed ∧ fromUtcTime ⟨1970, 1, 3, 7, 33, 20⟩ = .ok 200000 ∧
    lastSecond.instant 2 + lastSecond.offset 2 ≤ 200000 ∧ 200000 < lastSecond.instant 3 + lastSecond.offset 3 ∧
    (∀ t, lastSecond.IsLocal t 200000 ↔ t = 196400) ∧
    ∀ post, fromLocalTime ⟨some lastSecond⟩ ⟨1970, 1, 3, 7, 33, 20⟩ post = .error .overflow := by
  have h : lastSecond.WellFormed := by decide
  refine ⟨h, by decide, by decide, by decide, fun t => ?_, by decide⟩
  have hpos : lastSecond.pos Transition.localtime 200000 = 2 := by decide
  have hr := h.row_start 200000
  rw [hpos] at hr
  have hsource : (lastSecond.table h).Source 200000 t ↔
      (t = 200000 - lastSecond.offset 2 ∧ (2 < lastSecond.rows → 200000 < lastSecond.instant 3 + lastSecond.offset 2)) ∨
        (1 ≤ 2 ∧ t = 200000 - lastSecond.offset 1 ∧ 200000 < lastSecond.instant 2 + lastSecond.offset 1) :=
        Table.source_iff hr
  have hoff : 200000 - lastSecond.offset 2 = 196400 := by decide
  have hend : 2 < lastSecond.rows → 200000 < lastSecond.instant 3 + lastSecond.offset 2 := by decide
  have hrep : ¬ 200000 < lastSecond.instant 2 + lastSecond.offset 1 := by decide
  rw [h.isLocal_iff_source, hsource, hoff, and_iff_left hend]
  simp only [hrep, and_false, or_false]

end Zhengqi.TimeZone
