import Zhengqi.ZoneFileSound
import Zhengqi.ZoneSound

/-!
# Zone files of any bytes

When the zone of a file can be looked up without leaving `localtimes_`, and what its lookups can
stop with. The file is read on a stack of a given size, which holds at least the arrays for the header.
-/

namespace Zhengqi.TimeZone

open ByteReader Run

/-! ## Lookups -/

def Overflows (e : Fault) : Prop := e = .overflow

theorem int_stops (x : Int) : Stops Overflows (int x) :=
  Stops.ite (fun _ => Stops.ok _) fun _ _ h => by cases h; rfl

theorem int64_stops (x : Int) : Stops Overflows (int64 x) :=
  Stops.ite (fun _ => Stops.ok _) fun _ _ h => by cases h; rfl

theorem getJulianDayNumber_stops (year month day : Int) : Stops Overflows (getJulianDayNumber year month day) := by
  unfold getJulianDayNumber
  repeat' first | exact int_stops _ | refine (int_stops _).bind fun _ _ => ?_

theorem getYearMonthDay_stops (j : Int) : Stops Overflows (getYearMonthDay j) := by
  unfold getYearMonthDay
  repeat' first | exact Stops.ok _ | refine (int_stops _).bind fun _ _ => ?_

theorem fromUtcTime_stops (dt : DateTime) : Stops Overflows (fromUtcTime dt) := by
  unfold fromUtcTime Date.ofYmd
  refine Stops.bind (Stops.bind (getJulianDayNumber_stops _ _ _) fun _ _ => Stops.ok _) fun _ _ => ?_
  repeat'
    first
    | exact int64_stops _
    | refine (int_stops _).bind fun _ _ => ?_
    | refine (int64_stops _).bind fun _ _ => ?_

theorem breakTime_stops (t : Int) : Stops Overflows (breakTime t) := by
  unfold breakTime
  have hend : ∀ seconds days : Int, Stops Overflows (do
      let dt := fillHMS (toUnsigned seconds) {}
      let date : Date := ⟨← int (days + Date.kJulianDayOf1970_01_01)⟩
      let ymd ← date.yearMonthDay
      pure { dt with year := ymd.year, month := ymd.month, day := ymd.day }) := by
    intro seconds days
    exact (int_stops _).bind fun _ _ => Stops.bind (getYearMonthDay_stops _) fun _ _ => Stops.ok _
  apply Stops.ite
  · exact fun _ => (int_stops _).bind fun _ _ => (int_stops _).bind fun _ _ => hend _ _
  · exact fun _ => hend _ _

namespace Data

variable {d : Data}

theorem choose_stops (x : Int) (r : Nat) (post : Bool) : Stops Overflows (d.choose x r post) := by
  unfold choose
  refine Stops.ite (fun _ => Stops.ok _) fun _ => Stops.ite (fun _ => Stops.ok _) fun _ => ?_
  refine (int64_stops _).bind fun _ _ => (int64_stops _).bind fun _ _ => ?_
  refine Stops.ite (fun _ => Stops.ok _) fun _ => Stops.ite (fun _ => Stops.ok _) fun _ => ?_
  refine (int64_stops _).bind fun _ _ => (int64_stops _).bind fun _ _ => ?_
  exact Stops.ite (fun _ => Stops.ok _) fun _ => Stops.ok _

/-- The lookups of a zone whose indices are in range stop at most with an overflow. -/
theorem Indexed.toLocalTime (h : d.Indexed) (t : Int) : Stops Overflows (toLocalTime ⟨some d⟩ t) := by
  show Stops Overflows (d.findLocalTime t >>= _)
  rw [h.findLocalTime, ok_bind]
  exact (int64_stops _).bind fun _ _ => (breakTime_stops _).bind fun _ _ => Stops.ok _

theorem Indexed.fromLocalTime (h : d.Indexed) (dt : DateTime) (post : Bool) :
    Stops Overflows (fromLocalTime ⟨some d⟩ dt post) := by
  show Stops Overflows (d.findLocalTimeOf dt post >>= _)
  rw [h.findLocalTimeOf]
  refine Stops.bind ?_ fun _ _ => (fromUtcTime_stops _).bind fun _ _ => int64_stops _
  exact (fromUtcTime_stops _).bind fun _ _ => (choose_stops _ _ _).bind fun _ _ => Stops.ok _

end Data

/-! ## The stages of the reading -/

def readHeader (stack : Option Nat) : Reader Fault (Bytes × Counts) := do
  readHead stack
  let version ← File.readBytes stack 1
  let _ ← File.readBytes stack 15
  let counts ← readCounts
  pure (version, counts)

/-- The way from the first header to the block that is loaded. -/
def toBlock (stack : Option Nat) (version : Bytes) (counts : Counts) : Reader Fault Bool :=
  if version = ascii "2" then do
    File.skip (← counts.skip)
    readHead stack
    File.skip 16
    pure false
  else do
    File.skip (-4 * 6)
    pure true

structure Parts where
  counts : Counts
  trans : List (Int × Nat)
  types : List LocalTime

def readParts (v1 : Bool) : Reader Fault (Option Parts) := do
  let counts ← readCounts
  if counts.leapcnt ≠ 0 then pure none
  else if counts.isutccnt ≠ 0 ∧ counts.isutccnt ≠ counts.typecnt then pure none
  else if counts.isstdcnt ≠ 0 ∧ counts.isstdcnt ≠ counts.typecnt then pure none
  else do
    let trans ← readVector counts.timecnt (if v1 then File.readInt32 else File.readInt64)
    let localtimes ← readVector counts.timecnt File.readUInt8
    let types ← readVector counts.typecnt readLocalTime
    pure (some ⟨counts, trans.zip localtimes, types⟩)

def Parts.load (p : Parts) (stack : Option Nat) (v1 : Bool) : Reader Fault (Option Data) := do
  let data ← Data.addTransitions { localtimes := p.types } p.trans
  let abbreviation ← File.readBytes stack p.counts.charcnt
  File.skip (← int (p.counts.leapcnt * ((if v1 then 4 else 8) + 4)))
  File.skip p.counts.isstdcnt
  File.skip p.counts.isutccnt
  let tzstring ← (if v1 then pure data.tzstring else File.readToEnd)
  pure (some { data with abbreviation, tzstring })

theorem readFile_eq (stack : Option Nat) : readFile stack = (do
    let (version, counts) ← readHeader stack
    let v1 ← toBlock stack version counts
    readDataBlock stack {} v1) := by
  unfold readFile readHeader
  simp only [bind_assoc, pure_bind]
  refine congrArg _ (funext fun _ => congrArg _ (funext fun version => ?_))
  refine congrArg _ (funext fun _ => congrArg _ (funext fun counts => ?_))
  unfold toBlock
  split
  · simp only [bind_assoc, pure_bind]
  · simp only [bind_assoc, pure_bind]

theorem readDataBlock_eq (stack : Option Nat) (v1 : Bool) : readDataBlock stack {} v1 = (do
    match ← readParts v1 with
    | none => pure none
    | some p => p.load stack v1) := by
  unfold readDataBlock readParts
  rw [bind_assoc]
  refine congrArg (readCounts >>= ·) (funext fun counts => ?_)
  dsimp only
  split
  · rfl
  split
  · rfl
  split
  · rfl
  · simp only [bind_assoc, pure_bind, addLocalTimes]
    rfl

/-! ## What a block loads -/

/-- No sum overflows before the first index that is out of range. -/
def SumsFit (types : List LocalTime) : List (Int × Nat) → Prop
  | [] => True
  | t :: ts =>
    match types[t.2]? with
    | some lt => (-2 ^ 63 ≤ t.1 + lt.utcOffset ∧ t.1 + lt.utcOffset < 2 ^ 63) ∧ SumsFit types ts
    | none => True

theorem addTransitions_cases {types : List LocalTime} (ts : List (Int × Nat)) {d : Data} (hd : d.localtimes = types)
    (hidx : ∀ tr ∈ d.transitions, tr.localtimeIdx < types.length) :
    (∃ d', d.addTransitions ts = .ok d' ∧ d'.localtimes = types ∧
      (∀ tr ∈ d'.transitions, tr.localtimeIdx < types.length) ∧
      SumsFit types ts ∧ ∀ t ∈ ts, t.2 < types.length) ∨
    (d.addTransitions ts = .error .logicError ∧ SumsFit types ts ∧ ¬ ∀ t ∈ ts, t.2 < types.length) ∨
    (d.addTransitions ts = .error .overflow ∧ ¬ SumsFit types ts) := by
  induction ts generalizing d with
  | nil => exact .inl ⟨d, rfl, hd, hidx, trivial, by simp⟩
  | cons t ts ih =>
    rw [Data.addTransitions, List.foldlM_cons, Data.addTransition, hd, SumsFit]
    cases hlt : types[t.2]? with
    | none =>
      refine .inr (.inl ⟨rfl, trivial, fun hall => ?_⟩)
      have := List.getElem?_eq_none_iff.1 hlt
      have := hall t (.head ts)
      omega
    | some lt =>
      have hin := (List.getElem?_eq_some_iff.1 hlt).1
      dsimp only
      by_cases hsum : -2 ^ 63 ≤ t.1 + lt.utcOffset ∧ t.1 + lt.utcOffset < 2 ^ 63
      · rw [int64_of hsum, ok_bind, pure_eq_ok, ok_bind, ← Data.addTransitions, and_iff_right hsum,
          List.forall_mem_cons, and_iff_right hin]
        apply ih rfl
        intro tr htr
        rcases List.mem_append.1 htr with htr | htr
        · exact hidx tr htr
        · rw [List.mem_singleton.1 htr]
          exact hin
      · refine .inr (.inr ⟨?_, fun h => hsum h.1⟩)
        rw [int64, if_neg hsum]
        rfl

def remaining (f : Input) : Nat := f.data.length - f.pos

/-- A block that is refused, or has types to look up, on a stack that holds its names. -/
structure Parts.Harmless (p : Parts) (stack : Nat) (f : Input) : Prop where
  sums : SumsFit p.types p.trans
  names : (∀ t ∈ p.trans, t.2 < p.types.length) →
    (0 ≤ p.counts.charcnt ∧ p.counts.charcnt ≤ stack) ∧ (p.types ≠ [] ∨ remaining f < p.counts.charcnt)

theorem readBytes_of_fits {stack : Nat} {n : Int} (h₀ : 0 ≤ n) (h : n ≤ stack) :
    File.readBytes (some stack) n = take .logicError n.toNat := by
  have hfits : ¬ (n < 0 ∨ (some stack).any (· < n.toNat) = true) := by
    rw [Option.any_some, decide_eq_true_eq]
    omega
  rw [File.readBytes, if_neg hfits]

theorem readBytes_cases (stack : Nat) (n : Int) (f : Input) :
    (¬ (0 ≤ n ∧ n ≤ stack) ∧ File.readBytes (some stack) n f = .error .arraySize) ∨
    ((0 ≤ n ∧ n ≤ stack) ∧ n ≤ remaining f ∧ ∃ bs g, File.readBytes (some stack) n f = .ok (bs, g)) ∨
    ((0 ≤ n ∧ n ≤ stack) ∧ remaining f < n ∧ File.readBytes (some stack) n f = .error .logicError) := by
  by_cases hn : 0 ≤ n ∧ n ≤ stack
  · have hlen : ((f.data.drop f.pos).take n.toNat).length = min n.toNat (remaining f) := by
      rw [List.length_take, List.length_drop, remaining]
    rw [readBytes_of_fits hn.1 hn.2]
    unfold take
    dsimp only
    rw [hlen]
    by_cases hle : n ≤ remaining f
    · rw [if_pos (by omega)]
      exact .inr (.inl ⟨hn, hle, _, _, rfl⟩)
    · rw [if_neg (by omega)]
      exact .inr (.inr ⟨hn, by omega, rfl⟩)
  · have hbad : n < 0 ∨ (some stack).any (· < n.toNat) = true := by
      rw [Option.any_some, decide_eq_true_eq]
      omega
    rw [File.readBytes, if_pos hbad]
    exact .inl ⟨hn, rfl⟩

/-- The `catch` of `readTimeZoneFile`. -/
def caught : Except Fault (Option Data × Input) → Except Fault TimeZone
  | .ok (data, _) => .ok ⟨data⟩
  | .error .logicError => .ok ⟨none⟩
  | .error e => .error e

/-- An invalid zone, or one whose lookups stay in range. -/
def Safe (x : Except Fault TimeZone) : Prop :=
  ∃ z, x = .ok z ∧ ∀ d, z.data = some d → d.Indexed ∧
    (∀ t, z.toLocalTime t ≠ .error .outOfBounds) ∧ ∀ dt post, z.fromLocalTime dt post ≠ .error .outOfBounds

theorem safe_invalid : Safe (.ok ⟨none⟩) := ⟨_, rfl, fun _ h => nomatch h⟩

theorem not_safe_error {e : Fault} (he : e ≠ .logicError) : ¬ Safe (caught (.error e)) := by
  rintro ⟨z, hz, -⟩
  unfold caught at hz
  split at hz
  · rename_i h
    cases h
  · rename_i h
    cases h
    exact he rfl
  · cases hz

theorem safe_some {d : Data} {f : Input} : Safe (caught (.ok (some d, f))) ↔ d.Indexed := by
  constructor
  · rintro ⟨z, hz, hd⟩
    cases hz
    exact (hd d rfl).1
  · intro h
    refine ⟨_, rfl, ?_⟩
    rintro _ ⟨⟩
    refine ⟨h, fun t ht => ?_, fun dt post ht => ?_⟩
    · cases h.toLocalTime t _ ht
    · cases h.fromLocalTime dt post _ ht

theorem Parts.safe_iff {p : Parts} (hleap : p.counts.leapcnt = 0) (stack : Nat) (v1 : Bool) (f : Input) :
    Safe (caught (p.load (some stack) v1 f)) ↔ p.Harmless stack f := by
  unfold Parts.load
  rw [lift_bind_apply]
  rcases addTransitions_cases (d := { localtimes := p.types }) p.trans rfl (fun tr htr => nomatch htr) with
    ⟨d, hd, htypes, hidx, hsums, hall⟩ | ⟨herr, hsums, hall⟩ | ⟨herr, hsums⟩
  · have htypes : d.localtimes = p.types := htypes
    rw [hd, ok_bind, bind_apply]
    rcases readBytes_cases stack p.counts.charcnt f with ⟨hbad, herr⟩ | ⟨h₀, hle, bs, g, hbs⟩ | ⟨h₀, hlt, herr⟩
    · rw [herr, error_bind]
      exact iff_of_false (not_safe_error (by decide)) fun h => hbad (h.names hall).1
    · rw [hbs, ok_bind, lift_bind_apply, hleap, Int.zero_mul, int_of (by decide), ok_bind]
      have hend : ∀ tzstring, ({ d with abbreviation := bs, tzstring } : Data).Indexed ↔ p.Harmless stack f := by
        intro tzstring
        constructor
        · intro h
          exact ⟨hsums, fun _ => ⟨h₀, .inl (htypes ▸ h.front)⟩⟩
        · intro h
          have hne : p.types ≠ [] := (h.names hall).2.resolve_right (by omega)
          exact ⟨htypes ▸ hne, htypes ▸ hidx⟩
      cases v1
      · exact safe_some.trans (hend _)
      · exact safe_some.trans (hend _)
    · rw [herr, error_bind]
      exact iff_of_true safe_invalid ⟨hsums, fun _ => ⟨h₀, .inr hlt⟩⟩
  · rw [herr, error_bind]
    exact iff_of_true safe_invalid ⟨hsums, fun h => absurd h hall⟩
  · rw [herr, error_bind]
    exact iff_of_false (not_safe_error (by decide)) fun h => hsums h.sums

/-! ## How the reading fails -/

def Throws (e : Fault) : Prop := e = .logicError

theorem take_throws (n : Nat) : Fails Throws (take .logicError n) := Fails.take n rfl

theorem readInt32_throws : Fails Throws File.readInt32 := (take_throws 4).bind fun _ => Fails.pure _

theorem readUInt8_throws : Fails Throws File.readUInt8 := (take_throws 1).bind fun _ => Fails.pure _

theorem readCounts_throws : Fails Throws readCounts :=
  readInt32_throws.bind fun _ => readInt32_throws.bind fun _ => readInt32_throws.bind fun _ =>
    readInt32_throws.bind fun _ => readInt32_throws.bind fun _ => readInt32_throws.bind fun _ => Fails.pure _

theorem readVector_throws {α : Type} {r : Reader Fault α} (n : Int) (hr : Fails Throws r) :
    Fails Throws (readVector n r) := by
  unfold readVector
  split
  · exact Fails.throw rfl
  · exact hr.times _

theorem readBytes_throws {stack : Nat} {n : Int} (h₀ : 0 ≤ n) (h : n ≤ stack) :
    Fails Throws (File.readBytes (some stack) n) := by
  rw [readBytes_of_fits h₀ h]
  exact take_throws _

theorem readHead_throws {stack : Nat} (hs : 15 ≤ stack) : Fails Throws (readHead (some stack)) := by
  refine (readBytes_throws (by decide) (by omega)).bind fun head => ?_
  split
  · exact Fails.throw rfl
  · exact Fails.pure ()

theorem readHeader_throws {stack : Nat} (hs : 15 ≤ stack) : Fails Throws (readHeader (some stack)) :=
  (readHead_throws hs).bind fun _ => (readBytes_throws (by decide) (by omega)).bind fun _ =>
    (readBytes_throws (by decide) (by omega)).bind fun _ => readCounts_throws.bind fun _ => Fails.pure _

theorem readParts_throws (v1 : Bool) : Fails Throws (readParts v1) := by
  refine readCounts_throws.bind fun counts => ?_
  split
  · exact Fails.pure none
  split
  · exact Fails.pure none
  split
  · exact Fails.pure none
  · refine (readVector_throws _ ?_).bind fun _ => (readVector_throws _ readUInt8_throws).bind fun _ =>
      (readVector_throws _ ?_).bind fun _ => Fails.pure _
    · split
      · exact readInt32_throws
      · exact (take_throws 8).bind fun _ => Fails.pure _
    · exact readInt32_throws.bind fun _ => readUInt8_throws.bind fun _ => readUInt8_throws.bind fun _ => Fails.pure _

theorem readParts_leapcnt {v1 : Bool} {f g : Input} {p : Parts} (h : readParts v1 f = .ok (some p, g)) :
    p.counts.leapcnt = 0 := by
  unfold readParts at h
  obtain ⟨⟨counts, f⟩, -, h⟩ := bind_ok.1 h
  dsimp only at h
  split at h
  · cases h
  rename_i hleap
  split at h
  · cases h
  split at h
  · cases h
  · obtain ⟨trans, _, h⟩ := bind_ok.1 h
    obtain ⟨localtimes, _, h⟩ := bind_ok.1 h
    obtain ⟨types, _, h⟩ := bind_ok.1 h
    cases h
    exact not_not.1 hleap

/-! ## Whole files -/

/-- The products that `skip` is made of are `int`s. -/
structure Counts.Products (c : Counts) : Prop where
  types : -2 ^ 31 ≤ 6 * c.typecnt ∧ 6 * c.typecnt < 2 ^ 31
  leaps : -2 ^ 31 ≤ 8 * c.leapcnt ∧ 8 * c.leapcnt < 2 ^ 31

/-- A file whose sums stay in their types and whose block is refused or can be looked up. -/
structure Harmless (stack : Nat) (file : Bytes) : Prop where
  header : ∀ counts f, readHeader (some stack) ⟨file, 0⟩ = .ok ((ascii "2", counts), f) → counts.Products
  block : ∀ version counts f v1 g p k, readHeader (some stack) ⟨file, 0⟩ = .ok ((version, counts), f) →
    toBlock (some stack) version counts f = .ok (v1, g) → readParts v1 g = .ok (some p, k) → p.Harmless stack k

theorem skip_cases (c : Counts) : (∃ n, c.skip = .ok n ∧ c.Products) ∨ (c.skip = .error .overflow ∧ ¬ c.Products) := by
  unfold Counts.skip int
  by_cases htypes : -2 ^ 31 ≤ 6 * c.typecnt ∧ 6 * c.typecnt < 2 ^ 31
  · rw [if_pos htypes, ok_bind]
    by_cases hleaps : -2 ^ 31 ≤ 8 * c.leapcnt ∧ 8 * c.leapcnt < 2 ^ 31
    · rw [if_pos hleaps, ok_bind]
      exact .inl ⟨_, rfl, htypes, hleaps⟩
    · rw [if_neg hleaps]
      exact .inr ⟨rfl, fun h => hleaps h.leaps⟩
  · rw [if_neg htypes]
    exact .inr ⟨rfl, fun h => htypes h.types⟩

theorem toBlock_cases {stack : Nat} (hs : 15 ≤ stack) (version : Bytes) (c : Counts) (f : Input) :
    ((version = ascii "2" → c.Products) ∧ Stops Throws (toBlock (some stack) version c f)) ∨
      (version = ascii "2" ∧ ¬ c.Products ∧ toBlock (some stack) version c f = .error .overflow) := by
  unfold toBlock
  by_cases hversion : version = ascii "2"
  · rw [if_pos hversion, lift_bind_apply]
    rcases skip_cases c with ⟨n, hn, hc⟩ | ⟨herr, hc⟩
    · rw [hn, ok_bind]
      exact .inl ⟨fun _ => hc,
        (Fails.seek n).bind (fun _ => (readHead_throws hs).bind fun _ => (Fails.seek 16).bind fun _ => Fails.pure _) f⟩
    · rw [herr]
      exact .inr ⟨hversion, hc, rfl⟩
  · rw [if_neg hversion]
    exact .inl ⟨fun h => absurd h hversion, (Fails.seek _).bind (fun _ => Fails.pure _) f⟩

theorem loadZoneFile_eq (file : Bytes) (stack : Option Nat) :
    loadZoneFile (some file) stack = caught (readFile stack ⟨file, 0⟩) := by
  unfold loadZoneFile readTimeZoneFile
  dsimp only
  generalize readFile stack ⟨file, 0⟩ = r
  rcases r with e | ⟨data, f⟩
  · cases e <;> rfl
  · rfl

theorem safe_throws {r : Except Fault (Option Data × Input)} {e : Fault} (hr : r = .error e) (he : Throws e) :
    Safe (caught r) := by
  cases he
  rw [hr]
  exact safe_invalid

theorem harmless_iff {stack : Nat} {file version : Bytes} {counts : Counts} {f : Input}
    (h : readHeader (some stack) ⟨file, 0⟩ = .ok ((version, counts), f)) :
    Harmless stack file ↔ (version = ascii "2" → counts.Products) ∧
      ∀ v1 g p k, toBlock (some stack) version counts f = .ok (v1, g) → readParts v1 g = .ok (some p, k) →
        p.Harmless stack k := by
  constructor
  · intro hfile
    refine ⟨?_, fun v1 g p k => hfile.block version counts f v1 g p k h⟩
    rintro rfl
    exact hfile.header counts f h
  · rintro ⟨hheader, hblock⟩
    constructor
    · intro counts' f' h'
      cases h.symm.trans h'
      exact hheader rfl
    · intro version' counts' f' v1 g p k h'
      cases h.symm.trans h'
      exact hblock v1 g p k

theorem block_safe_iff (stack : Nat) (v1 : Bool) (g : Input) :
    Safe (caught (readDataBlock (some stack) {} v1 g)) ↔
      ∀ p k, readParts v1 g = .ok (some p, k) → p.Harmless stack k := by
  rw [readDataBlock_eq, bind_apply]
  cases hparts : readParts v1 g with
  | error e => exact iff_of_true (safe_throws rfl (readParts_throws v1 g e hparts)) fun p k h => nomatch h
  | ok r =>
    obtain ⟨_ | p, k⟩ := r
    · exact iff_of_true safe_invalid fun p k h => nomatch h
    · refine (p.safe_iff (readParts_leapcnt hparts) stack v1 k).trans ⟨fun h p' k' heq => ?_, fun h => h p k rfl⟩
      cases heq
      exact h

/-- On a stack that holds the arrays for the header, a file is refused, or loaded into a zone whose lookups stay
in range, exactly when it is harmless. -/
theorem load_safe_iff (stack : Nat) (hs : 15 ≤ stack) (file : Bytes) :
    Safe (loadZoneFile (some file) (some stack)) ↔ Harmless stack file := by
  rw [loadZoneFile_eq, readFile_eq, bind_apply]
  cases hheader : readHeader (some stack) ⟨file, 0⟩ with
  | error e =>
    refine iff_of_true (safe_throws rfl (readHeader_throws hs _ e hheader)) ⟨?_, ?_⟩
    · intro counts f h
      cases hheader.symm.trans h
    · intro version counts f v1 g p k h
      cases hheader.symm.trans h
  | ok h =>
    obtain ⟨⟨version, counts⟩, f⟩ := h
    rw [harmless_iff hheader, ok_bind]
    dsimp only
    rw [bind_apply]
    rcases toBlock_cases hs version counts f with ⟨hproducts, hthrows⟩ | ⟨hversion, hproducts, herr⟩
    · rw [and_iff_right hproducts]
      cases hblock : toBlock (some stack) version counts f with
      | error e => exact iff_of_true (safe_throws rfl (hthrows e hblock)) fun v1 g p k h => nomatch h
      | ok b =>
        obtain ⟨v1, g⟩ := b
        refine (block_safe_iff stack v1 g).trans ⟨fun h v1' g' p k heq => ?_, fun h p k => h v1 g p k rfl⟩
        cases heq
        exact h p k
    · rw [herr, error_bind]
      exact iff_of_false (not_safe_error (by decide)) fun h => hproducts (h.1 hversion)

/-- One type, and names of almost 2 GiB, of which none are there. -/
def longNames : Bytes := header '\x00' ⟨0, 0, 0, 0, 1, 2 ^ 31 - 1⟩ ++ LocalTime.bytes ⟨0, false, 0⟩

/-- On 8 MiB of stack `longNames` overruns it, and an ordinary file is loaded. -/
theorem load_safe_iff_names :
    loadZoneFile (some longNames) (some (8 * 2 ^ 20)) = .error .arraySize ∧ ¬ Harmless (8 * 2 ^ 20) longNames ∧
      Harmless (8 * 2 ^ 20) cest.file1 := by
  have hlong : loadZoneFile (some longNames) (some (8 * 2 ^ 20)) = .error .arraySize := by decide +kernel
  have hcest : loadZoneFile (some cest.file1) (some (8 * 2 ^ 20)) = .ok ⟨some (cest.data [])⟩ := by decide +kernel
  refine ⟨hlong, fun h => ?_, ?_⟩
  · obtain ⟨z, hz, -⟩ := (load_safe_iff (8 * 2 ^ 20) (by decide) longNames).mpr h
    rw [hlong] at hz
    cases hz
  · apply (load_safe_iff (8 * 2 ^ 20) (by decide) cest.file1).mp
    rw [hcest]
    exact (safe_some (f := ⟨[], 0⟩)).mpr ⟨by decide, by decide⟩

def noTypes : Bytes := header '\x00' ⟨0, 0, 0, 0, 0, 0⟩

theorem no_types_out_of_range : ∃ z : TimeZone, loadZoneFile (some noTypes) (some (8 * 2 ^ 20)) = .ok z ∧
    z.valid = true ∧ z.data.map Data.localtimes = some [] ∧ z.toLocalTime 0 = .error .outOfBounds ∧
    z.fromLocalTime ⟨1970, 1, 1, 0, 0, 0⟩ false = .error .outOfBounds := by
  refine ⟨⟨some {}⟩, ?_, rfl, rfl, rfl, ?_⟩
  · decide +kernel
  · decide +kernel

end Zhengqi.TimeZone
