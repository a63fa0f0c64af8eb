import Zhengqi.ZoneFileSound

/-!
# Zone files of version 3

They are laid out as those of version 2, with a block of 32-bit times in front of the one with 64-bit
times. `readTimeZoneFile` takes only "2" for two blocks, and reads the first one of all others.
-/

namespace Zhengqi.TimeZone

open ByteReader Run

/-! ## The format -/

/-- A block with leap seconds: the time of each, and the correction. -/
structure LeapBlock where
  block : Block
  leaps : List (Int × Int)

namespace LeapBlock

def counts (b : LeapBlock) : Counts := { b.block.counts with leapcnt := b.leaps.length }

def bytes (b : LeapBlock) (size : Nat) : Bytes :=
  (b.block.times.map Prod.fst).flatMap (intBytes size) ++
    ((b.block.times.map Prod.snd).flatMap (fun i => [UInt8.ofNat i]) ++
    (b.block.types.flatMap LocalTime.bytes ++ (b.block.designations ++
      (b.leaps.flatMap (fun l => intBytes size l.1 ++ intBytes 4 l.2) ++ (b.block.isstd ++ b.block.isut)))))

theorem counts_of_nil {b : LeapBlock} (h : b.leaps = []) : b.counts = b.block.counts := by
  rw [counts, h]
  rfl

theorem bytes_of_nil {b : LeapBlock} (h : b.leaps = []) (size : Nat) : b.bytes size = b.block.bytes size := by
  rw [bytes, h]
  rfl

theorem length_flatMap_const {α : Type} {f : α → Bytes} {k : Nat} (h : ∀ a, (f a).length = k) (as : List α) :
    (as.flatMap f).length = k * as.length := by
  induction as with
  | nil => rfl
  | cons a as ih => rw [List.flatMap_cons, List.length_append, h, ih, List.length_cons, Nat.mul_succ, Nat.add_comm]

theorem length_bytes (b : LeapBlock) : (b.bytes 4).length = b.counts.size := by
  have htype : ∀ lt : LocalTime, lt.bytes.length = 6 := fun lt => by simp [LocalTime.bytes]
  have hleap : ∀ l : Int × Int, (intBytes 4 l.1 ++ intBytes 4 l.2).length = 8 := fun l => by simp
  have htimes := length_flatMap_const (length_intBytes 4) (b.block.times.map Prod.fst)
  have hidx := length_flatMap_const (f := fun i => [UInt8.ofNat i]) (k := 1) (fun _ => rfl) (b.block.times.map Prod.snd)
  have htypes := length_flatMap_const htype b.block.types
  have hleaps := length_flatMap_const hleap b.leaps
  rw [List.length_map] at htimes hidx
  simp only [bytes, List.length_append, htimes, hidx, htypes, hleaps, Counts.size, counts, Block.counts]
  omega

end LeapBlock

/-- The format, as far as it says what a block is: the counts are 32-bit numbers without a sign. -/
structure LeapBlock.WellFormed (b : LeapBlock) (size : Nat) : Prop where
  time : ∀ t ∈ b.block.times, -(256 ^ size) ≤ 2 * t.1 ∧ 2 * t.1 < 256 ^ size
  idx : ∀ t ∈ b.block.times, t.2 < b.block.types.length ∧ t.2 < 256
  types : b.block.types ≠ []
  type : ∀ lt ∈ b.block.types, (-2 ^ 31 ≤ lt.utcOffset ∧ lt.utcOffset < 2 ^ 31) ∧ lt.desigIdx < 256
  isstd : b.block.isstd.length = 0 ∨ b.block.isstd.length = b.block.types.length
  isut : b.block.isut.length = 0 ∨ b.block.isut.length = b.block.types.length
  counts : b.block.times.length < 2 ^ 32 ∧ b.block.types.length < 2 ^ 32 ∧ b.block.designations.length < 2 ^ 32 ∧
    b.leaps.length < 2 ^ 32

/-- The counts are positive as `int32_t`. -/
def Block.Small (b : Block) : Prop := b.times.length < 2 ^ 31 ∧ b.types.length < 2 ^ 31 ∧ b.designations.length < 2 ^ 31

theorem LeapBlock.WellFormed.valid {b : LeapBlock} {size : Nat} (h : b.WellFormed size) (hsmall : b.block.Small) :
    b.block.Valid size :=
  { time := h.time, idx := h.idx, types := h.types, type := h.type, isstd := h.isstd, isut := h.isut, small := hsmall }

/-- A file with two blocks. -/
structure ZoneFile where
  first : LeapBlock
  second : LeapBlock
  footer : Bytes
  first_wf : first.WellFormed 4
  second_wf : second.WellFormed 8

def ZoneFile.bytes (f : ZoneFile) (version : Char) : Bytes :=
  header version f.first.counts ++
    (f.first.bytes 4 ++ (header version f.second.counts ++ (f.second.bytes 8 ++ f.footer)))

/-! ## Reading it -/

/-- The reader gives no data. -/
def NoData (r : Reader Fault (Option Data)) : Prop := ∀ f d g, r f ≠ .ok (some d, g)

namespace NoData

variable {α : Type}

theorem none : NoData (pure none) := by
  intro f d g h
  cases h

theorem bind {r : Reader Fault α} {k : α → Reader Fault (Option Data)} (h : ∀ a, NoData (k a)) : NoData (r >>= k) := by
  intro f d g hok
  obtain ⟨p, -, hp⟩ := bind_ok.mp hok
  exact h p.1 p.2 d g hp

theorem throw {r : Reader Fault α} {e : Fault} {k : α → Reader Fault (Option Data)} (hr : r = throw e) :
    NoData (r >>= k) := by
  subst hr
  intro f d g h
  cases h

end NoData

/-- With leap seconds, or with a count that is negative, there is no data. -/
theorem noData_of_counts {v1 : Bool} {c : Counts} {data rest : Bytes} {pos : Nat}
    (hdata : data.drop pos = c.bytes ++ rest)
    (h : c.wrap.leapcnt ≠ 0 ∨ c.wrap.timecnt < 0 ∨ c.wrap.typecnt < 0 ∨ c.wrap.charcnt < 0) (d : Data) (g : Input) :
    readDataBlock none {} v1 ⟨data, pos⟩ ≠ .ok (some d, g) := by
  rw [readDataBlock, (decodes_counts_wrap c).bind_apply hdata]
  suffices hno : NoData _ from hno _ d g
  generalize c.wrap = w at h
  obtain ⟨isutccnt, isstdcnt, leapcnt, timecnt, typecnt, charcnt⟩ := w
  dsimp only at h ⊢
  split
  · exact .none
  split
  · exact .none
  split
  · exact .none
  rcases h with h | h | h | h
  · contradiction
  · exact .throw (by rw [readVector, if_pos h])
  · exact .bind fun _ => .bind fun _ => .throw (by rw [readVector, if_pos h])
  · exact .bind fun _ => .bind fun _ => .bind fun _ => .bind fun _ => .throw (by rw [File.readBytes, if_pos (.inl h)])

theorem bmod_neg {n : Nat} (h₀ : 2 ^ 31 ≤ n) (h₁ : n < 2 ^ 32) : (n : Int).bmod (2 ^ 32) < 0 := by
  rw [Int.bmod_def]
  omega

theorem bmod_ne_zero {n : Nat} (h₀ : 0 < n) (h₁ : n < 2 ^ 32) : (n : Int).bmod (2 ^ 32) ≠ 0 := by
  rw [Int.bmod_def]
  omega

namespace ZoneFile

/-- Of a file of version 3 the first block is read. -/
theorem reads_version3 {f : ZoneFile} (hleaps : f.first.leaps = []) (hsmall : f.first.block.Small) :
    readTimeZoneFile (some (f.bytes '3')) = .ok (some (f.first.block.data [])) := by
  have hvalid := f.first_wf.valid hsmall
  have hblock (rest : Bytes) : DecodesAll (readDataBlock none {} true)
    (f.first.block.counts.bytes ++ (f.first.block.bytes 4 ++ rest))
      (some (f.first.block.data [])) := Block.decodes_dataBlock hvalid rfl hvalid.sum fun _ _ _ => ⟨_, rfl⟩
  obtain ⟨g, hg⟩ := hblock _ (f.bytes '3') 20
    (by rw [bytes, LeapBlock.counts_of_nil hleaps, LeapBlock.bytes_of_nil hleaps]; rfl)
  rw [readTimeZoneFile, bytes, Block.readFile_first (by decide), ← bytes, hg]

theorem of_reads_version3 {f : ZoneFile} {d : Data} (h : readTimeZoneFile (some (f.bytes '3')) = .ok (some d)) :
    f.first.leaps = [] ∧ f.first.block.Small := by
  have hcounts := f.first_wf.counts
  by_contra hnot
  have hneg : f.first.counts.wrap.leapcnt ≠ 0 ∨ f.first.counts.wrap.timecnt < 0 ∨ f.first.counts.wrap.typecnt < 0 ∨
      f.first.counts.wrap.charcnt < 0 := by
    simp only [Counts.wrap, LeapBlock.counts, Block.counts]
    by_cases hnil : f.first.leaps = []
    · have hbig : ¬ f.first.block.Small := fun hsmall => hnot ⟨hnil, hsmall⟩
      rw [Block.Small, not_and_or, not_and_or] at hbig
      rcases hbig with hbig | hbig | hbig
      · exact .inr (.inl (bmod_neg (by omega) (by omega)))
      · exact .inr (.inr (.inl (bmod_neg (by omega) (by omega))))
      · exact .inr (.inr (.inr (bmod_neg (by omega) (by omega))))
    · exact .inl (bmod_ne_zero (List.length_pos_iff.2 hnil) hcounts.2.2.2)
  rw [readTimeZoneFile, bytes, Block.readFile_first (by decide), ← bytes] at h
  have hno : ∀ d g, readDataBlock none {} true ⟨f.bytes '3', 20⟩ ≠ .ok (some d, g) := noData_of_counts rfl hneg
  generalize readDataBlock none {} true ⟨f.bytes '3', 20⟩ = r at h hno
  rcases r with e | ⟨x, g⟩
  · cases e <;> cases h
  · cases h
    exact hno d g rfl

/-- Of a file of version 2 the second block is read. -/
theorem reads_version2 {f : ZoneFile} (hfirst : f.first.counts.Small) (hleaps : f.second.leaps = [])
    (hsmall : f.second.block.Small) (hsum : ∀ t ∈ f.second.block.times, -2 ^ 63 ≤ t.1 + f.second.block.offset t.2 ∧
      t.1 + f.second.block.offset t.2 < 2 ^ 63) :
    readTimeZoneFile (some (f.bytes '2')) = .ok (some (f.second.block.data f.footer)) := by
  rw [bytes, LeapBlock.counts_of_nil hleaps, LeapBlock.bytes_of_nil hleaps]
  exact Block.reads_file2 (f.second_wf.valid hsmall) hfirst f.first.length_bytes hsum

theorem data_eq_iff {b c : Block} {x y : Bytes} :
    (b.data x).transitions = (c.data y).transitions ∧ (b.data x).localtimes = (c.data y).localtimes ↔
      b.times = c.times ∧ b.types = c.types := by
  constructor
  · rintro ⟨htrans, htypes⟩
    refine ⟨?_, htypes⟩
    have hback : ∀ (b : Block) x, (b.data x).transitions.map (fun t => (t.utctime, t.localtimeIdx)) = b.times := by
      intro b x
      rw [Block.data, List.map_map]
      exact List.map_id _
    rw [← hback b x, htrans, hback c y]
  · rintro ⟨htimes, htypes⟩
    have hoffset : b.offset = c.offset := by
      funext i
      rw [Block.offset, Block.offset, htypes]
    refine ⟨?_, htypes⟩
    rw [Block.data, Block.data, htimes, hoffset]

/-- The result has the transitions and the local time types of the second block. -/
def YieldsSecond (f : ZoneFile) (version : Char) : Prop :=
  ∃ d, readTimeZoneFile (some (f.bytes version)) = .ok (some d) ∧
    d.transitions = (f.second.block.data f.footer).transitions ∧
    d.localtimes = (f.second.block.data f.footer).localtimes

/-- A file of version 3 yields its second block exactly if the first says the same and its counts are
no more than an `int32_t` holds; one of version 2 yields it whatever the first says. -/
theorem version3_yields_second_iff (f : ZoneFile) :
    (f.YieldsSecond '3' ↔ f.first.leaps = [] ∧ f.first.block.Small ∧
      f.first.block.times = f.second.block.times ∧ f.first.block.types = f.second.block.types) ∧
    (f.first.counts.Small → f.second.leaps = [] → f.second.block.Small →
      (∀ t ∈ f.second.block.times, -2 ^ 63 ≤ t.1 + f.second.block.offset t.2 ∧
        t.1 + f.second.block.offset t.2 < 2 ^ 63) →
      f.YieldsSecond '2') := by
  refine ⟨⟨?_, ?_⟩, ?_⟩
  · rintro ⟨d, hd, hsecond⟩
    obtain ⟨hleaps, hsmall⟩ := of_reads_version3 hd
    rw [reads_version3 hleaps hsmall, Except.ok.injEq] at hd
    obtain rfl := Option.some.inj hd
    exact ⟨hleaps, hsmall, data_eq_iff.1 hsecond⟩
  · rintro ⟨hleaps, hsmall, hsame⟩
    exact ⟨_, reads_version3 hleaps hsmall, data_eq_iff.2 hsame⟩
  · intro hfirst hleaps hsmall hsum
    exact ⟨_, reads_version2 hfirst hleaps hsmall hsum, rfl, rfl⟩

end ZoneFile

/-- A fat file: both blocks say the same. -/
def fat : ZoneFile where
  first := ⟨cest, []⟩
  second := ⟨cest, []⟩
  footer := ascii "\nCET-1CEST\n"
  first_wf := ⟨by decide, by decide, by decide, by decide, by decide, by decide, by decide⟩
  second_wf := ⟨by decide, by decide, by decide, by decide, by decide, by decide, by decide⟩

theorem version3_yields_second_iff_fat : fat.YieldsSecond '3' ∧ fat.YieldsSecond '2' := by
  obtain ⟨hiff, htwo⟩ := ZoneFile.version3_yields_second_iff fat
  refine ⟨hiff.2 ⟨rfl, ⟨by decide, by decide, by decide⟩, rfl, rfl⟩,
    htwo ?_ rfl ⟨by decide, by decide, by decide⟩ (by decide)⟩
  exact ⟨by decide, by decide, by decide, by decide, by decide, by decide⟩

/-- A slim file: the first block is one type, which stands for nothing. -/
def slim : ZoneFile where
  first := ⟨⟨[], [⟨0, false, 0⟩], [0], [], []⟩, []⟩
  second := ⟨cest, []⟩
  footer := ascii "\nCET-1CEST\n"
  first_wf := ⟨by decide, by decide, by decide, by decide, by decide, by decide, by decide⟩
  second_wf := ⟨by decide, by decide, by decide, by decide, by decide, by decide, by decide⟩

/-- With version 3 the zone is UTC. -/
theorem slim_version3_utc :
    readTimeZoneFile (some (slim.bytes '3')) = .ok (some { localtimes := [⟨0, false, 0⟩], abbreviation := [0] }) ∧
      readTimeZoneFile (some (slim.bytes '2')) = .ok (some (cest.data (ascii "\nCET-1CEST\n"))) ∧
      ¬ slim.YieldsSecond '3' := by
  have hthree : readTimeZoneFile (some (slim.bytes '3')) =
      .ok (some { localtimes := [⟨0, false, 0⟩], abbreviation := [0] }) :=
    ZoneFile.reads_version3 rfl ⟨by decide, by decide, by decide⟩
  have htwo : readTimeZoneFile (some (slim.bytes '2')) = .ok (some (cest.data (ascii "\nCET-1CEST\n"))) :=
    ZoneFile.reads_version2 ⟨by decide, by decide, by decide, by decide, by decide, by decide⟩ rfl
      ⟨by decide, by decide, by decide⟩
      (by decide)
  refine ⟨hthree, htwo, ?_⟩
  rintro ⟨d, hd, htrans, -⟩
  rw [hthree, Except.ok.injEq] at hd
  obtain rfl := Option.some.inj hd
  cases htrans

end Zhengqi.TimeZone
