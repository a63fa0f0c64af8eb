import Zhengqi.TimeZoneFile

/-!
# Zone files that follow the format

What a TZif file lays out is what `loadZoneFile` reads.
-/

namespace Zhengqi.TimeZone

open ByteReader Run

/-! ## The format -/

structure Block where
  times : List (Int × Nat)
  types : List LocalTime
  designations : Bytes
  isstd : Bytes
  isut : Bytes

def Counts.bytes (c : Counts) : Bytes :=
  intBytes 4 c.isutccnt ++ (intBytes 4 c.isstdcnt ++ (intBytes 4 c.leapcnt ++ (intBytes 4 c.timecnt ++
    (intBytes 4 c.typecnt ++ intBytes 4 c.charcnt))))

def Counts.fields (c : Counts) : List Int := [c.isutccnt, c.isstdcnt, c.leapcnt, c.timecnt, c.typecnt, c.charcnt]

/-- The sizes of a block with 32-bit times. -/
def Counts.size (c : Counts) : Int :=
  4 * c.timecnt + c.timecnt + 6 * c.typecnt + c.charcnt + 8 * c.leapcnt + c.isstdcnt + c.isutccnt

def header (version : Char) (c : Counts) : Bytes :=
  ascii "TZif" ++ ([chr version] ++ (List.replicate 15 0 ++ c.bytes))

def LocalTime.bytes (lt : LocalTime) : Bytes :=
  intBytes 4 lt.utcOffset ++ ([if lt.isDst then 1 else 0] ++ [UInt8.ofNat lt.desigIdx])

namespace Block

def counts (b : Block) : Counts where
  isutccnt := b.isut.length
  isstdcnt := b.isstd.length
  leapcnt := 0
  timecnt := b.times.length
  typecnt := b.types.length
  charcnt := b.designations.length

/-- A data block with times of `size` bytes. -/
def bytes (b : Block) (size : Nat) : Bytes :=
  (b.times.map Prod.fst).flatMap (intBytes size) ++ ((b.times.map Prod.snd).flatMap (fun i => [UInt8.ofNat i]) ++
    (b.types.flatMap LocalTime.bytes ++ (b.designations ++ (b.isstd ++ b.isut))))

/-- A file of version 2, with any bytes for its first block. -/
def file2 (b : Block) (first : Counts) (skipped footer : Bytes) : Bytes :=
  header '2' first ++ (skipped ++ (header '2' b.counts ++ (b.bytes 8 ++ footer)))

def file1 (b : Block) : Bytes := header '\x00' b.counts ++ b.bytes 4

def offset (b : Block) (i : Nat) : Int := (b.types[i]?.map LocalTime.utcOffset).getD 0

def data (b : Block) (footer : Bytes) : Data where
  transitions := b.times.map fun t => ⟨t.1, t.1 + b.offset t.2, t.2⟩
  localtimes := b.types
  tzstring := footer
  abbreviation := b.designations

structure Valid (b : Block) (size : Nat) : Prop where
  time : ∀ t ∈ b.times, -(256 ^ size) ≤ 2 * t.1 ∧ 2 * t.1 < 256 ^ size
  idx : ∀ t ∈ b.times, t.2 < b.types.length ∧ t.2 < 256
  types : b.types ≠ []
  type : ∀ lt ∈ b.types, (-2 ^ 31 ≤ lt.utcOffset ∧ lt.utcOffset < 2 ^ 31) ∧ lt.desigIdx < 256
  isstd : b.isstd.length = 0 ∨ b.isstd.length = b.types.length
  isut : b.isut.length = 0 ∨ b.isut.length = b.types.length
  small : b.times.length < 2 ^ 31 ∧ b.types.length < 2 ^ 31 ∧ b.designations.length < 2 ^ 31

end Block

/-- No operation on the counts overflows. -/
structure Counts.Small (c : Counts) : Prop where
  isutccnt : 0 ≤ c.isutccnt ∧ c.isutccnt < 2 ^ 31
  isstdcnt : 0 ≤ c.isstdcnt ∧ c.isstdcnt < 2 ^ 31
  leapcnt : 0 ≤ c.leapcnt ∧ 8 * c.leapcnt < 2 ^ 31
  timecnt : 0 ≤ c.timecnt ∧ c.timecnt < 2 ^ 31
  typecnt : 0 ≤ c.typecnt ∧ 6 * c.typecnt < 2 ^ 31
  charcnt : 0 ≤ c.charcnt ∧ c.charcnt < 2 ^ 31

theorem Counts.Small.fields {c : Counts} (h : c.Small) : ∀ x ∈ c.fields, -2 ^ 31 ≤ x ∧ x < 2 ^ 31 := by
  have h₁ := h.isutccnt
  have h₂ := h.isstdcnt
  have h₃ := h.leapcnt
  have h₄ := h.timecnt
  have h₅ := h.typecnt
  have h₆ := h.charcnt
  simp only [Counts.fields, List.forall_mem_cons, List.not_mem_nil, false_imp_iff, implies_true, and_true]
  omega

theorem Block.Valid.fields {b : Block} {size : Nat} (h : b.Valid size) :
    ∀ x ∈ b.counts.fields, -2 ^ 31 ≤ x ∧ x < 2 ^ 31 := by
  have hisstd := h.isstd
  have hisut := h.isut
  have hsmall := h.small
  simp only [Counts.fields, Block.counts, List.forall_mem_cons, List.not_mem_nil, false_imp_iff, implies_true, and_true]
  omega

/-! ## Reading it -/

theorem decodes_int32_bmod (x : Int) : Decodes File.readInt32 (intBytes 4 x) (x.bmod (2 ^ 32)) := by
  have hread : Decodes File.readInt32 (intBytes 4 x) (beInt (intBytes 4 x)) := (Decodes.take (length_intBytes 4 x)).map
  rwa [beInt_intBytes_bmod] at hread

theorem bmod_int32 {x : Int} (h : -2 ^ 31 ≤ x ∧ x < 2 ^ 31) : x.bmod (2 ^ 32) = x :=
  Int.bmod_eq_of_le_mul_two (by omega) (by omega)

theorem decodes_int32 {x : Int} (h : -2 ^ 31 ≤ x ∧ x < 2 ^ 31) : Decodes File.readInt32 (intBytes 4 x) x := by
  have hread := decodes_int32_bmod x
  rwa [bmod_int32 h] at hread

theorem decodes_int64 {x : Int} (h : -2 ^ 63 ≤ x ∧ x < 2 ^ 63) : Decodes File.readInt64 (intBytes 8 x) x := by
  have hread : Decodes File.readInt64 (intBytes 8 x) (beInt (intBytes 8 x)) := (Decodes.take (length_intBytes 8 x)).map
  rwa [beInt_intBytes (by omega) (by omega)] at hread

theorem decodes_uint8 {n : Nat} (h : n < 256) : Decodes File.readUInt8 [UInt8.ofNat n] n := by
  have hread : Decodes File.readUInt8 [UInt8.ofNat n] (beNat [UInt8.ofNat n]) := (Decodes.take rfl).map
  have hn : beNat [UInt8.ofNat n] = n := by
    have : (UInt8.ofNat n).toNat = n % 256 := UInt8.toNat_ofNat'
    simp only [beNat, List.foldl_cons, List.foldl_nil]
    omega
  rwa [hn] at hread

theorem decodes_bytes (bs : Bytes) : Decodes (File.readBytes none bs.length) bs bs := by
  rw [File.readBytes, if_neg (by simp), Int.toNat_natCast]
  exact Decodes.take rfl

theorem decodes_vector {α : Type} {r : Reader Fault α} {enc : α → Bytes} {as : List α} {n : Int} (hn : n = as.length)
    (h : ∀ a ∈ as, Decodes r (enc a) a) : Decodes (readVector n r) (as.flatMap enc) as := by
  rw [readVector, hn, if_neg (by omega), Int.toNat_natCast]
  exact Decodes.times h

theorem decodes_localTime {lt : LocalTime} (hoff : -2 ^ 31 ≤ lt.utcOffset ∧ lt.utcOffset < 2 ^ 31)
    (hidx : lt.desigIdx < 256) :
    Decodes readLocalTime lt.bytes lt := by
  obtain ⟨utcOffset, isDst, desigIdx⟩ := lt
  refine (decodes_int32 hoff).bind ?_
  cases isDst
  · exact (decodes_uint8 (n := 0) (by decide)).bind (decodes_uint8 hidx).map
  · exact (decodes_uint8 (n := 1) (by decide)).bind (decodes_uint8 hidx).map

/-- The counts as `int32_t`. -/
def Counts.wrap (c : Counts) : Counts where
  isutccnt := c.isutccnt.bmod (2 ^ 32)
  isstdcnt := c.isstdcnt.bmod (2 ^ 32)
  leapcnt := c.leapcnt.bmod (2 ^ 32)
  timecnt := c.timecnt.bmod (2 ^ 32)
  typecnt := c.typecnt.bmod (2 ^ 32)
  charcnt := c.charcnt.bmod (2 ^ 32)

theorem decodes_counts_wrap (c : Counts) : Decodes readCounts c.bytes c.wrap :=
  (decodes_int32_bmod _).bind <| (decodes_int32_bmod _).bind <| (decodes_int32_bmod _).bind <|
    (decodes_int32_bmod _).bind <| (decodes_int32_bmod _).bind (decodes_int32_bmod _).map

theorem decodes_counts {c : Counts} (h : ∀ x ∈ c.fields, -2 ^ 31 ≤ x ∧ x < 2 ^ 31) : Decodes readCounts c.bytes c := by
  simp only [Counts.fields, List.forall_mem_cons, List.not_mem_nil, false_imp_iff, implies_true, and_true] at h
  obtain ⟨h₁, h₂, h₃, h₄, h₅, h₆⟩ := h
  have hwrap : c.wrap = c := by
    rw [Counts.wrap, bmod_int32 h₁, bmod_int32 h₂, bmod_int32 h₃, bmod_int32 h₄, bmod_int32 h₅, bmod_int32 h₆]
  have hread := decodes_counts_wrap c
  rwa [hwrap] at hread

theorem decodes_head : Decodes (readHead none) (ascii "TZif") () := by
  have hread : Decodes (readHead none) (ascii "TZif" ++ []) () := (decodes_bytes (ascii "TZif")).bind (Decodes.pure ())
  rwa [List.append_nil] at hread

theorem addLocalTimes (types : List LocalTime) (d : Data) :
    types.foldl (fun data lt => data.addLocalTime lt.utcOffset lt.isDst lt.desigIdx) d =
      { d with localtimes := d.localtimes ++ types } := by
  induction types generalizing d with
  | nil => rw [List.foldl_nil, List.append_nil]
  | cons lt types ih =>
    rw [List.foldl_cons, ih, Data.addLocalTime]
    simp

namespace Block

variable {b : Block} {size : Nat} {v1 : Bool} {footer tzstring : Bytes}

theorem addTransitions {d : Data} (hd : d.localtimes = b.types) {ts : List (Int × Nat)}
    (hidx : ∀ t ∈ ts, t.2 < b.types.length)
    (hsum : ∀ t ∈ ts, -2 ^ 63 ≤ t.1 + b.offset t.2 ∧ t.1 + b.offset t.2 < 2 ^ 63) : d.addTransitions ts =
      .ok { d with transitions := d.transitions ++ ts.map fun t => ⟨t.1, t.1 + b.offset t.2, t.2⟩ } := by
  induction ts generalizing d with
  | nil =>
    rw [List.map_nil, List.append_nil]
    rfl
  | cons t ts ih =>
    obtain ⟨lt, hlt⟩ : ∃ lt, b.types[t.2]? = some lt := ⟨_, List.getElem?_eq_getElem (hidx t (.head ts))⟩
    have hoff : b.offset t.2 = lt.utcOffset := by
      rw [offset, hlt]
      rfl
    have hadd : d.addTransition t.1 t.2 =
        .ok { d with transitions := d.transitions ++ [⟨t.1, t.1 + b.offset t.2, t.2⟩] } := by
      simp only [Data.addTransition, hd, hlt]
      rw [← hoff, int64_of (hsum t (.head ts))]
      rfl
    rw [Data.addTransitions, List.foldlM_cons, hadd, ok_bind, ← Data.addTransitions,
      ih (by exact hd) (fun a ha => hidx a (.tail t ha)) fun a ha => hsum a (.tail t ha), List.append_assoc]
    rfl

theorem decodes_dataBlock (hb : b.Valid size) (hv1 : size = if v1 then 4 else 8)
    (hsum : ∀ t ∈ b.times, -2 ^ 63 ≤ t.1 + b.offset t.2 ∧ t.1 + b.offset t.2 < 2 ^ 63)
    (htail : DecodesAll (if v1 then pure [] else File.readToEnd) footer tzstring) :
    DecodesAll (readDataBlock none {} v1) (b.counts.bytes ++ (b.bytes size ++ footer)) (some (b.data tzstring)) := by
  have hisstd := hb.isstd
  have hisut := hb.isut
  have hzip : (b.times.map Prod.fst).zip (b.times.map Prod.snd) = b.times := by
    rw [← List.unzip_fst, ← List.unzip_snd, List.zip_unzip]
  refine (decodes_counts hb.fields).bind_all ?_
  dsimp only [counts]
  rw [if_neg (by omega), if_neg (by omega), if_neg (by omega), bytes]
  simp only [List.append_assoc]
  refine (decodes_vector (by rw [List.length_map]) ?_).bind_all ?_
  · intro x hx
    obtain ⟨t, ht, rfl⟩ := List.mem_map.1 hx
    have htime := hb.time t ht
    cases v1 with
    | false =>
      obtain rfl : size = 8 := hv1
      exact decodes_int64 (by omega)
    | true =>
      obtain rfl : size = 4 := hv1
      exact decodes_int32 (by omega)
  refine (decodes_vector (by rw [List.length_map]) ?_).bind_all ?_
  · intro i hi
    obtain ⟨t, ht, rfl⟩ := List.mem_map.1 hi
    exact decodes_uint8 (hb.idx t ht).2
  refine (decodes_vector rfl ?_).bind_all ?_
  · intro lt hlt
    exact decodes_localTime (hb.type lt hlt).1 (hb.type lt hlt).2
  rw [addLocalTimes, hzip]
  refine DecodesAll.lift_bind (addTransitions rfl (fun t ht => (hb.idx t ht).1) hsum) ?_
  refine (decodes_bytes b.designations).bind_all (DecodesAll.lift_bind (by rw [Int.zero_mul]; rfl) ?_)
  rw [← List.nil_append (b.isstd ++ _)]
  exact (Decodes.seek rfl).bind_all <| (Decodes.seek rfl).bind_all <| (Decodes.seek rfl).bind_all htail.map

theorem reads {file : Bytes} {data : Option Data} (h : DecodesAll (readFile none) file data) :
    readTimeZoneFile (some file) = .ok data := by
  obtain ⟨f, hf⟩ := h file 0 rfl
  simp only [readTimeZoneFile, hf]

theorem loads {file : Bytes} {data : Option Data} (h : readTimeZoneFile (some file) = .ok data) :
    loadZoneFile (some file) = .ok ⟨data⟩ := by
  rw [loadZoneFile, h, ok_bind]
  rfl

theorem skip_eq {c : Counts} (h : c.Small) : c.skip = .ok c.size := by
  have h₁ := h.isutccnt
  have h₂ := h.isstdcnt
  have h₃ := h.leapcnt
  have h₄ := h.timecnt
  have h₅ := h.typecnt
  have h₆ := h.charcnt
  have hsize : (c.size % 2 ^ 64).bmod (2 ^ 64) = c.size := by
    rw [Int.emod_eq_of_lt (by unfold Counts.size; omega) (by unfold Counts.size; omega)]
    exact Int.bmod_eq_of_le_mul_two (by unfold Counts.size; omega) (by unfold Counts.size; omega)
  rw [Counts.skip, int_of (x := 6 * c.typecnt) (by omega), ok_bind, int_of (x := 8 * c.leapcnt) (by omega), ok_bind]
  exact congrArg _ hsize

theorem reads_file2 {first : Counts} {skipped : Bytes} (hb : b.Valid 8) (hfirst : first.Small)
    (hskipped : skipped.length = first.size)
    (hsum : ∀ t ∈ b.times, -2 ^ 63 ≤ t.1 + b.offset t.2 ∧ t.1 + b.offset t.2 < 2 ^ 63) :
    readTimeZoneFile (some (b.file2 first skipped footer)) = .ok (some (b.data footer)) := by
  apply reads
  unfold file2 header
  simp only [List.append_assoc]
  have hversion : [chr '2'] = ascii "2" := rfl
  refine decodes_head.bind_all <| (decodes_bytes [chr '2']).bind_all <|
    (decodes_bytes (List.replicate 15 0)).bind_all ?_
  refine (decodes_counts hfirst.fields).bind_all ?_
  rw [if_pos hversion]
  refine DecodesAll.lift_bind (skip_eq hfirst) <| (Decodes.seek hskipped.symm).bind_all <| decodes_head.bind_all ?_
  rw [← List.append_assoc [chr '2']]
  exact (Decodes.seek rfl).bind_all (decodes_dataBlock hb rfl hsum DecodesAll.rest)

theorem Valid.sum (hb : b.Valid 4) : ∀ t ∈ b.times, -2 ^ 63 ≤ t.1 + b.offset t.2 ∧ t.1 + b.offset t.2 < 2 ^ 63 := by
  intro t ht
  have htime := hb.time t ht
  have hlt := List.getElem?_eq_getElem (hb.idx t ht).1
  have hoff := (hb.type _ (List.mem_of_getElem? hlt)).1
  rw [offset, hlt, Option.map_some, Option.getD_some]
  omega

/-- Of a file of another version than 2 the first block is read. -/
theorem readFile_first {version : Char} (hversion : [chr version] ≠ ascii "2") (first : Counts) (rest : Bytes) :
    readFile none ⟨header version first ++ rest, 0⟩ =
      readDataBlock none {} true ⟨header version first ++ rest, 20⟩ := by
  have hfile : header version first ++ rest =
      ascii "TZif" ++ ([chr version] ++ (List.replicate 15 0 ++ (first.bytes ++ rest))) := by
    simp only [header, List.append_assoc]
  have hv : Decodes (File.readBytes none 1) [chr version] [chr version] := decodes_bytes [chr version]
  have hr : Decodes (File.readBytes none 15) (List.replicate 15 0) (List.replicate 15 0) :=
    decodes_bytes (List.replicate 15 0)
  rw [hfile, readFile, decodes_head.bind_apply rfl, hv.bind_apply rfl, hr.bind_apply rfl]
  simp only [if_neg hversion]
  exact (decodes_counts_wrap first).rewind (by simp [Counts.bytes]) rfl

theorem reads_file1 (hb : b.Valid 4) : readTimeZoneFile (some b.file1) = .ok (some (b.data [])) := by
  have hblock : DecodesAll (readDataBlock none {} true) (b.counts.bytes ++ (b.bytes 4 ++ [])) (some (b.data [])) :=
    decodes_dataBlock hb rfl hb.sum (Decodes.pure []).all
  obtain ⟨f, hf⟩ := hblock b.file1 20 (by rw [List.append_nil]; rfl)
  rw [readTimeZoneFile, file1, readFile_first (by decide), ← file1, hf]

end Block

/-- What a file of either version lays out is what is loaded. -/
theorem zone_files_load (b : Block) :
    (∀ first skipped footer, b.Valid 8 → first.Small → (skipped.length : Int) = first.size →
      (∀ t ∈ b.times, -2 ^ 63 ≤ t.1 + b.offset t.2 ∧ t.1 + b.offset t.2 < 2 ^ 63) →
      loadZoneFile (some (b.file2 first skipped footer)) = .ok ⟨some (b.data footer)⟩) ∧
    (b.Valid 4 → loadZoneFile (some b.file1) = .ok ⟨some (b.data [])⟩) := by
  constructor
  · intro first skipped footer hb hfirst hskipped hsum
    exact Block.loads (Block.reads_file2 hb hfirst hskipped hsum)
  · exact fun hb => Block.loads (Block.reads_file1 hb)

def cest : Block where
  times := [(-1000, 0), (1000, 1)]
  types := [⟨3600, false, 0⟩, ⟨7200, true, 4⟩]
  designations := ascii "CET\x00CEST\x00"
  isstd := [0, 0]
  isut := []

theorem zone_files_load_cest :
    loadZoneFile (some (cest.file2 ⟨0, 0, 0, 0, 1, 4⟩ [0, 0, 0, 0, 0, 0, 85, 84, 67, 0] (ascii "\nCET-1CEST\n"))) =
      .ok ⟨some (cest.data (ascii "\nCET-1CEST\n"))⟩ ∧ loadZoneFile (some cest.file1) = .ok ⟨some (cest.data [])⟩ := by
  obtain ⟨h₂, h₁⟩ := zone_files_load cest
  constructor
  · apply h₂
    · exact ⟨by decide, by decide, by decide, by decide, by decide, by decide, by decide⟩
    · exact ⟨by decide, by decide, by decide, by decide, by decide, by decide⟩
    · decide
    · decide
  · exact h₁ ⟨by decide, by decide, by decide, by decide, by decide, by decide, by decide⟩

/-- A transition at the last second of `int64_t`, east of UTC. -/
def lastTime : Block where
  times := [(2 ^ 63 - 1, 0)]
  types := [⟨1, false, 0⟩]
  designations := []
  isstd := []
  isut := []

theorem last_time_overflows :
    lastTime.Valid 8 ∧ (⟨0, 0, 0, 0, 0, 0⟩ : Counts).Small ∧ (⟨0, 0, 0, 0, 0, 0⟩ : Counts).size = 0 ∧
    loadZoneFile (some (lastTime.file2 ⟨0, 0, 0, 0, 0, 0⟩ [] [])) = .error .overflow := by
  refine ⟨⟨by decide, by decide, by decide, by decide, by decide, by decide, by decide⟩,
    ⟨by decide, by decide, by decide, by decide, by decide, by decide⟩, by decide, by decide +kernel⟩

end Zhengqi.TimeZone
