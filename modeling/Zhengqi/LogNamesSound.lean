import Zhengqi.LogFileSound
import Mathlib.Data.List.Nodup

/-!
# Log files in the order of their names

The name of a log file holds the second at which it was opened, in fields of one width. Until the year 9999 the names
are in the order of the seconds, and the files in the order of their names hold the log (`log_read_back_by_name`).
-/

namespace Zhengqi

open Run

/-! ## Fields -/

def digit (d : Nat) : Byte := chr d.digitChar

theorem digit_lt : ∀ a b, a < b → b < 10 → digit a < digit b := by
  intro a b hab hb
  have hall : ∀ b < 10, ∀ a < b, digit a < digit b := by decide
  exact hall b hb a hab

theorem decimal_of_lt {n : Nat} (h : n < 10) : decimal n = [digit n] := by
  rw [decimal, Nat.toDigits_of_lt_base h]
  rfl

theorem decimal_of_ge {n : Nat} (h : 10 ≤ n) : decimal n = decimal (n / 10) ++ [digit (n % 10)] := by
  rw [decimal, Nat.toDigits_eq_if (by decide), if_neg (by omega), List.map_append]
  rfl

theorem zeroPadded_natCast (w n : Nat) :
    zeroPadded w n = List.replicate (w - (decimal n).length) (digit 0) ++ decimal n := by
  have hn : ¬ (n : Int) < 0 := by omega
  rw [zeroPadded, signed, if_neg hn, List.nil_append, List.nil_append]
  rfl

theorem zeroPadded_eq_field {w n : Nat} (hw : 0 < w) (hn : n < 10 ^ w) :
    zeroPadded w n = Numeral.field 10 digit w n := by
  induction w generalizing n with
  | zero => omega
  | succ w ih =>
    rw [Numeral.field]
    rcases Nat.eq_zero_or_pos w with rfl | hpos
    · have hlt : n < 10 := by omega
      rw [zeroPadded_natCast, decimal_of_lt hlt, Nat.mod_eq_of_lt hlt]
      rfl
    · have hdiv : n / 10 < 10 ^ w := Nat.div_lt_of_lt_mul (by rw [Nat.mul_comm, ← Nat.pow_succ]; exact hn)
      rw [← ih hpos hdiv, zeroPadded_natCast, zeroPadded_natCast]
      rcases Nat.lt_or_ge n 10 with hlt | hge
      · rw [Nat.div_eq_of_lt hlt, Nat.mod_eq_of_lt hlt, decimal_of_lt hlt, decimal_of_lt (by decide : 0 < 10),
          ← List.replicate_succ']
        simp only [List.length_singleton]
        rw [Nat.add_sub_cancel, Nat.sub_add_cancel hpos]
      · rw [decimal_of_ge hge, List.length_append, List.length_singleton, Nat.add_sub_add_right, List.append_assoc]

/-- A field comes before another one, or what follows does. -/
theorem zeroPadded_append_lt {w : Nat} {u v : Int} {s t : Bytes} (hw : 0 < w) (hu : 0 ≤ u)
    (hv₀ : 0 ≤ v) (hv : v < 10 ^ w) (h : u < v ∨ u = v ∧ s < t) : zeroPadded w u ++ s < zeroPadded w v ++ t := by
  obtain ⟨m, rfl⟩ := Int.eq_ofNat_of_zero_le hu
  obtain ⟨n, rfl⟩ := Int.eq_ofNat_of_zero_le hv₀
  have hn : n < 10 ^ w := by exact_mod_cast hv
  rcases h with hlt | ⟨heq, hst⟩
  · have hmn : m < n := by omega
    rw [zeroPadded_eq_field hw (Nat.lt_trans hmn hn), zeroPadded_eq_field hw hn]
    apply Numeral.append_lt_append
    · rw [Numeral.length_field, Numeral.length_field]
    · exact Numeral.field_lt digit_lt hmn hn
  · rw [heq]
    exact List.append_left_lt hst

/-! ## Names -/

/-- The first second of the year 10000. -/
def kYear10000 : Int := 253402300800

section
variable {a b : Int}

theorem gmtime_fields_lt (h : a < b) : (gmtime a).fields < (gmtime b).fields := by
  obtain ⟨ha, ha₀, ha₁⟩ := ofDays_seconds (t := a)
  obtain ⟨hb, hb₀, hb₁⟩ := ofDays_seconds (t := b)
  apply DateTime.fields_ofDays_lt ha₀ ha₁ hb₀ hb₁
  rw [← ha, ← hb]
  exact h

theorem gmtime_valid (now : Int) : (gmtime now).Valid := by
  obtain ⟨-, h₀, h₁⟩ := ofDays_seconds (t := now)
  exact DateTime.ofDays_valid (now / kSecondsPerDay) h₀ h₁

theorem gmtime_year (h₀ : 0 < a) (h₁ : a < kYear10000) : 1970 ≤ (gmtime a).year ∧ (gmtime a).year < 10000 := by
  have hlo := gmtime_fields_lt h₀
  have hhi := gmtime_fields_lt h₁
  obtain ⟨⟨hm, -, hd, -⟩, ⟨hh, -⟩, ⟨hmin, -⟩, ⟨hs, -⟩⟩ := gmtime_valid a
  rw [show (gmtime 0).fields = [1970, 1, 1, 0, 0, 0] by decide] at hlo
  rw [show (gmtime kYear10000).fields = [10000, 1, 1, 0, 0, 0] by decide] at hhi
  simp only [DateTime.fields, List.cons_lt_cons_iff, List.not_lt_nil, and_false, or_false] at hlo hhi
  simp only [DateTime.date] at hm hd
  omega

theorem signed_eq_zeroPadded {v : Int} (h : 1000 ≤ v) : signed v = zeroPadded 4 v := by
  obtain ⟨n, rfl⟩ := Int.eq_ofNat_of_zero_le (Int.le_trans (by decide) h)
  have hlen : 4 ≤ (decimal n).length := by
    by_contra hlt
    have hle : (Nat.toDigits 10 n).length ≤ 3 := by
      rw [decimal, List.length_map] at hlt
      omega
    have := (Nat.length_toDigits_le_iff (by decide) (by decide)).1 hle
    omega
  rw [zeroPadded_natCast, Nat.sub_eq_zero_of_le hlen, signed, if_neg (by omega)]
  rfl

/-- The fields of the time are compared one after the other. -/
theorem timebuf_append_lt (hab : a < b) (ha : 0 < a) (hb : b < kYear10000) (s t : Bytes) :
    timebuf a ++ s < timebuf b ++ t := by
  have hya := gmtime_year ha (Int.lt_trans hab hb)
  have hyb := gmtime_year (Int.lt_trans ha hab) hb
  have hva := gmtime_valid a
  have hvb := gmtime_valid b
  have hfields := gmtime_fields_lt hab
  have hday := Calendar.monthLength_le (gmtime b).year (gmtime b).month
  obtain ⟨⟨hma, -, hda, -⟩, hha, hmina, hsa⟩ := hva
  obtain ⟨⟨hmb, hmb', hdb, hdb'⟩, hhb, hminb, hsb⟩ := hvb
  simp only [DateTime.date] at hma hda hmb hmb' hdb hdb'
  simp only [DateTime.fields, List.cons_lt_cons_iff, List.not_lt_nil, and_false, or_false] at hfields
  simp only [timebuf, List.append_assoc]
  rw [signed_eq_zeroPadded (by omega), signed_eq_zeroPadded (by omega)]
  apply List.append_left_lt
  refine zeroPadded_append_lt (by decide) (by omega) (by omega) (by omega) (hfields.imp_right fun h => ⟨h.1, ?_⟩)
  refine zeroPadded_append_lt (by decide) (by omega) (by omega) (by omega) (h.2.imp_right fun h => ⟨h.1, ?_⟩)
  refine zeroPadded_append_lt (by decide) (by omega) (by omega) (by omega)
    (h.2.imp_right fun h => ⟨h.1, List.append_left_lt ?_⟩)
  refine zeroPadded_append_lt (by decide) (by omega) (by omega) (by omega) (h.2.imp_right fun h => ⟨h.1, ?_⟩)
  refine zeroPadded_append_lt (by decide) (by omega) (by omega) (by omega) (h.2.imp_right fun h => ⟨h.1, ?_⟩)
  exact zeroPadded_append_lt (by decide) (by omega) (by omega) (by omega) (.inl h.2)

theorem LogFileConfig.getLogFileName_lt (cfg : LogFileConfig) (hab : a < b) (ha : 0 < a) (hb : b < kYear10000) :
    cfg.getLogFileName a < cfg.getLogFileName b := by
  simp only [getLogFileName, List.append_assoc]
  exact List.append_left_lt (timebuf_append_lt hab ha hb _ _)

end

/-! ## Runs -/

namespace LogFile

section
variable {cfg : LogFileConfig} {clock : Nat → Int} {ls : List Bytes} {s : LogFile} {f : AppendFile}

/-- The files were opened at seconds that the fields can show. -/
def Dated (cfg : LogFileConfig) (ls : List Bytes) (s : LogFile) (f : AppendFile) : Prop :=
  ∃ seconds, Rolled cfg ls s f seconds ∧ ∀ t ∈ seconds ++ [s.lastRoll], 0 < t ∧ t < kYear10000

theorem Dated.keeps {s' : LogFile} (h : Dated cfg ls s f) (hfile : s'.file = s.file) (hclosed : s'.closed = s.closed)
    (hroll : s'.lastRoll = s.lastRoll) (hperiod : s'.startOfPeriod = s.startOfPeriod) : Dated cfg ls s' f := by
  obtain ⟨seconds, hr, ht⟩ := h
  exact ⟨seconds, hr.keeps hfile hclosed hroll hperiod, by rw [hroll]; exact ht⟩

theorem Dated.rollFile (hclock : ∀ k, 0 < clock k ∧ clock k < kYear10000) (h : Dated cfg ls s f) :
    ∃ f', Dated cfg ls (rollFile cfg clock s).2 f' := by
  obtain ⟨seconds, hr, ht⟩ := h
  rcases rollFile_cases cfg clock hr.file with ⟨hlt, ho, hp⟩ | ⟨-, heq⟩
  · refine ⟨_, seconds ++ [s.lastRoll], hr.opens hlt ho hp, fun t hm => ?_⟩
    rw [ho.lastRoll] at hm
    rcases List.mem_append.mp hm with hm | hm
    · exact ht t hm
    · rw [List.mem_singleton.mp hm]
      exact hclock s.ticks
  · rw [heq]
    exact ⟨f, Dated.keeps ⟨seconds, hr, ht⟩ rfl rfl rfl rfl⟩

theorem Dated.append (hclock : ∀ k, 0 < clock k ∧ clock k < kYear10000) (h : Dated cfg ls s f) (logline : Bytes) :
    ∃ s', append cfg clock s logline = .ok s' ∧ ∃ f', Dated cfg (ls ++ [logline]) s' f' := by
  obtain ⟨seconds, hr, ht⟩ := h
  have hw : Dated cfg (ls ++ [logline]) { s with file := some (f.append logline) } (f.append logline) :=
    ⟨seconds, hr.write logline, ht⟩
  unfold LogFile.append
  rw [hr.file]
  dsimp only
  split
  · exact ⟨_, rfl, hw.rollFile hclock⟩
  split
  · refine ⟨_, rfl, ?_⟩
    unfold LogFile.checkPeriod
    dsimp only
    split
    · exact Dated.rollFile hclock (hw.keeps rfl rfl rfl rfl)
    split <;> exact ⟨_, hw.keeps rfl rfl rfl rfl⟩
  · exact ⟨_, rfl, _, hw.keeps rfl rfl rfl rfl⟩

theorem Dated.run (hclock : ∀ k, 0 < clock k ∧ clock k < kYear10000) (ms : List Bytes) (h : Dated cfg ls s f) :
    ∃ s' f', Run.run (LogFile.append cfg clock) s ms = .ok s' ∧ Dated cfg (ls ++ ms) s' f' := by
  induction ms generalizing ls s f with
  | nil => exact ⟨s, f, rfl, by rw [List.append_nil]; exact h⟩
  | cons m ms ih =>
    obtain ⟨u, hu, g, hg⟩ := h.append hclock m
    obtain ⟨s', f', hs', hf'⟩ := ih hg
    rw [List.append_assoc] at hf'
    exact ⟨s', f', (run_cons_ok _).mpr ⟨u, hu, hs'⟩, hf'⟩

theorem Dated.names (h : Dated cfg ls s f) : ((s.closed ++ [f]).map AppendFile.filename).Pairwise (· < ·) := by
  obtain ⟨seconds, hr, ht⟩ := h
  rw [hr.names, List.pairwise_map]
  exact hr.increasing.imp_of_mem fun ha hb hab => cfg.getLogFileName_lt hab (ht _ ha).1 (ht _ hb).2

end

/-- Whatever the clock shows after the epoch and before the year 10000: the files, in the order of their names, hold
the lines in the order in which they were appended. -/
theorem log_read_back_by_name (cfg : LogFileConfig) (clock : Nat → Int)
    (hclock : ∀ k, 0 < clock k ∧ clock k < kYear10000)
    (ls : List Bytes) : ∃ s f, run (append cfg clock) (ctor cfg clock) ls = .ok s ∧ s.file = some f ∧
      ∀ files : List AppendFile, files.Perm (s.closed ++ [f]) → (files.map AppendFile.filename).Pairwise (· ≤ ·) →
        files.flatMap AppendFile.written = ls := by
  have hstart : Dated cfg [] (ctor cfg clock) { filename := cfg.getLogFileName (clock 0) } := by
    refine ⟨[], Rolled.ctor cfg (hclock 0).1, fun t ht => ?_⟩
    have hroll : (ctor cfg clock).lastRoll = clock 0 := by
      simp only [ctor, rollFile, if_pos (hclock 0).1]
    rw [List.nil_append, hroll] at ht
    rw [List.mem_singleton.mp ht]
    exact hclock 0
  obtain ⟨s, f, hs, h⟩ := hstart.run hclock ls
  have hnames := h.names
  obtain ⟨seconds, hr, -⟩ := h
  refine ⟨s, f, hs, hr.file, fun files hp hsorted => ?_⟩
  have heq : files = s.closed ++ [f] := by
    have hsorted' : (s.closed ++ [f]).Pairwise fun a b => a.filename ≤ b.filename :=
      (List.pairwise_map.mp hnames).imp fun h => List.le_of_lt h
    refine List.Perm.eq_of_pairwise (fun a b ha hb hab hba => ?_) (List.pairwise_map.mp hsorted) hsorted' hp
    exact List.inj_on_of_nodup_map hr.names_nodup (hp.mem_iff.mp ha) hb (List.le_antisymm hab hba)
  rw [heq]
  exact hr.lines

/-- The clock shows the next day three times, and then it stands still. -/
theorem log_read_back_by_name_days : ∃ s f,
    run (append serverLog fun k => dailyClock (min k 3)) (ctor serverLog fun k => dailyClock (min k 3))
    [ascii "a", ascii "b", ascii "c"] =
      .ok s ∧ s.file = some f ∧ ∀ files : List AppendFile, files.Perm (s.closed ++ [f]) →
        (files.map AppendFile.filename).Pairwise (· ≤ ·) →
          files.flatMap AppendFile.written = [ascii "a", ascii "b", ascii "c"] := by
  refine log_read_back_by_name serverLog (fun k => dailyClock (min k 3)) (fun k => ?_) _
  unfold dailyClock kRollPerSeconds kYear10000
  omega

end LogFile

end Zhengqi
