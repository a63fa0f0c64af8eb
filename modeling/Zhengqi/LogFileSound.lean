import Zhengqi.LogFile
import Zhengqi.NumeralSound

/-!
# Rolling of log files

Whatever the clock shows, every line is in one file, the files are named after seconds that increase,
and the size and the day start new files as soon as the clock is past the last one.
-/

namespace Zhengqi

open Run

/-! ## Names -/

theorem signed_inj {v w : Int} (h : signed v = signed w) : v = w := by
  have hv := (isNumeral_signed v).reads
  have hw := (isNumeral_signed w).reads
  rw [h, hw] at hv
  exact (Option.some.inj hv).symm

/-- What `%02d` writes for a field of two digits. -/
structure TwoDigits (v : Int) : Prop where
  length : (zeroPadded 2 v).length = 2
  reads : readNumeral 10 (zeroPadded 2 v) = some v

theorem twoDigits {v : Int} (h₀ : 0 ≤ v) (h₁ : v < 100) : TwoDigits v := by
  have hall : ∀ n < 100, (zeroPadded 2 (n : Nat)).length = 2 ∧ readNumeral 10 (zeroPadded 2 (n : Nat)) =
      some (n : Int) := by
    decide +kernel
  obtain ⟨n, rfl⟩ := Int.eq_ofNat_of_zero_le h₀
  obtain ⟨hlen, hread⟩ := hall n (by omega)
  exact ⟨hlen, hread⟩

theorem TwoDigits.append_inj {v w : Int} {s t : Bytes} (hv : TwoDigits v) (hw : TwoDigits w)
    (h : zeroPadded 2 v ++ s = zeroPadded 2 w ++ t) : v = w ∧ s = t := by
  obtain ⟨heq, hrest⟩ := List.append_inj h (hv.length.trans hw.length.symm)
  have hread := hv.reads
  rw [heq, hw.reads] at hread
  exact ⟨(Option.some.inj hread).symm, hrest⟩

/-- The fields of a broken-down time that `strftime` writes with two digits. -/
structure DateTime.Printable (tm : DateTime) : Prop where
  month : TwoDigits tm.month
  day : TwoDigits tm.day
  hour : TwoDigits tm.hour
  minute : TwoDigits tm.minute
  second : TwoDigits tm.second

theorem gmtime_printable (now : Int) : (gmtime now).Printable := by
  obtain ⟨-, h₀, h₁⟩ := ofDays_seconds (t := now)
  obtain ⟨⟨hm₀, hm₁, hd₀, hd₁⟩, hh, hmin, hs⟩ := DateTime.ofDays_valid (now / kSecondsPerDay) h₀ h₁
  have hd := Calendar.monthLength_le (gmtime now).year (gmtime now).month
  refine ⟨twoDigits ?_ ?_, twoDigits ?_ ?_, twoDigits ?_ ?_, twoDigits ?_ ?_, twoDigits ?_ ?_⟩
  · exact Int.le_trans (by decide) hm₀
  · exact Int.lt_of_le_of_lt hm₁ (by decide)
  · exact Int.le_trans (by decide) hd₀
  · exact Int.lt_of_le_of_lt (Int.le_trans hd₁ hd) (by decide)
  · exact hh.1
  · exact Int.lt_trans hh.2 (by decide)
  · exact hmin.1
  · exact Int.lt_trans hmin.2 (by decide)
  · exact hs.1
  · exact Int.lt_trans hs.2 (by decide)

theorem gmtime_inj {a b : Int} (h : gmtime a = gmtime b) : a = b := by
  have hdays := congrArg DateTime.days h
  have hseconds := congrArg DateTime.secondsInDay h
  rw [gmtime, gmtime, DateTime.days_ofDays, DateTime.days_ofDays] at hdays
  rw [gmtime, gmtime, DateTime.secondsInDay_ofDays, DateTime.secondsInDay_ofDays] at hseconds
  rw [(ofDays_seconds (t := a)).1, (ofDays_seconds (t := b)).1, hdays, hseconds]

theorem timebuf_inj {a b : Int} {s t : Bytes} (hlen : s.length = t.length) (h : timebuf a ++ s = timebuf b ++ t) :
    a = b := by
  have ha := gmtime_printable a
  have hb := gmtime_printable b
  simp only [timebuf, List.append_assoc] at h
  -- the year is the only field whose length varies
  obtain ⟨hyear, h⟩ := List.append_inj' (List.append_cancel_left h) (by
    simp [ha.month.length, ha.day.length, ha.hour.length, ha.minute.length, ha.second.length, hb.month.length,
      hb.day.length, hb.hour.length, hb.minute.length, hb.second.length, hlen])
  obtain ⟨hmonth, h⟩ := ha.month.append_inj hb.month h
  obtain ⟨hday, h⟩ := ha.day.append_inj hb.day h
  obtain ⟨hhour, h⟩ := ha.hour.append_inj hb.hour (List.append_cancel_left h)
  obtain ⟨hminute, h⟩ := ha.minute.append_inj hb.minute h
  obtain ⟨hsecond, -⟩ := ha.second.append_inj hb.second h
  apply gmtime_inj
  rw [DateTime.mk.injEq]
  exact ⟨signed_inj hyear, hmonth, hday, hhour, hminute, hsecond⟩

theorem LogFileConfig.getLogFileName_inj (cfg : LogFileConfig) {a b : Int}
    (h : cfg.getLogFileName a = cfg.getLogFileName b) : a = b := by
  simp only [getLogFileName, List.append_assoc] at h
  exact timebuf_inj rfl (List.append_cancel_left h)

/-! ## Runs -/

namespace LogFile

def day (t : Int) : Int := t / kRollPerSeconds

theorem start_eq {t : Int} (ht : 0 < t) : t.tdiv kRollPerSeconds * kRollPerSeconds = day t * kRollPerSeconds := by
  rw [Int.tdiv_eq_ediv_of_nonneg (Int.le_of_lt ht), day]

/-- A state after the lines `ls`, whose files before `f` were opened at `seconds`. -/
structure Rolled (cfg : LogFileConfig) (ls : List Bytes) (s : LogFile) (f : AppendFile) (seconds : List Int) :
    Prop where
  file : s.file = some f
  lines : (s.closed ++ [f]).flatMap AppendFile.written = ls
  sizes : ∀ g ∈ s.closed ++ [f], g.writtenBytes = g.written.flatten.length
  names : (s.closed ++ [f]).map AppendFile.filename = (seconds ++ [s.lastRoll]).map cfg.getLogFileName
  increasing : (seconds ++ [s.lastRoll]).Pairwise (· < ·)
  positive : 0 < s.lastRoll
  period : s.startOfPeriod = day s.lastRoll * kRollPerSeconds

/-- The file is closed, and a new one is named after the second `now`. -/
structure Opens (cfg : LogFileConfig) (s : LogFile) (f : AppendFile) (now : Int) (s' : LogFile) : Prop where
  closed : s'.closed = s.closed ++ [f]
  file : s'.file = some { filename := cfg.getLogFileName now }
  lastRoll : s'.lastRoll = now

section
variable {cfg : LogFileConfig} {clock : Nat → Int} {ls : List Bytes} {s : LogFile} {f : AppendFile} {seconds : List Int}

theorem Rolled.names_nodup (h : Rolled cfg ls s f seconds) : ((s.closed ++ [f]).map AppendFile.filename).Nodup := by
  rw [h.names]
  refine List.pairwise_map.2 (h.increasing.imp fun hlt heq => ?_)
  exact Int.ne_of_lt hlt (cfg.getLogFileName_inj heq)

theorem Rolled.keeps {s' : LogFile} (h : Rolled cfg ls s f seconds) (hfile : s'.file = s.file)
    (hclosed : s'.closed = s.closed)
    (hroll : s'.lastRoll = s.lastRoll) (hperiod : s'.startOfPeriod = s.startOfPeriod) : Rolled cfg ls s' f seconds := by
  obtain ⟨h₁, h₂, h₃, h₄, h₅, h₆, h₇⟩ := h
  constructor <;> simp only [hfile, hclosed, hroll, hperiod] <;> assumption

theorem Rolled.write (h : Rolled cfg ls s f seconds) (logline : Bytes) :
    Rolled cfg (ls ++ [logline]) { s with file := some (f.append logline) } (f.append logline) seconds := by
  have hlines := h.lines
  have hnames := h.names
  have hsizes := h.sizes
  rw [List.flatMap_append, List.flatMap_singleton] at hlines
  rw [List.map_append, List.map_singleton] at hnames
  refine ⟨rfl, ?_, ?_, ?_, h.increasing, h.positive, h.period⟩
  · rw [List.flatMap_append, List.flatMap_singleton, ← hlines, List.append_assoc]
    rfl
  · intro g hg
    rcases List.mem_append.1 hg with hg | hg
    · exact hsizes g (List.mem_append_left _ hg)
    · rw [List.mem_singleton.1 hg]
      have hf := hsizes f (List.mem_append_right _ (List.mem_singleton_self f))
      simp only [AppendFile.append]
      rw [hf, List.flatten_append, List.length_append, List.flatten_singleton]
  · rw [List.map_append, List.map_singleton]
    exact hnames

theorem rollFile_cases (cfg : LogFileConfig) (clock : Nat → Int) (hf : s.file = some f) :
    (s.lastRoll < clock s.ticks ∧ Opens cfg s f (clock s.ticks) (rollFile cfg clock s).2 ∧
      (rollFile cfg clock s).2.startOfPeriod = (clock s.ticks).tdiv kRollPerSeconds * kRollPerSeconds) ∨
    (clock s.ticks ≤ s.lastRoll ∧ (rollFile cfg clock s).2 = { s with ticks := s.ticks + 1 }) := by
  by_cases hlt : s.lastRoll < clock s.ticks
  · refine .inl ⟨hlt, ?_, ?_⟩
    · simp only [rollFile, if_pos hlt]
      exact ⟨by rw [hf]; rfl, rfl, rfl⟩
    · simp only [rollFile, if_pos hlt]
  · refine .inr ⟨Int.not_lt.1 hlt, ?_⟩
    simp only [rollFile, if_neg hlt]

theorem count_rollFile (cfg : LogFileConfig) (clock : Nat → Int) (s : LogFile) :
    (rollFile cfg clock s).2.count = s.count := by
  simp only [rollFile]
  split <;> rfl

theorem Rolled.opens {s' : LogFile} {now : Int} (h : Rolled cfg ls s f seconds) (hlt : s.lastRoll < now)
    (ho : Opens cfg s f now s') (hp : s'.startOfPeriod = now.tdiv kRollPerSeconds * kRollPerSeconds) :
    Rolled cfg ls s' { filename := cfg.getLogFileName now } (seconds ++ [s.lastRoll]) := by
  have hpos := Int.lt_trans h.positive hlt
  refine ⟨ho.file, ?_, ?_, ?_, ?_, ?_, ?_⟩
  · rw [ho.closed, List.flatMap_append, h.lines, List.flatMap_singleton, List.append_nil]
  · intro g hg
    rw [ho.closed] at hg
    rcases List.mem_append.1 hg with hg | hg
    · exact h.sizes g hg
    · rw [List.mem_singleton.1 hg]
      rfl
  · have hsplit : (seconds ++ [s.lastRoll] ++ [now]).map cfg.getLogFileName =
        (seconds ++ [s.lastRoll]).map cfg.getLogFileName ++ [cfg.getLogFileName now] := List.map_append
    rw [ho.closed, ho.lastRoll, List.map_append, h.names, hsplit]
    rfl
  · rw [ho.lastRoll]
    refine List.pairwise_append.2 ⟨h.increasing, List.pairwise_singleton .., ?_⟩
    intro a ha b hb
    rw [List.mem_singleton.1 hb]
    rcases List.mem_append.1 ha with ha | ha
    · have hless := (List.pairwise_append.1 h.increasing).2.2 a ha s.lastRoll (List.mem_singleton_self _)
      exact Int.lt_trans hless hlt
    · rw [List.mem_singleton.1 ha]
      exact hlt
  · rw [ho.lastRoll]
    exact hpos
  · rw [hp, ho.lastRoll, start_eq hpos]

theorem Rolled.rollFile (clock : Nat → Int) (h : Rolled cfg ls s f seconds) :
    ∃ f' seconds', Rolled cfg ls (rollFile cfg clock s).2 f' seconds' := by
  rcases rollFile_cases cfg clock h.file with ⟨hlt, ho, hp⟩ | ⟨-, heq⟩
  · exact ⟨_, _, h.opens hlt ho hp⟩
  · rw [heq]
    exact ⟨f, seconds, h.keeps rfl rfl rfl rfl⟩

theorem Rolled.checkPeriod (clock : Nat → Int) (h : Rolled cfg ls s f seconds) :
    ∃ f' seconds', Rolled cfg ls (checkPeriod cfg clock s) f' seconds' := by
  have htick : Rolled cfg ls { s with ticks := s.ticks + 1 } f seconds := h.keeps rfl rfl rfl rfl
  simp only [LogFile.checkPeriod]
  split
  · exact htick.rollFile clock
  · split <;> exact ⟨f, seconds, h.keeps rfl rfl rfl rfl⟩

theorem count_checkPeriod (cfg : LogFileConfig) (clock : Nat → Int) (s : LogFile) :
    (LogFile.checkPeriod cfg clock s).count = s.count := by
  simp only [LogFile.checkPeriod]
  split
  · rw [count_rollFile]
  · split <;> rfl

/-- The counter goes around with the appends that leave the size. -/
theorem count_step {N count n : Int} (h : count = n % max N 1) :
    (N ≤ count + 1 ↔ max N 1 ∣ n + 1) ∧ (if N ≤ count + 1 then 0 else count + 1) = (n + 1) % max N 1 := by
  have hmod : (n + 1) % max N 1 = (count + 1) % max N 1 := by
    rw [h, Int.emod_add_emod]
  have h₀ : 0 ≤ count := h ▸ Int.emod_nonneg n (by omega)
  have h₁ : count < max N 1 := h ▸ Int.emod_lt_of_pos n (by omega)
  rw [Int.dvd_iff_emod_eq_zero, hmod]
  by_cases hN : N ≤ count + 1
  · have hfull : count + 1 = max N 1 := by omega
    rw [if_pos hN, hfull, Int.emod_self]
    exact ⟨⟨fun _ => rfl, fun _ => by omega⟩, rfl⟩
  · have hless : (count + 1) % max N 1 = count + 1 := Int.emod_eq_of_lt (by omega) (by omega)
    rw [if_neg hN, hless]
    exact ⟨⟨fun h => absurd h hN, by omega⟩, rfl⟩

/-- What an append of `logline` to the file `f` does, `n` appends after the first that left the size. -/
structure Appended (cfg : LogFileConfig) (clock : Nat → Int) (n : Nat) (s : LogFile) (f : AppendFile) (logline : Bytes)
    (s' : LogFile) : Prop where
  size : cfg.rollSize < (f.append logline).writtenBytes → s.lastRoll < clock s.ticks →
    Opens cfg s (f.append logline) (clock s.ticks) s'
  above : ∀ g, s'.file = some g → cfg.rollSize < g.writtenBytes → g.written ≠ [] ∨ 0 ≤ cfg.rollSize →
    clock s.ticks ≤ s.lastRoll
  period : (f.append logline).writtenBytes ≤ cfg.rollSize → max cfg.checkEveryN 1 ∣ (n : Int) + 1 →
    day (clock s.ticks) ≠ day s.lastRoll → s.lastRoll < clock (s.ticks + 1) →
      Opens cfg s (f.append logline) (clock (s.ticks + 1)) s'

/-- A file that was just opened holds no line, and is not above a size that is not negative. -/
theorem Opens.not_above {s' : LogFile} {now : Int} {g : AppendFile} (ho : Opens cfg s f now s') (hg : s'.file = some g)
    (habove : cfg.rollSize < g.writtenBytes) : ¬ (g.written ≠ [] ∨ 0 ≤ cfg.rollSize) := by
  rw [ho.file] at hg
  cases hg
  rintro (h | h)
  · exact h rfl
  · exact absurd habove (Int.not_lt.2 h)

theorem Rolled.start_ne_iff {t : Int} (h : Rolled cfg ls s f seconds) (ht : 0 < t) :
    t.tdiv kRollPerSeconds * kRollPerSeconds ≠ s.startOfPeriod ↔ day t ≠ day s.lastRoll := by
  rw [start_eq ht, h.period]
  exact not_congr (Int.mul_eq_mul_right_iff (by decide))

/-- A check of the period opens a file, or leaves the one there is. -/
theorem Rolled.checkPeriod_cases (h : Rolled cfg ls s f seconds) (hclock : ∀ k, 0 < clock k) :
    Opens cfg s f (clock (s.ticks + 1)) (LogFile.checkPeriod cfg clock s) ∨
    ((LogFile.checkPeriod cfg clock s).file = some f ∧
      (day (clock s.ticks) ≠ day s.lastRoll → clock (s.ticks + 1) ≤ s.lastRoll)) := by
  have hstart := h.start_ne_iff (hclock s.ticks)
  have htick : ({ s with ticks := s.ticks + 1 } : LogFile).file = some f := h.file
  simp only [LogFile.checkPeriod]
  by_cases hday : day (clock s.ticks) = day s.lastRoll
  · rw [if_neg fun hne => hstart.1 hne hday]
    refine .inr ⟨?_, fun hne => absurd hday hne⟩
    split <;> exact h.file
  · rw [if_pos (hstart.2 hday)]
    rcases rollFile_cases cfg clock htick with ⟨-, ho, -⟩ | ⟨hle, heq⟩
    · exact .inl ⟨ho.closed, ho.file, ho.lastRoll⟩
    · rw [heq]
      exact .inr ⟨h.file, fun _ => hle⟩

theorem append_above {logline : Bytes} (hf : s.file = some f) (h : cfg.rollSize < (f.append logline).writtenBytes) :
    append cfg clock s logline = .ok (LogFile.rollFile cfg clock { s with file := some (f.append logline) }).2 := by
  simp only [append, hf]
  rw [if_pos h]
  rfl

theorem append_within {logline : Bytes} (hf : s.file = some f) (h : (f.append logline).writtenBytes ≤ cfg.rollSize) :
    append cfg clock s logline =
      .ok (if cfg.checkEveryN ≤ s.count + 1 then
        LogFile.checkPeriod cfg clock { s with count := 0, file := some (f.append logline) }
      else { s with count := s.count + 1, file := some (f.append logline) }) := by
  simp only [append, hf]
  rw [if_neg (Int.not_lt.2 h)]
  split <;> rfl

/-- Whether an append leaves the size. -/
def within (cfg : LogFileConfig) (s : LogFile) (logline : Bytes) : Bool :=
  s.file.all fun f => (f.append logline).writtenBytes ≤ cfg.rollSize

theorem within_iff {logline : Bytes} (hf : s.file = some f) :
    within cfg s logline = true ↔ (f.append logline).writtenBytes ≤ cfg.rollSize := by
  rw [within, hf, Option.all_some, decide_eq_true_iff]

theorem Rolled.appended_above {logline : Bytes} (n : Nat) (h : Rolled cfg ls s f seconds)
    (habove : cfg.rollSize < (f.append logline).writtenBytes) :
    Appended cfg clock n s f logline (LogFile.rollFile cfg clock { s with file := some (f.append logline) }).2 := by
  have hnot := Int.not_le.2 habove
  rcases rollFile_cases cfg clock (h.write logline).file with ⟨hlt, ho, -⟩ | ⟨hle, heq⟩
  · refine ⟨fun _ _ => ⟨ho.closed, ho.file, ho.lastRoll⟩, ?_, fun hsize => absurd hsize hnot⟩
    intro g hg hgabove hor
    exact absurd hor (ho.not_above hg hgabove)
  · exact ⟨fun _ hlt => absurd hlt (Int.not_lt.2 hle), fun _ _ _ _ => hle, fun hsize => absurd hsize hnot⟩

theorem Rolled.appended_checked {logline : Bytes} (n : Nat) (h : Rolled cfg ls s f seconds) (hclock : ∀ k, 0 < clock k)
    (hsize : (f.append logline).writtenBytes ≤ cfg.rollSize) :
    Appended cfg clock n s f logline
      (LogFile.checkPeriod cfg clock { s with count := 0, file := some (f.append logline) }) := by
  have hnot := Int.not_lt.2 hsize
  have hreset : Rolled cfg (ls ++ [logline]) { s with count := 0, file := some (f.append logline) }
      (f.append logline) seconds :=
    (h.write logline).keeps rfl rfl rfl rfl
  rcases hreset.checkPeriod_cases hclock with ho | ⟨hfile, hle⟩
  · refine ⟨fun habove => absurd habove hnot, ?_, fun _ _ _ _ => ⟨ho.closed, ho.file, ho.lastRoll⟩⟩
    intro g hg hgabove hor
    exact absurd hor (ho.not_above hg hgabove)
  · refine ⟨fun habove => absurd habove hnot, ?_, fun _ _ hday hlt => absurd hlt (Int.not_lt.2 (hle hday))⟩
    intro g hg hgabove
    rw [hfile] at hg
    cases hg
    exact absurd hgabove hnot

theorem Rolled.append {n : Nat} (h : Rolled cfg ls s f seconds) (hclock : ∀ k, 0 < clock k)
    (hn : s.count = n % max cfg.checkEveryN 1) (logline : Bytes) :
    ∃ s' f' seconds', append cfg clock s logline = .ok s' ∧ Rolled cfg (ls ++ [logline]) s' f' seconds' ∧
      s'.count = (n + (within cfg s logline).toNat : Nat) % max cfg.checkEveryN 1 ∧
      Appended cfg clock n s f logline s' := by
  have hwrite := h.write logline
  by_cases hsize : (f.append logline).writtenBytes ≤ cfg.rollSize
  · obtain ⟨hfull, hcount⟩ := count_step hn
    rw [append_within h.file hsize, (within_iff h.file).2 hsize]
    by_cases hN : cfg.checkEveryN ≤ s.count + 1
    · rw [if_pos hN] at hcount ⊢
      obtain ⟨f', seconds', hrolled⟩ := Rolled.checkPeriod clock
        (show Rolled cfg (ls ++ [logline]) { s with count := 0, file := some (f.append logline) } _ _
          from hwrite.keeps rfl rfl rfl rfl)
      refine ⟨_, f', seconds', rfl, hrolled, ?_, h.appended_checked n hclock hsize⟩
      rw [count_checkPeriod]
      exact hcount
    · rw [if_neg hN] at hcount ⊢
      refine ⟨_, _, seconds, rfl, hwrite.keeps rfl rfl rfl rfl, hcount,
        fun habove => absurd habove (Int.not_lt.2 hsize), ?_, fun _ hdvd => absurd (hfull.2 hdvd) hN⟩
      intro g hg hgabove
      cases hg
      exact absurd hgabove (Int.not_lt.2 hsize)
  · have habove := Int.not_le.1 hsize
    obtain ⟨f', seconds', hrolled⟩ := hwrite.rollFile clock
    refine ⟨_, f', seconds', append_above h.file habove, hrolled, ?_, h.appended_above n habove⟩
    rw [count_rollFile, Bool.eq_false_iff.2 fun hw => hsize ((within_iff h.file).1 hw)]
    exact hn

/-- The number of appends of a run that leave the size. -/
def withins (cfg : LogFileConfig) (clock : Nat → Int) : LogFile → List Bytes → Nat
  | _, [] => 0
  | s, logline :: ls =>
    (within cfg s logline).toNat +
      match append cfg clock s logline with
      | .ok s' => withins cfg clock s' ls
      | .error _ => 0

theorem Rolled.run (hclock : ∀ k, 0 < clock k) {n : Nat} (ms : List Bytes) (h : Rolled cfg ls s f seconds)
    (hn : s.count = n % max cfg.checkEveryN 1) :
    ∃ s' f' seconds', run (LogFile.append cfg clock) s ms = .ok s' ∧ Rolled cfg (ls ++ ms) s' f' seconds' ∧
      s'.count = (n + withins cfg clock s ms : Nat) % max cfg.checkEveryN 1 := by
  induction ms generalizing s f seconds ls n with
  | nil =>
    rw [List.append_nil]
    exact ⟨s, f, seconds, rfl, h, hn⟩
  | cons logline ms ih =>
    obtain ⟨t, g, ts, ht, hrolled, hcount, -⟩ := h.append hclock hn logline
    obtain ⟨s', f', seconds', hrun, hrolled, hcount⟩ := ih hrolled hcount
    rw [List.append_assoc, List.singleton_append] at hrolled
    refine ⟨s', f', seconds', (run_cons_ok _).2 ⟨t, ht, hrun⟩, hrolled, ?_⟩
    simp only [withins, ht]
    rw [← Nat.add_assoc]
    exact hcount

theorem Rolled.ctor (cfg : LogFileConfig) (hclock : 0 < clock 0) :
    Rolled cfg [] (ctor cfg clock) { filename := cfg.getLogFileName (clock 0) } [] := by
  simp only [LogFile.ctor, LogFile.rollFile, if_pos hclock]
  refine ⟨rfl, rfl, ?_, rfl, List.pairwise_singleton .., hclock, start_eq hclock⟩
  intro g hg
  rw [List.mem_singleton.1 hg]
  rfl

end

/-- Whatever positive seconds the clock shows: every line is in one file, no name comes twice, and the
next append starts a file as `Appended` says. -/
theorem log_file_rolls (cfg : LogFileConfig) (clock : Nat → Int) (hclock : ∀ k, 0 < clock k) (ls : List Bytes) :
    ∃ s f seconds, run (append cfg clock) (ctor cfg clock) ls = .ok s ∧ Rolled cfg ls s f seconds ∧
      ((s.closed ++ [f]).map AppendFile.filename).Nodup ∧
      ∀ logline, ∃ s', append cfg clock s logline = .ok s' ∧
        Appended cfg clock (withins cfg clock (ctor cfg clock) ls) s f logline s' := by
  have hn : (ctor cfg clock).count = (0 : Nat) % max cfg.checkEveryN 1 := by
    rw [ctor, count_rollFile]
    exact (Int.zero_emod _).symm
  obtain ⟨s, f, seconds, hrun, hrolled, hcount⟩ := (Rolled.ctor cfg (hclock 0)).run hclock ls hn
  rw [Nat.zero_add] at hcount
  refine ⟨s, f, seconds, hrun, hrolled, hrolled.names_nodup, ?_⟩
  intro logline
  obtain ⟨s', -, -, hs', -, -, happended⟩ := hrolled.append hclock hcount logline
  exact ⟨s', hs', happended⟩

/-- Files of ten bytes, whose period is checked at every second line. -/
def serverLog : LogFileConfig where
  basename := ascii "server"
  rollSize := 10
  flushInterval := 3
  checkEveryN := 2
  hostname := ascii "host"
  pid := 7
  no_slash := by decide

/-- A clock that shows the next day at every call. -/
def dailyClock (k : Nat) : Int := kRollPerSeconds * k + 1

/-- The second line of the log starts a file for the day after. -/
theorem log_file_rolls_daily : ∃ s, ∃ f : AppendFile, ∃ s',
    run (append serverLog dailyClock) (ctor serverLog dailyClock) [ascii "a"] = .ok s ∧
      append serverLog dailyClock s (ascii "b") = .ok s' ∧ Opens serverLog s (f.append (ascii "b")) 172801 s' := by
  have hclock : ∀ k, 0 < dailyClock k := by
    intro k
    unfold dailyClock kRollPerSeconds
    omega
  have hstate : (run (append serverLog dailyClock) (ctor serverLog dailyClock) [ascii "a"]).map
      (fun s => (s.ticks, s.lastRoll, s.file.map AppendFile.writtenBytes)) = .ok (1, 1, some 1) := by
    decide +kernel
  obtain ⟨s, f, seconds, hrun, hrolled, -, hnext⟩ := log_file_rolls serverLog dailyClock hclock [ascii "a"]
  obtain ⟨s', hs', happended⟩ := hnext (ascii "b")
  obtain ⟨hticks, hroll, hsize⟩ : s.ticks = 1 ∧ s.lastRoll = 1 ∧ f.writtenBytes = 1 := by
    simpa [hrun, Except.map, hrolled.file] using hstate
  refine ⟨s, f, s', hrun, hs', ?_⟩
  have hopens := happended.period
  rw [hticks, hroll] at hopens
  apply hopens
  · simp only [AppendFile.append, hsize]
    decide
  · decide +kernel
  · decide
  · decide

/-- With a negative size a file is above it before anything is written: the clock was past the first
file when "a" was appended, and "b" is written to a file that is above the size. -/
theorem negative_size_above :
    let cfg := { serverLog with rollSize := -1 }
    (ctor cfg dailyClock).lastRoll < dailyClock (ctor cfg dailyClock).ticks ∧
      (append cfg dailyClock (ctor cfg dailyClock) (ascii "a")).map (fun s => s.file.map AppendFile.writtenBytes) =
        .ok (some 0) ∧ cfg.rollSize < 0 ∧
      (run (append cfg dailyClock) (ctor cfg dailyClock) [ascii "a", ascii "b"]).map
        (fun s => s.closed.map AppendFile.written) = .ok [[ascii "a"], [ascii "b"]] := by
  decide +kernel

end LogFile

end Zhengqi
