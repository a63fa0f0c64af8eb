import Mathlib.Data.List.Forall2
import Zhengqi.LoggingSound

/-!
# The time of a log record

A thread keeps the text of the last second it has printed, and asks for nothing but the second before it
prints that text again. So the text is right as long as no zone is set between two records of one second
that shows it differently.
-/

namespace Zhengqi

open Run

/-! ## Events -/

/-- What one thread does: it logs, or calls `Logger::setTimeZone`. -/
inductive LogEvent
  | record (time : Timestamp)
  | setTimeZone (tz : TimeZone)

/-- The first 17 bytes that `formatTime` writes for each record, into streams as `s₀`. -/
def stamps (s₀ : LogStream) : TimeZone → LogThread → List LogEvent → Except Fault (List Bytes)
  | _, _, [] => pure []
  | _, th, .setTimeZone tz :: events => stamps s₀ tz th events
  | zone, th, .record time :: events => do
    let (th, s) ← formatTime zone th time s₀
    let rest ← stamps s₀ zone th events
    pure (s.toStringPiece.take 17 :: rest)

/-- The second of each record, with the zone in force. -/
def recorded : TimeZone → List LogEvent → List (TimeZone × Int)
  | _, [] => []
  | _, .setTimeZone tz :: events => recorded tz events
  | zone, .record time :: events => (zone, time.tdiv kMicroSecondsPerSecond) :: recorded zone events

/-- A second, printed without a cache. -/
def render (r : TimeZone × Int) : Except Fault Bytes := do pure (dateTimeText (← logTime r.1 r.2))

/-! ## One record -/

section
variable {zone : TimeZone} {th th' : LogThread} {seconds : Int} {s s₀ : LogStream} {time : Timestamp}

theorem update_same (h : seconds = th.lastSecond) : th.update zone seconds = .ok th := if_neg (not_not_intro h)

theorem update_other (h : seconds ≠ th.lastSecond) :
    th.update zone seconds = .ok th' ↔ ∃ text, render (zone, seconds) = .ok text ∧ text.length = 17 ∧
      th' = ⟨seconds, text⟩ := by
  rw [LogThread.update, if_pos h]
  constructor
  · intro hok
    obtain ⟨dt, hdt, hok⟩ := bind_ok.mp hok
    obtain ⟨_, hlen, hok⟩ := bind_ok.mp hok
    have hlen := check_ok.mp hlen
    refine ⟨dateTimeText dt, ?_, hlen, ?_⟩
    · rw [render, hdt]
      rfl
    · rw [pure_eq_ok, Except.ok.injEq, snprintf, List.take_of_length_le (by omega)] at hok
      exact hok.symm
  · rintro ⟨text, htext, hlen, rfl⟩
    obtain ⟨dt, hdt, heq⟩ := bind_ok.mp htext
    obtain rfl := Except.ok.inj heq
    dsimp only at hdt
    rw [hdt, ok_bind]
    dsimp only
    rw [check_of hlen, ok_bind, snprintf, List.take_of_length_le (by omega)]
    rfl

/-- The fraction of the second, and the mark of UTC. -/
def usText (zone : TimeZone) (time : Timestamp) : Bytes :=
  ascii "." ++ zeroPadded 6 (time.tmod kMicroSecondsPerSecond) ++ if zone.valid then ascii " " else ascii "Z "

theorem length_usText (htime : 0 ≤ time) : (usText zone time).length = if zone.valid then 8 else 9 := by
  have hmod : 0 ≤ time.tmod kMicroSecondsPerSecond ∧ time.tmod kMicroSecondsPerSecond < 1000000 := by
    rw [Int.tmod_eq_emod_of_nonneg htime]
    unfold kMicroSecondsPerSecond
    omega
  rw [usText, List.length_append, List.length_append, length_zeroPadded (by decide) hmod.1 (by omega)]
  cases zone.valid <;> rfl

theorem formatTime_eq (htime : 0 ≤ time) : formatTime zone th time s₀ = (do
    let th ← th.update zone (time.tdiv kMicroSecondsPerSecond)
    let s ← s₀.putT th.time 17
    let s ← s.putT (usText zone time) (usText zone time).length
    pure (th, s)) := by
  have hlen : (usText zone time).length = if zone.valid then 8 else 9 := length_usText htime
  have hfmt : fmt (usText zone time) = .ok (usText zone time) := by
    have hshort : (usText zone time).length < 32 := by
      rw [hlen]
      split <;> decide
    rw [fmt, check_of hshort, ok_bind, snprintf, List.take_of_length_le (by omega)]
    rfl
  unfold formatTime
  cases hvalid : zone.valid with
  | true =>
    have hus : ascii "." ++ zeroPadded 6 (time.tmod kMicroSecondsPerSecond) ++ ascii " " = usText zone time := by
      rw [usText, if_pos hvalid]
    rw [if_pos hvalid] at hlen
    simp only [if_true, hus, hfmt, ok_bind, hlen, check_of]
  | false =>
    have hus : ascii "." ++ zeroPadded 6 (time.tmod kMicroSecondsPerSecond) ++ ascii "Z " = usText zone time := by
      rw [usText, if_neg (by rw [hvalid]; decide)]
    rw [if_neg (by rw [hvalid]; decide)] at hlen
    simp only [Bool.false_eq_true, if_false, hus, hfmt, ok_bind, hlen, check_of]

/-- The text of the thread is what the record starts with. -/
theorem formatTime_ok (hs₀ : s₀.cur = 0) (htime : 0 ≤ time)
    (hupdate : th.update zone (time.tdiv kMicroSecondsPerSecond) = .ok th')
    (hlen : th'.time.length = 17) : ∃ s, formatTime zone th time s₀ = .ok (th', s) ∧
      s.toStringPiece.take 17 = th'.time := by
  have hempty : s₀.toStringPiece = [] := List.length_eq_zero_iff.1 (s₀.length_toStringPiece.trans hs₀)
  have hus : (usText zone time).length < 2 ^ 31 := by
    rw [length_usText htime]
    split <;> decide
  obtain ⟨s₁, hs₁, hputs₁⟩ := LogStream.putT_puts (show s₀.cur < kSmallBuffer by rw [hs₀]; decide)
    (show th'.time.length < 2 ^ 31 by omega)
  obtain ⟨s₂, hs₂, hputs₂⟩ := LogStream.putT_puts hputs₁.cur hus
  have hpiece₁ := hputs₁.yes (by rw [Cells.avail, hs₀, hlen]; decide)
  rw [hlen] at hs₁
  rw [hempty, List.nil_append] at hpiece₁
  refine ⟨s₂, ?_, ?_⟩
  · rw [formatTime_eq htime, hupdate, ok_bind, hs₁, ok_bind, hs₂]
    rfl
  · rw [hputs₂.eq_ite, hpiece₁, ← hlen, List.take_left]

theorem formatTime_inv (hs₀ : s₀.cur = 0) (htime : 0 ≤ time) (h : formatTime zone th time s₀ = .ok (th', s)) :
    th.update zone (time.tdiv kMicroSecondsPerSecond) = .ok th' ∧ th'.time.length = 17 ∧
      s.toStringPiece.take 17 = th'.time := by
  have h' := h
  rw [formatTime_eq htime] at h'
  obtain ⟨t, hupdate, h'⟩ := bind_ok.mp h'
  obtain ⟨s₁, hs₁, h'⟩ := bind_ok.mp h'
  obtain ⟨s₂, -, h'⟩ := bind_ok.mp h'
  cases h'
  obtain ⟨_, hlen, -⟩ := bind_ok.mp hs₁
  have hlen := check_ok.mp hlen
  obtain ⟨s', hs', htake⟩ := formatTime_ok hs₀ htime hupdate hlen
  rw [h, Except.ok.injEq] at hs'
  cases hs'
  exact ⟨hupdate, hlen, htake⟩

end

/-! ## Whole histories -/

/-- What the thread keeps, by its last record. -/
inductive Keeps : Option (TimeZone × Int) → LogThread → Prop
  | start : Keeps none {}
  | last {r : TimeZone × Int} {text : Bytes} (h : render r = .ok text) (hlen : text.length = 17) :
      Keeps (some r) ⟨r.2, text⟩

/-- The record `r` may follow `last`: its text exists, and is what the thread keeps if that is for the
same second. -/
structure Follows (last : Option (TimeZone × Int)) (r : TimeZone × Int) : Prop where
  text : ∃ text, render r = .ok text ∧ text.length = 17
  first : last = none → r.2 ≠ 0
  same : ∀ a, last = some a → a.2 = r.2 → render a = render r

variable {zone : TimeZone} {th th' : LogThread} {s₀ : LogStream} {last : Option (TimeZone × Int)} {seconds : Int}

theorem Keeps.update_iff (hk : Keeps last th) :
    (th.update zone seconds = .ok th' ∧ th'.time.length = 17 ∧ render (zone, seconds) = .ok th'.time) ↔
      Follows last (zone, seconds) ∧ Keeps (some (zone, seconds)) th' := by
  by_cases hsame : seconds = th.lastSecond
  · rw [update_same hsame, Except.ok.injEq]
    cases hk with
    | start =>
      constructor
      · rintro ⟨rfl, hlen, -⟩
        cases hlen
      · rintro ⟨hfollows, -⟩
        exact absurd hsame (hfollows.first rfl)
    | @last r text htext hlen =>
      obtain rfl : seconds = r.2 := hsame
      constructor
      · rintro ⟨rfl, -, hrender⟩
        have heq (a : TimeZone × Int) (ha : some r = some a) : render a = render (zone, r.2) := by
          rw [← Option.some.inj ha, htext, hrender]
        exact ⟨⟨⟨text, hrender, hlen⟩, nofun, fun a ha _ => heq a ha⟩, .last hrender hlen⟩
      · rintro ⟨hfollows, hkeeps⟩
        have hrender := (hfollows.same r rfl rfl).symm.trans htext
        cases hkeeps with
        | last htext' hlen' =>
          rw [htext', Except.ok.injEq] at hrender
          exact ⟨by rw [hrender], hlen', htext'⟩
  · rw [update_other hsame]
    constructor
    · rintro ⟨⟨text, htext, hlen, rfl⟩, -⟩
      refine ⟨⟨⟨text, htext, hlen⟩, ?_, ?_⟩, .last htext hlen⟩
      · rintro rfl
        cases hk
        exact hsame
      · rintro a rfl ha
        cases hk
        exact absurd ha.symm hsame
    · rintro ⟨-, hkeeps⟩
      cases hkeeps with
      | last htext hlen => exact ⟨⟨_, htext, hlen, rfl⟩, hlen, htext⟩

/-- Each record may follow the one before it. -/
def AllFollow : Option (TimeZone × Int) → List (TimeZone × Int) → Prop
  | _, [] => True
  | last, r :: rs => Follows last r ∧ AllFollow (some r) rs

theorem stamps_iff {events : List LogEvent} (hs₀ : s₀.cur = 0) (htime : ∀ t, .record t ∈ events → 0 ≤ t)
    (hk : Keeps last th) :
    (∃ ps, stamps s₀ zone th events = .ok ps ∧ List.Forall₂ (fun p r => render r = .ok p) ps (recorded zone events)) ↔
      AllFollow last (recorded zone events) := by
  induction events generalizing zone th last with
  | nil => exact ⟨fun _ => trivial, fun _ => ⟨[], rfl, .nil⟩⟩
  | cons e events ih =>
    have htail : ∀ t, .record t ∈ events → 0 ≤ t := fun t ht => htime t (.tail e ht)
    cases e with
    | setTimeZone tz => exact ih htail hk
    | record time =>
      have hpos := htime time (.head events)
      constructor
      · rintro ⟨ps, hps, hall⟩
        obtain ⟨⟨th', s⟩, hformat, hps⟩ := bind_ok.mp hps
        obtain ⟨rest, hrest, hps⟩ := bind_ok.mp hps
        cases hps
        obtain ⟨hupdate, hlen, htake⟩ := formatTime_inv hs₀ hpos hformat
        obtain ⟨hhead, hall⟩ := List.forall₂_cons.1 hall
        obtain ⟨hfollows, hkeeps⟩ := hk.update_iff.1 ⟨hupdate, hlen, htake ▸ hhead⟩
        exact ⟨hfollows, (ih htail hkeeps).1 ⟨rest, hrest, hall⟩⟩
      · rintro ⟨hfollows, hall⟩
        obtain ⟨text, htext, hlen⟩ := hfollows.text
        obtain ⟨hupdate, hlen', hrender⟩ := hk.update_iff.2 ⟨hfollows, .last htext hlen⟩
        obtain ⟨s, hformat, htake⟩ := formatTime_ok hs₀ hpos hupdate hlen'
        obtain ⟨rest, hrest, hall⟩ := (ih htail (.last htext hlen)).2 hall
        refine ⟨s.toStringPiece.take 17 :: rest, ?_, .cons (htake ▸ hrender) hall⟩
        rw [stamps, hformat, ok_bind]
        dsimp only
        rw [hrest]
        rfl

theorem allFollow_iff {last : TimeZone × Int} {rs : List (TimeZone × Int)} : AllFollow (some last) rs ↔
    (∀ r ∈ rs, ∃ text, render r = .ok text ∧ text.length = 17) ∧
      (last :: rs).IsChain fun a b => a.2 = b.2 → render a = render b := by
  induction rs generalizing last with
  | nil => simp [AllFollow]
  | cons r rs ih =>
    rw [AllFollow, ih, List.forall_mem_cons, List.isChain_cons_cons]
    constructor
    · rintro ⟨hfollows, hall, hchain⟩
      exact ⟨⟨hfollows.text, hall⟩, hfollows.same last rfl, hchain⟩
    · rintro ⟨⟨htext, hall⟩, hsame, hchain⟩
      refine ⟨⟨htext, nofun, ?_⟩, hall, hchain⟩
      rintro a ha
      cases ha
      exact hsame

/-- The stamps are those of a thread without a cache exactly if every second can be printed, the first
record is not in second 0, and records of one second that follow each other are shown the same. -/
theorem stamps_uncached_iff (events : List LogEvent) (hs₀ : s₀.cur = 0) (htime : ∀ t, .record t ∈ events → 0 ≤ t) :
    (∃ ps, stamps s₀ zone {} events = .ok ps ∧ List.Forall₂ (fun p r => render r = .ok p) ps (recorded zone events)) ↔
      (∀ r ∈ recorded zone events, ∃ text, render r = .ok text ∧ text.length = 17) ∧
      (∀ r ∈ (recorded zone events).head?, r.2 ≠ 0) ∧
      (recorded zone events).IsChain fun a b => a.2 = b.2 → render a = render b := by
  rw [stamps_iff hs₀ htime .start]
  cases recorded zone events with
  | nil => simp [AllFollow]
  | cons r rs =>
    rw [AllFollow, allFollow_iff, List.forall_mem_cons]
    constructor
    · rintro ⟨hfollows, hall, hchain⟩
      refine ⟨⟨hfollows.text, hall⟩, ?_, hchain⟩
      rintro a ha
      cases ha
      exact hfollows.first rfl
    · rintro ⟨⟨htext, hall⟩, hfirst, hchain⟩
      exact ⟨⟨htext, fun _ => hfirst r rfl, nofun⟩, hall, hchain⟩

def cet : TimeZone := .ofOffset 3600 (ascii "CET")

/-- A zone is set, and the next record is of the next second. -/
theorem stamps_uncached_iff_cet :
    ∃ ps, stamps zeros {} {} [.record 1500000, .setTimeZone cet, .record 2500000] = .ok ps ∧
      List.Forall₂ (fun p r => render r = .ok p) ps [({}, 1), (cet, 2)] := by
  have hrender : render ({}, 1) = .ok (ascii "19700101 00:00:01") ∧
      render (cet, 2) = .ok (ascii "19700101 01:00:02") := by
    decide +kernel
  have htime : ∀ t, .record t ∈ [LogEvent.record 1500000, .setTimeZone cet, .record 2500000] → 0 ≤ t := by
    simp
  have hrecorded : recorded {} [.record 1500000, .setTimeZone cet, .record 2500000] = [({}, 1), (cet, 2)] := rfl
  have hiff := @stamps_uncached_iff {} zeros [.record 1500000, .setTimeZone cet, .record 2500000] rfl htime
  rw [hrecorded] at hiff
  apply hiff.2
  refine ⟨?_, ?_, ?_⟩
  · intro r hr
    simp only [List.mem_cons, List.not_mem_nil, or_false] at hr
    rcases hr with rfl | rfl
    · exact ⟨_, hrender.1, rfl⟩
    · exact ⟨_, hrender.2, rfl⟩
  · intro r hr
    cases hr
    decide
  · simp

/-- With both records in one second the second one has the text of the first, in UTC. The thread knows
second 0 before it has printed anything. -/
theorem zone_change_stale :
    stamps zeros {} {} [.record 1000000, .setTimeZone cet, .record 1500000] =
        .ok [ascii "19700101 00:00:01", ascii "19700101 00:00:01"] ∧
      render (cet, 1) = .ok (ascii "19700101 01:00:01") ∧ stamps zeros {} {} [.record 500000] = .error .logT := by
  decide +kernel

end Zhengqi
