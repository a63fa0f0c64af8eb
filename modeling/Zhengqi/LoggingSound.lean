import Zhengqi.Logging
import Zhengqi.LogStreamSound

/-!
# Log records and their last byte

Each part of a record is dropped by itself where it does not fit, the newline too. A record ends with
one unless the parts before it come to the last two bytes of the buffer.
-/

namespace Zhengqi

open Run

/-! ## Pieces -/

/-- A length that was an `int` either is one of the bytes, or is larger than any buffer. -/
theorem pieceSize_cases (data : Bytes) :
    (Buffer.pieceSize data % 2 ^ 64).toNat ≤ data.length ∨ 2 ^ 31 ≤ data.length ∧
      2 ^ 31 ≤ (Buffer.pieceSize data % 2 ^ 64).toNat := by
  unfold Buffer.pieceSize
  rw [Int.bmod_def]
  omega

/-- What is printed of a file name. -/
def SourceFile.text (f : SourceFile) : Bytes := f.data.take (f.size % 2 ^ 64).toNat

namespace LogStream

variable {s : LogStream} (h : s.cur < kSmallBuffer)
include h

theorem appendLen_puts (data : Bytes) (len : Int) (hlen : (len % 2 ^ 64).toNat ≤ data.length) :
    ∃ s', s.appendLen data len = .ok s' ∧
      Puts s (data.take (len % 2 ^ 64).toNat) ((data.take (len % 2 ^ 64).toNat).length < s.avail) s' := by
  obtain ⟨s', hs', hputs⟩ := append_puts h (data.take (len % 2 ^ 64).toNat)
  have htake : (data.take (len % 2 ^ 64).toNat).length = (len % 2 ^ 64).toNat := by
    rw [List.length_take, Nat.min_eq_left hlen]
  rw [appendLen]
  split
  · exact ⟨s', hs', hputs⟩
  · rename_i hge
    exact ⟨s, rfl, h, fun hlt => absurd (htake ▸ hlt) hge, fun _ => rfl⟩

theorem appendLen_natCast (data : Bytes) (hlen : data.length < 2 ^ 31) :
    ∃ s', s.appendLen data data.length = .ok s' ∧ Puts s data (data.length < s.avail) s' := by
  have hnat : ((data.length : Int) % 2 ^ 64).toNat = data.length := by omega
  have hputs := appendLen_puts h data data.length (Nat.le_of_eq hnat)
  rwa [hnat, List.take_length] at hputs

theorem appendLen_cur {data : Bytes} {len : Int} {s' : LogStream} (hs : s.appendLen data len = .ok s') :
    s'.cur < kSmallBuffer := by
  by_cases hlen : (len % 2 ^ 64).toNat ≤ data.length
  · obtain ⟨t, ht, hputs⟩ := appendLen_puts h data len hlen
    rw [hs, Except.ok.injEq] at ht
    exact ht ▸ hputs.cur
  · rw [appendLen] at hs
    split at hs
    · cases hs
    · cases hs
      exact h

theorem putT_cur {str : Bytes} {len : Nat} {s' : LogStream} (hs : s.putT str len = .ok s') : s'.cur < kSmallBuffer := by
  obtain ⟨-, -, hs⟩ := bind_ok.mp hs
  exact appendLen_cur h hs

theorem putT_puts {str : Bytes} (hlen : str.length < 2 ^ 31) :
    ∃ s', s.putT str str.length = .ok s' ∧ Puts s str (str.length < s.avail) s' := by
  obtain ⟨s', hs', hputs⟩ := appendLen_natCast h str hlen
  refine ⟨s', ?_, hputs⟩
  rw [putT, check_of rfl, ok_bind, hs']

theorem putSourceFile_puts (f : SourceFile) :
    ∃ s', s.putSourceFile f = .ok s' ∧ Puts s f.text (f.text.length < s.avail) s' := by
  rcases pieceSize_cases f.data with hle | ⟨hdata, hlen⟩
  · exact appendLen_puts h f.data f.size (f.size_eq ▸ hle)
  · have havail : s.avail ≤ 4000 := Nat.sub_le ..
    have htext : ¬ f.text.length < s.avail := by
      rw [SourceFile.text, List.length_take, f.size_eq]
      omega
    refine ⟨s, ?_, h, fun hlt => absurd hlt htext, fun _ => rfl⟩
    rw [putSourceFile, appendLen, if_neg]
    · rfl
    · rw [f.size_eq]
      omega

theorem putDouble_ok {text : Bytes} (hlen : text.length < kMaxNumericSize) :
    ∃ s', s.putDouble text = .ok s' ∧ s'.cur < kSmallBuffer := by
  unfold putDouble
  split
  · rename_i hle
    rw [Cells.avail] at hle
    unfold kMaxNumericSize at hle hlen
    have hprint : snprintf kMaxNumericSize text = text := List.take_of_length_le (by unfold kMaxNumericSize; omega)
    obtain ⟨c, hc, hw⟩ := Cells.write_ok (c := s) (i := s.cur) (d := text ++ [0])
      (by rw [List.length_append, List.length_singleton]; omega)
    obtain ⟨c', hc', hcur, -⟩ := hw.add (by rw [List.length_singleton]; omega)
    rw [hprint, hc, ok_bind]
    exact ⟨c', hc', by omega⟩
  · exact ⟨s, rfl, h⟩

theorem putItem_ok (i : LogItem) : ∃ s', s.putItem i = .ok s' ∧ s'.cur < kSmallBuffer := by
  cases i with
  | operand o =>
    obtain ⟨s', hs', hputs⟩ := put_puts h o
    exact ⟨s', hs', hputs.cur⟩
  | double text short => exact putDouble_ok h short
  | fmt text short =>
    have hprint : snprintf 32 text = text := List.take_of_length_le (by omega)
    obtain ⟨s', hs', hputs⟩ := appendLen_natCast h text (by omega)
    refine ⟨s', ?_, hputs.cur⟩
    rw [putItem, fmt, check_of short, ok_bind, hprint]
    exact hs'

theorem putItems_ok (items : List LogItem) : ∃ s', items.foldlM putItem s = .ok s' ∧ s'.cur < kSmallBuffer := by
  rw [foldlM_eq_run]
  exact run_total (fun _ i hs => putItem_ok hs i) h

end LogStream

theorem Puts.eq_ite {s s' : LogStream} {text : Bytes} {ok : Prop} [Decidable ok] (h : Puts s text ok s') :
    s'.toStringPiece = s.toStringPiece ++ if ok then text else [] := by
  by_cases hok : ok
  · rw [h.yes hok, if_pos hok]
  · rw [h.no hok, if_neg hok, List.append_nil]

/-! ## The end of a record -/

section
variable {n : Nat} {o : Operand} {os : List Operand} {c : Byte} {line : Int32}

theorem accepted_cons (h : o.Accepted (kSmallBuffer - n)) :
    accepted n (o :: os) = o :: accepted (n + o.text.length) os := if_pos h

theorem accepted_skip (h : ¬ o.Accepted (kSmallBuffer - n)) : accepted n (o :: os) = accepted n os := if_neg h

theorem char_accepted : (Operand.char c).Accepted (kSmallBuffer - n) ↔ n < kSmallBuffer - 1 := by
  show 1 < kSmallBuffer - n ↔ _
  omega

theorem int_accepted : (Operand.int line).Accepted (kSmallBuffer - n) ↔ kMaxNumericSize ≤ kSmallBuffer - n := Iff.rfl

end

/-- The operands of `finish` behind the file name. -/
def ending (line : Int32) : List Operand := [.char (chr ':'), .int line, .char (chr '\n')]

/-- The newline is there unless two bytes or fewer were left. -/
theorem accepted_ending {n : Nat} (h : n < kSmallBuffer - 2) (line : Int32) :
    ∃ os, accepted n (ending line) = os ++ [.char (chr '\n')] := by
  have hlen := length_signed (v := line.toInt) (by have := line.le_toInt; omega) (by have := line.toInt_lt; omega)
  have hchar := char_accepted (c := chr ':') (n := n)
  rw [ending, accepted_cons (hchar.2 (by omega))]
  show ∃ os, Operand.char (chr ':') :: accepted (n + 1) _ = _
  by_cases hint : (Operand.int line).Accepted (kSmallBuffer - (n + 1))
  · have hroom := int_accepted.1 hint
    unfold kMaxNumericSize at hroom
    rw [accepted_cons hint]
    show ∃ os, Operand.char (chr ':') :: Operand.int line :: accepted (n + 1 + (signed line.toInt).length) _ = _
    rw [accepted_cons (char_accepted.2 (by omega))]
    exact ⟨[.char (chr ':'), .int line], rfl⟩
  · rw [accepted_skip hint, accepted_cons (char_accepted.2 (by omega))]
    exact ⟨[.char (chr ':')], rfl⟩

theorem accepted_ending_two {n : Nat} (h : n = kSmallBuffer - 2) (line : Int32) :
    accepted n (ending line) = [.char (chr ':')] := by
  subst h
  rw [ending, accepted_cons (char_accepted.2 (by decide)), accepted_skip, accepted_skip]
  · rfl
  · exact mt char_accepted.1 (by decide)
  · exact mt int_accepted.1 (by decide)

theorem accepted_ending_one {n : Nat} (h : n = kSmallBuffer - 1) (line : Int32) : accepted n (ending line) = [] := by
  subst h
  rw [ending, accepted_skip, accepted_skip, accepted_skip]
  · rfl
  · exact mt char_accepted.1 (by decide)
  · exact mt int_accepted.1 (by decide)
  · exact mt char_accepted.1 (by decide)

namespace LogRecord

/-- What `finish` writes behind `n` bytes, up to the file name. -/
def fileText (r : LogRecord) (n : Nat) : Bytes :=
  let dash := if n + 3 < kSmallBuffer then ascii " - " else []
  dash ++ if n + dash.length + r.file.text.length < kSmallBuffer then r.file.text else []

/-- The text lets the newline in, or is itself ended by one and leaves no room for anything. -/
def Terminated (text : Bytes) : Prop :=
  text.length < kSmallBuffer - 2 ∨ text.length = kSmallBuffer - 1 ∧ text.getLast? = some (chr '\n')

/-- Behind a text that leaves a byte, `finish` ends with a newline exactly if the text is `Terminated`. -/
theorem ends_iff {text : Bytes} (h : text.length < kSmallBuffer) (line : Int32) :
    (text ++ (accepted text.length (ending line)).flatMap Operand.text).getLast? = some (chr '\n') ↔
      Terminated text := by
  rcases (by omega : text.length < kSmallBuffer - 2 ∨ text.length = kSmallBuffer - 2 ∨ text.length = kSmallBuffer - 1)
    with hlt | heq | heq
  · obtain ⟨os, hos⟩ := accepted_ending hlt line
    rw [hos]
    simp [Terminated, hlt, Operand.text]
  · have hcolon : chr ':' ≠ chr '\n' := by decide
    have hone : kSmallBuffer - 2 ≠ kSmallBuffer - 1 := by decide
    rw [accepted_ending_two heq, Terminated, heq]
    simp [Operand.text, hcolon, hone]
  · have htwo : ¬ kSmallBuffer - 1 < kSmallBuffer - 2 := by decide
    rw [accepted_ending_one heq, Terminated, heq]
    simp [htwo]

theorem finish_ok (r : LogRecord) {s : LogStream} (h : s.cur < kSmallBuffer) : ∃ s', r.finish s = .ok s' ∧
    (s'.toStringPiece.getLast? = some (chr '\n') ↔ Terminated (s.toStringPiece ++ r.fileText s.cur)) := by
  obtain ⟨s₁, hs₁, hdash⟩ := put_puts h (.cString (some (ascii " - ")))
  obtain ⟨s₂, hs₂, hfile⟩ := LogStream.putSourceFile_puts hdash.cur r.file
  obtain ⟨s₃, hs₃, -, hpiece⟩ := putAll_ok (ending r.line) hfile.cur
  have hpiece₁ : s₁.toStringPiece = s.toStringPiece ++ if s.cur + 3 < kSmallBuffer then ascii " - " else [] := by
    have hiff : (Operand.cString (some (ascii " - "))).Accepted s.avail ↔ s.cur + 3 < kSmallBuffer := by
      show 3 < kSmallBuffer - s.cur ↔ _
      omega
    rw [hdash.eq_ite]
    simp only [hiff]
    rfl
  have htext : s₂.toStringPiece = s.toStringPiece ++ r.fileText s.cur := by
    have hcur : s₁.cur = s.cur + (if s.cur + 3 < kSmallBuffer then ascii " - " else []).length := by
      rw [← s₁.length_toStringPiece, hpiece₁, List.length_append, s.length_toStringPiece]
    have hiff : r.file.text.length < s₁.avail ↔ s₁.cur + r.file.text.length < kSmallBuffer := by
      show r.file.text.length < kSmallBuffer - s₁.cur ↔ _
      omega
    rw [hfile.eq_ite, hpiece₁, fileText, List.append_assoc]
    simp only [hiff, hcur]
  have hlen := s₂.length_toStringPiece
  refine ⟨s₃, ?_, ?_⟩
  · rw [finish, hs₁, ok_bind, hs₂, ok_bind]
    exact hs₃
  · rw [← htext, hpiece, ← hlen]
    exact ends_iff (hlen ▸ hfile.cur) r.line

/-! ## Whole records -/

theorem formatTime_cur {zone : TimeZone} {th th' : LogThread} {time : Timestamp} {s s' : LogStream}
    (hs : s.cur < kSmallBuffer) (h : formatTime zone th time s = .ok (th', s')) : s'.cur < kSmallBuffer := by
  unfold formatTime at h
  obtain ⟨t, -, h⟩ := bind_ok.mp h
  split at h
  all_goals
    obtain ⟨us, -, h⟩ := bind_ok.mp h
    obtain ⟨-, -, h⟩ := bind_ok.mp h
    obtain ⟨s₁, hs₁, h⟩ := bind_ok.mp h
    obtain ⟨s₂, hs₂, h⟩ := bind_ok.mp h
    cases h
    exact LogStream.putT_cur (LogStream.putT_cur hs hs₁) hs₂

theorem impl_ok (r : LogRecord) {th th' : LogThread} {s s₀ : LogStream} (hs : s.cur < kSmallBuffer)
    (h : formatTime r.zone th r.time s = .ok (th', s₀)) : ∃ s', r.impl th s = .ok (th', s') ∧
      s'.cur < kSmallBuffer := by
  have htid : r.tidString.length < 2 ^ 31 := by
    rw [tidString, snprintf, List.length_take]
    omega
  obtain ⟨s₁, hs₁, hputs₁⟩ := LogStream.putT_puts (formatTime_cur hs h) htid
  have hlevel : (LogLevelName r.level).length = 6 := by cases r.level <;> rfl
  obtain ⟨s₂, hs₂, hputs₂⟩ := LogStream.putT_puts hputs₁.cur (show (LogLevelName r.level).length < 2 ^ 31 by omega)
  rw [hlevel] at hs₂
  rw [impl, h, ok_bind]
  dsimp only
  rw [hs₁, ok_bind, hs₂, ok_bind]
  split
  · obtain ⟨s', hs', hcur, -⟩ := putAll_ok [.cString (some (r.strerror r.savedErrno)),
      .cString (some (ascii " (errno=")), .int r.savedErrno, .cString (some (ascii ") "))] hputs₂.cur
    rw [hs', ok_bind]
    exact ⟨s', rfl, hcur⟩
  · exact ⟨s₂, rfl, hputs₂.cur⟩

theorem stream_ok (r : LogRecord) {th th' : LogThread} {s s₀ : LogStream} (hs : s.cur < kSmallBuffer)
    (h : formatTime r.zone th r.time s = .ok (th', s₀)) : ∃ s', r.stream th s = .ok (th', s') ∧
      s'.cur < kSmallBuffer := by
  obtain ⟨s₁, hs₁, hcur₁⟩ := r.impl_ok hs h
  obtain ⟨s₂, hs₂, hcur₂⟩ : ∃ s₂, r.putFunc s₁ = .ok s₂ ∧ s₂.cur < kSmallBuffer := by
    unfold putFunc
    split
    · obtain ⟨s₂, hs₂, hcur₂, -⟩ := putAll_ok _ hcur₁
      exact ⟨s₂, hs₂, hcur₂⟩
    · exact ⟨s₁, rfl, hcur₁⟩
  obtain ⟨s₃, hs₃, hcur₃⟩ := LogStream.putItems_ok hcur₂ r.items
  refine ⟨s₃, ?_, hcur₃⟩
  rw [stream, hs₁, ok_bind]
  dsimp only
  rw [hs₂, ok_bind, hs₃]
  rfl

/-- A record whose time can be printed is handed over, and ends with a newline exactly if what comes
before its colon is no longer than that allows. -/
theorem message_terminated_iff (r : LogRecord) {th th' : LogThread} {s s₀ : LogStream} (hs : s.cur = 0)
    (h : formatTime r.zone th r.time s = .ok (th', s₀)) :
    ∃ s₁ m, r.stream th s = .ok (th', s₁) ∧ r.message th s = .ok (th', m) ∧
      (m.getLast? = some (chr '\n') ↔ Terminated (s₁.toStringPiece ++ r.fileText s₁.length)) := by
  obtain ⟨s₁, hs₁, hcur⟩ := r.stream_ok (by rw [hs]; decide) h
  obtain ⟨s₂, hs₂, hiff⟩ := r.finish_ok hcur
  refine ⟨s₁, _, hs₁, ?_, hiff⟩
  rw [message, hs₁, ok_bind]
  dsimp only
  rw [hs₂]
  rfl

/-- A record of one operand, at 1970-01-01 00:00:01. -/
def sample (text : Bytes) : LogRecord where
  zone := {}
  time := 1000000
  tid := 7
  strerror _ := []
  ctor := .plain
  file := .ofArray (ascii "src/a.cc") (by decide)
  line := 12
  items := [.operand (.string text)]

theorem message_terminated_iff_hello :
    ∃ th m, (sample (ascii "hello")).message {} zeros = .ok (th, m) ∧ m.getLast? = some (chr '\n') := by
  obtain ⟨⟨th, s₀⟩, htime, -⟩ :=
    ok_of_map (show (formatTime {} {} 1000000 zeros).map (fun p => p.1.time) = .ok (ascii "19700101 00:00:01")
    by decide +kernel)
  obtain ⟨s₁, m, hs₁, hm, hiff⟩ := message_terminated_iff (sample (ascii "hello")) rfl htime
  obtain ⟨p, hp, hlen⟩ := ok_of_map (show ((sample (ascii "hello")).stream {} zeros).map
    (fun p => (p.2.toStringPiece ++ (sample (ascii "hello")).fileText p.2.length).length) = .ok 50 by decide +kernel)
  rw [hs₁, Except.ok.injEq] at hp
  subst hp
  exact ⟨th, m, hm, hiff.2 (.inl (hlen ▸ by decide))⟩

/-- An operand of 3953 bytes takes the room of the newline. -/
theorem long_operand_unterminated :
    ((sample (List.replicate 3953 (chr 'x'))).message {} zeros).map (fun p => (p.2.length, p.2.getLast?)) =
      .ok (3999, some (chr ':')) := by
  decide +kernel

end LogRecord

end Zhengqi
