import Mathlib.Algebra.Group.Int.Defs
import Zhengqi.LogOperators

/-!
# LogStream writes operands whole

Every store of the operators is inside `data_`, and what lies before `cur_` is the text of the
operands that were accepted.
-/

namespace Zhengqi

open Run Slice

/-! ## Stores -/

namespace Cells

variable {size : Nat} {c c' c'' : Cells size} {i : Nat} {d e : Bytes}

/-- The bytes `d` were stored from `i` on. -/
structure Wrote (c : Cells size) (i : Nat) (d : Bytes) (c' : Cells size) : Prop where
  data : c'.data = overwrite c.data i d
  cur : c'.cur = c.cur

theorem write_ok (h : i + d.length ≤ size) : ∃ c', c.write i d = .ok c' ∧ c.Wrote i d c' := by
  rw [write, dif_pos h]
  exact ⟨_, rfl, rfl, rfl⟩

theorem store_ok {b : Byte} (h : i < size) : ∃ c', c.store i b = .ok c' ∧ c.Wrote i [b] c' := write_ok h

theorem Wrote.append (h : c.Wrote i d c') (h' : c'.Wrote (i + d.length) e c'') (hi : i + d.length ≤ size) :
    c.Wrote i (d ++ e) c'' := by
  constructor
  · rw [h'.data, h.data, overwrite_overwrite_end (by rwa [c.length_data])]
  · rw [h'.cur, h.cur]

theorem Wrote.over (h : c.Wrote i d c') (h' : c'.Wrote i e c'') (hi : i ≤ size) (he : e.length ≤ d.length) :
    c.Wrote i (e ++ d.drop e.length) c'' := by
  constructor
  · rw [h'.data, h.data, overwrite_overwrite_start (by rwa [c.length_data]) he]
  · rw [h'.cur, h.cur]

theorem Wrote.slice (h : c.Wrote i (d ++ e) c') (hi : i + d.length + e.length ≤ size) :
    slice c'.data i (i + d.length) = d := by
  have hlen : (d ++ e).length = d.length + e.length := List.length_append
  have hall := slice_overwrite_self (l := c.data) (d := d ++ e) (i := i) (by rw [c.length_data, hlen]; omega)
  rw [← h.data] at hall
  rw [← take_slice (j := i + (d ++ e).length) (by omega), hall, List.take_left]

theorem Wrote.add (h : c.Wrote c.cur (d ++ e) c') (hi : c.cur + d.length + e.length ≤ size) :
    ∃ c'', c'.add d.length = .ok c'' ∧ c''.cur = c.cur + d.length ∧ c''.toStringPiece = c.toStringPiece ++ d := by
  have hcur := h.cur
  rw [Cells.add, dif_pos (by omega)]
  refine ⟨_, rfl, congrArg (· + d.length) hcur, ?_⟩
  show Slice.slice c'.data 0 (c'.cur + d.length) = _
  rw [toStringPiece, hcur, ← slice_append_slice (Nat.zero_le c.cur) (Nat.le_add_right _ _), h.slice hi, h.data,
    slice_overwrite_of_le (Nat.le_refl _) (by rw [c.length_data]; exact c.cur_le)]

/-- A text that is in the cells backwards, and the NUL behind it. -/
theorem Wrote.reverse (h : c.Wrote i (d ++ [0]) c') (hi : i + d.length < size) :
    ∃ c'', c'.reverse i (i + d.length) = .ok c'' ∧ c.Wrote i (d.reverse ++ [0]) c'' := by
  have hslice := h.slice (show i + d.length + [0].length ≤ size from hi)
  obtain ⟨c'', hc'', hwrote⟩ := write_ok (c := c') (i := i) (d := d.reverse) (by rw [List.length_reverse]; omega)
  refine ⟨c'', ?_, ?_⟩
  · rw [Cells.reverse, hslice, hc'']
  · have hover := h.over hwrote (by omega) (by simp)
    rwa [List.length_reverse, List.drop_left] at hover

theorem length_toStringPiece (c : Cells size) : c.toStringPiece.length = c.cur := by
  rw [toStringPiece, length_slice (c.length_data.symm ▸ c.cur_le), Nat.sub_zero]

/-- The buffer without its cells. -/
def view (c : Cells size) : FixedBuffer size := ⟨c.toStringPiece, c.length_toStringPiece ▸ c.cur_le⟩

theorem avail_view (c : Cells size) : c.view.avail = c.avail := by
  rw [FixedBuffer.avail, FixedBuffer.length, view, length_toStringPiece, avail]

theorem append_view (c : Cells size) (buf : Bytes) : ∃ c', c.append buf = .ok c' ∧ c'.view = c.view.append buf := by
  unfold append
  split
  · rename_i hlt
    rw [avail] at hlt
    obtain ⟨c₁, hc₁, hw⟩ := write_ok (c := c) (i := c.cur) (d := buf) (by omega)
    rw [← List.append_nil buf] at hw
    obtain ⟨c', hc', -, hpiece⟩ := hw.add (show c.cur + buf.length + 0 ≤ size by omega)
    rw [hc₁, ok_bind]
    refine ⟨c', hc', ?_⟩
    rw [FixedBuffer.append, dif_pos (by rw [avail_view]; exact hlt)]
    simp only [view, hpiece]
  · rename_i hge
    exact ⟨c, rfl, (FixedBuffer.append_of_le (by rw [avail_view]; omega)).symm⟩

end Cells

/-! ## Conversions -/

/-- The digits as the loop leaves them. -/
def digitsOf (base : Nat) (g : Char → Byte) (n : Nat) : Bytes := ((Nat.toDigits base n).map g).reverse

theorem digitsOf_eq {base : Nat} (hb : 1 < base) (g : Char → Byte) (n : Nat) :
    digitsOf base g n = g (n % base).digitChar :: if n / base = 0 then [] else digitsOf base g (n / base) := by
  rw [digitsOf, Nat.toDigits_eq_if hb]
  by_cases hn : n < base
  · rw [if_pos hn, if_pos (Nat.div_eq_of_lt hn), Nat.mod_eq_of_lt hn]
    rfl
  · rw [if_neg hn, if_neg (by rw [Nat.div_eq_zero_iff]; omega), List.map_append, List.reverse_append]
    rfl

theorem putDigits_ok {size : Nat} {s : Int} (base : Nat) (digit : Int → Except Fault Byte) (g : Char → Byte)
    (hb : 1 < (base : Int))
    (hs : s = 1 ∨ s = -1) (hdigit : ∀ d < base, digit (s * d) = .ok (g d.digitChar)) (n : Nat) :
    ∀ (p : Nat) (c : Cells size), p + (digitsOf base g n).length ≤ size →
      ∃ c', putDigits base hb digit (s * n) p c = .ok (p + (digitsOf base g n).length, c') ∧
        c.Wrote p (digitsOf base g n) c' := by
  induction n using Nat.strongRecOn with
  | ind n ih =>
    intro p c hp
    have hmod : (s * n).tmod base = s * (n % base : Nat) := by
      rcases hs with rfl | rfl
      · rw [Int.one_mul, Int.one_mul, Int.ofNat_tmod]
      · rw [Int.neg_one_mul, Int.neg_one_mul, Int.neg_tmod, Int.ofNat_tmod]
    have hdiv : (s * n).tdiv base = s * (n / base : Nat) := by
      rcases hs with rfl | rfl
      · rw [Int.one_mul, Int.one_mul, Int.ofNat_tdiv]
      · rw [Int.neg_one_mul, Int.neg_one_mul, Int.neg_tdiv, Int.ofNat_tdiv]
    have hzero : s * (n / base : Nat) = 0 ↔ n / base = 0 := by
      rcases hs with rfl | rfl <;> omega
    rw [digitsOf_eq (by omega)] at hp ⊢
    obtain ⟨c₁, hc₁, hwrote⟩ := Cells.store_ok (c := c) (i := p) (b := g (n % base).digitChar)
      (by rw [List.length_cons] at hp; omega)
    rw [putDigits, hmod, hdiv, hdigit _ (Nat.mod_lt n (by omega)), ok_bind, hc₁, ok_bind]
    by_cases hn : n / base = 0
    · rw [dif_pos (hzero.2 hn), if_pos hn]
      exact ⟨c₁, rfl, hwrote⟩
    · rw [if_neg hn, List.length_cons] at hp
      rw [dif_neg (mt hzero.1 hn), if_neg hn]
      have hpos : 0 < n := Nat.pos_of_ne_zero fun h₀ => hn (h₀ ▸ Nat.zero_div base)
      obtain ⟨c', hc', hrest⟩ := ih (n / base) (Nat.div_lt_self hpos (by omega)) (p + 1) c₁ (by omega)
      refine ⟨c', ?_, hwrote.append hrest (by show p + 1 ≤ size; omega)⟩
      rw [hc', List.length_cons, Nat.add_assoc, Nat.add_comm 1]

/-! ## Texts -/

def hexadecimal (n : Nat) : Bytes := (Nat.toDigits 16 n).map fun c => chr c.toUpper

theorem length_hexadecimal (p : UInt64) : (hexadecimal p.toNat).length ≤ 16 := by
  rw [hexadecimal, List.length_map]
  exact (Nat.length_toDigits_le_iff (by decide) (by decide)).2 p.toNat_lt

theorem zero_digit {s : Int} (hs : s = 1 ∨ s = -1) : ∀ d < 10, zero (s * (d : Nat)) = .ok (chr d.digitChar) := by
  rcases hs with rfl | rfl
  · decide
  · decide

theorem hex_digit : ∀ d < 16, get digitsHex ((1 * (d : Nat) : Int)).toNat = .ok (chr d.digitChar.toUpper) := by
  decide

/-- The text that the loop leaves backwards is ended and turned. -/
theorem turn_ok {size buf p : Nat} {c c' : Cells size} {d : Bytes} (hw : c.Wrote buf d c') (hp : p = buf + d.length)
    (h : buf + d.length < size) : ∃ c'', (do
      let c ← c'.store p 0
      let c ← c.reverse buf p
      pure (p - buf, c)) = Except.ok (d.length, c'') ∧ c.Wrote buf (d.reverse ++ [0]) c'' := by
  subst hp
  obtain ⟨c₂, hc₂, hw₂⟩ := Cells.store_ok (c := c') (b := 0) h
  obtain ⟨c₃, hc₃, hw₃⟩ := (hw.append hw₂ (by omega)).reverse h
  refine ⟨c₃, ?_, hw₃⟩
  rw [hc₂, ok_bind, hc₃, ok_bind, Nat.add_sub_cancel_left]
  rfl

theorem convertHex_ok {size buf n : Nat} {c : Cells size} (h : buf + (hexadecimal n).length < size) :
    ∃ c', convertHex c buf n = .ok ((hexadecimal n).length, c') ∧ c.Wrote buf (hexadecimal n ++ [0]) c' := by
  have hrev : (digitsOf 16 (fun c => chr c.toUpper) n).reverse = hexadecimal n := List.reverse_reverse _
  rw [← hrev, List.length_reverse] at h ⊢
  obtain ⟨c₁, hc₁, hw₁⟩ := putDigits_ok 16 (fun lsd => get digitsHex lsd.toNat) (fun c => chr c.toUpper) (by decide)
    (.inl rfl) hex_digit n buf c
    (Nat.le_of_lt h)
  have hc₁ : putDigits 16 (by decide) (fun lsd => get digitsHex lsd.toNat) n buf c = .ok (_, c₁) := Int.one_mul n ▸ hc₁
  rw [convertHex, hc₁]
  exact turn_ok hw₁ rfl h

theorem convert_ok {size buf : Nat} {c : Cells size} {v : Int} (h : buf + (signed v).length < size) :
    ∃ c', convert c buf v = .ok ((signed v).length, c') ∧ c.Wrote buf (signed v ++ [0]) c' := by
  have hrev : (digitsOf 10 chr v.natAbs).reverse = decimal v.natAbs := List.reverse_reverse _
  by_cases hv : v < 0
  · have hsigned : signed v = (digitsOf 10 chr v.natAbs ++ [chr '-']).reverse := by
      rw [signed, if_pos hv, List.reverse_append, hrev]
      rfl
    have hneg : -1 * (v.natAbs : Int) = v := by omega
    rw [hsigned, List.length_reverse] at h ⊢
    have hroom : buf + (digitsOf 10 chr v.natAbs).length < size := by
      rw [List.length_append] at h
      omega
    obtain ⟨c₁, hc₁, hw₁⟩ := putDigits_ok 10 zero chr (by decide) (.inr rfl) (zero_digit (.inr rfl)) v.natAbs buf c
      (Nat.le_of_lt hroom)
    have hc₁ : putDigits 10 (by decide) zero v buf c = .ok (_, c₁) := hneg ▸ hc₁
    obtain ⟨c₂, hc₂, hw₂⟩ := Cells.store_ok (c := c₁) (b := chr '-') hroom
    rw [convert, hc₁, ok_bind]
    dsimp only
    rw [if_pos hv, hc₂]
    exact turn_ok (hw₁.append hw₂ (Nat.le_of_lt hroom)) (by rw [List.length_append]; rfl) h
  · have hsigned : signed v = (digitsOf 10 chr v.natAbs).reverse := by
      rw [signed, if_neg hv, hrev]
      rfl
    have hpos : 1 * (v.natAbs : Int) = v := by omega
    rw [hsigned, List.length_reverse] at h ⊢
    obtain ⟨c₁, hc₁, hw₁⟩ := putDigits_ok 10 zero chr (by decide) (.inl rfl) (zero_digit (.inl rfl)) v.natAbs
      buf c (Nat.le_of_lt h)
    have hc₁ : putDigits 10 (by decide) zero v buf c = .ok (_, c₁) := hpos ▸ hc₁
    rw [convert, hc₁, ok_bind]
    dsimp only
    rw [if_neg hv]
    exact turn_ok hw₁ rfl h

/-! ## Operands -/

namespace Operand

def text : Operand → Bytes
  | .bool v => if v then ascii "1" else ascii "0"
  | .char v => [v]
  | .short v => signed v.toInt
  | .unsignedShort v => signed v.toNat
  | .int v => signed v.toInt
  | .unsignedInt v => signed v.toNat
  | .long v => signed v.toInt
  | .unsignedLong v => signed v.toNat
  | .longLong v => signed v.toInt
  | .unsignedLongLong v => signed v.toNat
  | .pointer p => ascii "0x" ++ hexadecimal p.toNat
  | .cString (some str) => LogStream.cStr str
  | .cString none => ascii "(null)"
  | .string v => v
  | .stringPiece v => v
  | .buffer v => v.toStringPiece

def isNumeric : Operand → Bool
  | .bool _ | .char _ | .cString _ | .string _ | .stringPiece _ | .buffer _ => false
  | _ => true

/-- The operand is written if so much is left. -/
def Accepted (o : Operand) (avail : Nat) : Prop :=
  if o.isNumeric then kMaxNumericSize ≤ avail else o.text.length < avail

instance (o : Operand) (avail : Nat) : Decidable (o.Accepted avail) :=
  inferInstanceAs (Decidable (if o.isNumeric then kMaxNumericSize ≤ avail else o.text.length < avail))

end Operand

/-- One step: the operand is appended whole, or nothing changes. -/
structure Puts (s : LogStream) (text : Bytes) (ok : Prop) (s' : LogStream) : Prop where
  cur : s'.cur < kSmallBuffer
  yes : ok → s'.toStringPiece = s.toStringPiece ++ text
  no : ¬ ok → s'.toStringPiece = s.toStringPiece

namespace LogStream

variable {s : LogStream} (h : s.cur < kSmallBuffer)
include h

theorem append_puts (buf : Bytes) : ∃ s', s.append buf = .ok s' ∧ Puts s buf (buf.length < s.avail) s' := by
  obtain ⟨s', hs', hview⟩ := Cells.append_view s buf
  have hpiece : s'.toStringPiece = (s.view.append buf).data := congrArg FixedBuffer.data hview
  have hcur := s'.length_toStringPiece
  refine ⟨s', hs', ?_⟩
  by_cases hlt : buf.length < s.avail
  · rw [FixedBuffer.data_append (by rwa [Cells.avail_view])] at hpiece
    have hlen : s'.cur = s.cur + buf.length := by
      rw [← hcur, hpiece, List.length_append, Cells.view, s.length_toStringPiece]
    rw [Cells.avail] at hlt
    exact ⟨by omega, fun _ => hpiece, fun hn => absurd hlt hn⟩
  · rw [FixedBuffer.append_of_le (by rw [Cells.avail_view]; omega)] at hpiece
    have hlen : s'.cur = s.cur := by
      rw [← hcur, hpiece, Cells.view, s.length_toStringPiece]
    exact ⟨by omega, fun h => absurd h hlt, fun _ => hpiece⟩

theorem formatInteger_puts {v : Int} (hv : (signed v).length ≤ 20) :
    ∃ s', s.formatInteger v = .ok s' ∧ Puts s (signed v) (kMaxNumericSize ≤ s.avail) s' := by
  unfold formatInteger
  split
  · rename_i hle
    rw [Cells.avail, kMaxNumericSize] at hle
    obtain ⟨c, hc, hw⟩ := convert_ok (c := s) (show s.cur + (signed v).length < kSmallBuffer by omega)
    obtain ⟨c', hc', hcur, hpiece⟩ := hw.add (show s.cur + (signed v).length + 1 ≤ kSmallBuffer by omega)
    rw [hc, ok_bind]
    exact ⟨c', hc', by omega, fun _ => hpiece, fun hn => absurd hle hn⟩
  · rename_i hgt
    exact ⟨s, rfl, h, fun hle => absurd hle hgt, fun _ => rfl⟩

theorem putPointer_puts (p : UInt64) :
    ∃ s', s.putPointer p = .ok s' ∧ Puts s (ascii "0x" ++ hexadecimal p.toNat) (kMaxNumericSize ≤ s.avail) s' := by
  have hlen := length_hexadecimal p
  have hall : (ascii "0x" ++ hexadecimal p.toNat).length = (hexadecimal p.toNat).length + 2 := by
    rw [List.length_append, Nat.add_comm]
    rfl
  unfold putPointer
  split
  · rename_i hle
    rw [Cells.avail, kMaxNumericSize] at hle
    obtain ⟨c₁, hc₁, hw₁⟩ := Cells.store_ok (c := s) (i := s.cur) (b := chr '0') (by omega)
    obtain ⟨c₂, hc₂, hw₂⟩ := Cells.store_ok (c := c₁) (i := s.cur + 1) (b := chr 'x') (by omega)
    obtain ⟨c₃, hc₃, hw₃⟩ := convertHex_ok (c := c₂)
      (show s.cur + 2 + (hexadecimal p.toNat).length < kSmallBuffer by omega)
    have hw : s.Wrote s.cur ((ascii "0x" ++ hexadecimal p.toNat) ++ [0]) c₃ := by
      rw [List.append_assoc]
      exact (hw₁.append hw₂ (by show s.cur + 1 ≤ kSmallBuffer; omega)).append hw₃
        (by show s.cur + 2 ≤ kSmallBuffer; omega)
    obtain ⟨c', hc', hcur, hpiece⟩ := hw.add (by rw [hall]; show s.cur + (_ + 2) + 1 ≤ kSmallBuffer; omega)
    rw [hall] at hc' hcur
    dsimp only
    rw [hc₁, ok_bind, hc₂, ok_bind, hc₃, ok_bind]
    exact ⟨c', hc', by omega, fun _ => hpiece, fun hn => absurd hle hn⟩
  · rename_i hgt
    exact ⟨s, rfl, h, fun hle => absurd hle hgt, fun _ => rfl⟩

end LogStream

/-- No integer type has a number with more than 20 characters. -/
theorem length_signed {v : Int} (h₀ : -2 ^ 63 ≤ v) (h₁ : v < 2 ^ 64) : (signed v).length ≤ 20 := by
  rw [signed, List.length_append]
  split
  · have := length_decimal (n := v.natAbs) (k := 19) (by decide) (by omega)
    rw [List.length_singleton]
    omega
  · have := length_decimal (n := v.natAbs) (k := 20) (by decide) (by omega)
    rw [List.length_nil]
    omega

theorem put_puts {s : LogStream} (h : s.cur < kSmallBuffer) (o : Operand) :
    ∃ s', s.put o = .ok s' ∧ Puts s o.text (o.Accepted s.avail) s' := by
  have hint : ∀ {v : Int}, -2 ^ 63 ≤ v → v < 2 ^ 64 → ∃ s', s.formatInteger v = .ok s' ∧ Puts s (signed v)
      (kMaxNumericSize ≤ s.avail) s' :=
    fun h₀ h₁ => LogStream.formatInteger_puts h (length_signed h₀ h₁)
  cases o with
  | bool v => exact LogStream.append_puts h _
  | char v => exact LogStream.append_puts h _
  | short v => exact hint (by have := v.le_toInt; omega) (by have := v.toInt_lt; omega)
  | unsignedShort v => exact hint (by omega) (by have := v.toNat_lt; omega)
  | int v => exact hint (by have := v.le_toInt; omega) (by have := v.toInt_lt; omega)
  | unsignedInt v => exact hint (by omega) (by have := v.toNat_lt; omega)
  | long v => exact hint (by have := v.le_toInt; omega) (by have := v.toInt_lt; omega)
  | unsignedLong v => exact hint (by omega) (by have := v.toNat_lt; omega)
  | longLong v => exact hint (by have := v.le_toInt; omega) (by have := v.toInt_lt; omega)
  | unsignedLongLong v => exact hint (by omega) (by have := v.toNat_lt; omega)
  | pointer p => exact LogStream.putPointer_puts h p
  | cString str =>
    cases str with
    | none => exact LogStream.append_puts h _
    | some str => exact LogStream.append_puts h _
  | string v => exact LogStream.append_puts h v
  | stringPiece v => exact LogStream.append_puts h v
  | buffer v => exact LogStream.append_puts h _

/-! ## Whole logs -/

/-- The operands that are accepted from a stream with `n` bytes on. -/
def accepted : Nat → List Operand → List Operand
  | _, [] => []
  | n, o :: os => if o.Accepted (kSmallBuffer - n) then o :: accepted (n + o.text.length) os else accepted n os

theorem putAll_ok (os : List Operand) : ∀ {s : LogStream}, s.cur < kSmallBuffer → ∃ s', s.putAll os = .ok s' ∧
    s'.cur < kSmallBuffer ∧ s'.toStringPiece = s.toStringPiece ++ (accepted s.cur os).flatMap Operand.text := by
  induction os with
  | nil =>
    intro s h
    exact ⟨s, rfl, h, (List.append_nil _).symm⟩
  | cons o os ih =>
    intro s h
    obtain ⟨s₁, hs₁, hputs⟩ := put_puts h o
    obtain ⟨s', hs', hcur, hpiece⟩ := ih hputs.cur
    refine ⟨s', ?_, hcur, ?_⟩
    · rw [LogStream.putAll, List.foldlM_cons, hs₁, ok_bind]
      exact hs'
    · rw [hpiece, ← s₁.length_toStringPiece, accepted]
      by_cases ho : o.Accepted (kSmallBuffer - s.cur)
      · rw [hputs.yes ho, if_pos ho, List.length_append, s.length_toStringPiece, List.flatMap_cons, List.append_assoc]
      · rw [hputs.no ho, if_neg ho, s.length_toStringPiece]

/-- Operands are written whole or not at all, inside the buffer. -/
theorem operands_whole {s : LogStream} (h : s.cur = 0) (os : List Operand) : ∃ s', s.putAll os = .ok s' ∧
    s'.length ≤ kSmallBuffer - 1 ∧ s'.toStringPiece = (accepted 0 os).flatMap Operand.text ∧
    ∃ s'', s'.debugString = .ok s'' ∧ s''.toStringPiece = s'.toStringPiece := by
  obtain ⟨s', hs', hcur, hpiece⟩ := putAll_ok os (s := s) (by rw [h]; decide)
  have hempty : s.toStringPiece = [] := by rw [Cells.toStringPiece, h, slice_self]
  rw [hempty, h, List.nil_append] at hpiece
  refine ⟨s', hs', Nat.le_sub_one_of_lt hcur, hpiece, ?_⟩
  obtain ⟨s'', hs'', hw⟩ := Cells.store_ok (c := s') (b := 0) hcur
  refine ⟨s'', hs'', ?_⟩
  rw [Cells.toStringPiece, hw.cur, hw.data, slice_overwrite_of_le (Nat.le_refl _)
    (by rw [s'.length_data]; exact s'.cur_le)]
  rfl

/-- A stream whose memory is filled with zeros. -/
def zeros : LogStream := ⟨List.replicate kSmallBuffer 0, 0, List.length_replicate, Nat.zero_le _⟩

theorem operands_whole_mixed : ∃ s', zeros.putAll [.int (-5), .cString none, .pointer 48879, .bool true] = .ok s' ∧
    s'.toStringPiece = ascii "-5(null)0xBEEF1" := by
  obtain ⟨s', hs', -, hpiece, -⟩ :=
    operands_whole (s := zeros) rfl [.int (-5), .cString none, .pointer 48879, .bool true]
  exact ⟨s', hs', hpiece.trans (by decide +kernel)⟩

end Zhengqi
