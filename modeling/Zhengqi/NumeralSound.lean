import Zhengqi.Lib.Numeral
import Zhengqi.LogStreamSound

/-!
# Numerals of LogStream

What `convert` and `convertHex` write is the numeral of the value: nothing is left over, and reading it
gives the value back.
-/

namespace Zhengqi

/-! ## Reading -/

/-- The value of a digit, in upper case. -/
def digitValue (base : Nat) (b : Byte) : Option Nat := (List.range base).find? fun d => digitsHex[d]? = some b

/-- The number that a text stands for. -/
def readNumeral (base : Nat) : Bytes → Option Int
  | [] => none
  | b :: ds =>
    if b = chr '-' then if ds = [] then none else (Numeral.read base (digitValue base) ds).map fun n => -(n : Int)
    else (Numeral.read base (digitValue base) (b :: ds)).map fun n => (n : Int)

/-- The text is the numeral of `v`, in the one way it is written. -/
structure IsNumeral (base : Nat) (v : Int) (text : Bytes) : Prop where
  sign : text.head? = some (chr '-') ↔ v < 0
  no_leading_zero : ∀ s ds, text = s ++ chr '0' :: ds → s = [] ∨ s = [chr '-'] → v = 0 ∧ s = [] ∧ ds = []
  reads : readNumeral base text = some v

theorem readNumeral_neg {base : Nat} {ds : Bytes} (h : ds ≠ []) :
    readNumeral base (chr '-' :: ds) = (Numeral.read base (digitValue base) ds).map fun n => -(n : Int) := by
  rw [readNumeral, if_pos rfl, if_neg h]

theorem readNumeral_of_digit {base : Nat} {b : Byte} {ds : Bytes} (h : b ≠ chr '-') :
    readNumeral base (b :: ds) = (Numeral.read base (digitValue base) (b :: ds)).map fun n => (n : Int) := by
  rw [readNumeral, if_neg h]

/-! ## Digits -/

/-- An alphabet that writes the digits as `digitsHex` has them. -/
structure Alphabet (base : Nat) (f : Char → Byte) : Prop where
  one_lt : 1 < base
  value : ∀ d < base, digitValue base (f d.digitChar) = some d
  not_sign : ∀ d < base, f d.digitChar ≠ chr '-'
  zero : f '0' = chr '0'

theorem alphabet_decimal : Alphabet 10 chr where
  one_lt := by decide
  value := by decide
  not_sign := by decide
  zero := rfl

theorem alphabet_hexadecimal : Alphabet 16 (fun c => chr c.toUpper) where
  one_lt := by decide
  value := by decide
  not_sign := by decide
  zero := by decide

namespace Alphabet

variable {base : Nat} {f : Char → Byte}

theorem eq_zero (ha : Alphabet base f) {d : Nat} (hd : d < base) (h : f d.digitChar = chr '0') : d = 0 := by
  have hvalue := ha.value d hd
  have hzero := ha.value 0 (Nat.lt_trans Nat.zero_lt_one ha.one_lt)
  rw [h] at hvalue
  rw [show Nat.digitChar 0 = '0' from rfl, ha.zero, hvalue] at hzero
  exact Option.some.inj hzero

/-- The digits of a number begin with one that is not zero, unless the number is. -/
theorem digits_cases (ha : Alphabet base f) (n : Nat) :
    (n = 0 ∧ (Nat.toDigits base n).map f = [chr '0']) ∨
      ∃ b ds, (Nat.toDigits base n).map f = b :: ds ∧ n ≠ 0 ∧ b ≠ chr '0' ∧ b ≠ chr '-' := by
  by_cases hn : n = 0
  · subst hn
    refine .inl ⟨rfl, ?_⟩
    rw [Nat.toDigits_of_lt_base (Nat.lt_trans Nat.zero_lt_one ha.one_lt)]
    exact congrArg (fun b => [b]) ha.zero
  · obtain ⟨d, hd, hlt, hhead⟩ := Numeral.head_toDigits ha.one_lt hn
    obtain ⟨ds, hds⟩ := List.head?_eq_some_iff.1 hhead
    refine .inr ⟨f d.digitChar, ds.map f, ?_, hn, fun h => hd (ha.eq_zero hlt h), ha.not_sign d hlt⟩
    rw [hds, List.map_cons]

theorem read_digits (ha : Alphabet base f) (n : Nat) :
    Numeral.read base (digitValue base) ((Nat.toDigits base n).map f) = some n :=
  Numeral.read_toDigits ha.one_lt ha.value n

theorem isNumeral_natCast (ha : Alphabet base f) (n : Nat) : IsNumeral base n ((Nat.toDigits base n).map f) := by
  have hread := ha.read_digits n
  have hsign : chr '0' ≠ chr '-' := by decide
  rcases ha.digits_cases n with ⟨rfl, htext⟩ | ⟨b, ds, htext, hn, hb, hb'⟩
  · rw [htext] at hread ⊢
    refine ⟨by simp [hsign], ?_, ?_⟩
    · intro s es hes hs
      cases s <;> simp_all
    · rw [readNumeral_of_digit hsign, hread]
      rfl
  · rw [htext] at hread ⊢
    refine ⟨by simp [hb'], ?_, ?_⟩
    · intro s es hes hs
      rcases hs with rfl | rfl
      · exact absurd (List.cons.inj hes).1 hb
      · exact absurd (List.cons.inj hes).1 hb'
    · rw [readNumeral_of_digit hb', hread]
      rfl

theorem isNumeral_neg (ha : Alphabet base f) {n : Nat} (hn : n ≠ 0) :
    IsNumeral base (-n) (chr '-' :: (Nat.toDigits base n).map f) := by
  have hread := ha.read_digits n
  rcases ha.digits_cases n with ⟨h₀, -⟩ | ⟨b, ds, htext, -, hb, hb'⟩
  · exact absurd h₀ hn
  · rw [htext] at hread ⊢
    refine ⟨by simp; omega, ?_, ?_⟩
    · intro s es hes hs
      rcases hs with rfl | rfl
      · exact absurd (List.cons.inj hes).1 (by decide)
      · exact absurd (List.cons.inj (List.cons.inj hes).2).1 hb
    · rw [readNumeral_neg (List.cons_ne_nil b ds), hread]
      rfl

end Alphabet

theorem isNumeral_signed (v : Int) : IsNumeral 10 v (signed v) := by
  by_cases hv : v < 0
  · have hneg := alphabet_decimal.isNumeral_neg (n := v.natAbs) (by omega)
    rw [signed, if_pos hv, decimal]
    rwa [show -(v.natAbs : Int) = v by omega] at hneg
  · have hpos := alphabet_decimal.isNumeral_natCast v.natAbs
    rw [signed, if_neg hv, decimal]
    rwa [show (v.natAbs : Int) = v by omega] at hpos

/-! ## Conversions -/

/-- The types that `convert` is instantiated at. -/
inductive Integer
  | int (v : Int32)
  | unsigned (v : UInt32)
  | long (v : Int64)
  | unsignedLong (v : UInt64)
  | longLong (v : Int64)
  | unsignedLongLong (v : UInt64)

namespace Integer

def value : Integer → Int
  | .int v => v.toInt
  | .unsigned v => v.toNat
  | .long v => v.toInt
  | .unsignedLong v => v.toNat
  | .longLong v => v.toInt
  | .unsignedLongLong v => v.toNat

theorem le_value (v : Integer) : -2 ^ 63 ≤ v.value := by
  cases v with
  | int v => have := v.le_toInt; rw [value]; omega
  | unsigned v => rw [value]; omega
  | long v => exact v.le_toInt
  | unsignedLong v => rw [value]; omega
  | longLong v => exact v.le_toInt
  | unsignedLongLong v => rw [value]; omega

theorem value_lt (v : Integer) : v.value < 2 ^ 64 := by
  cases v with
  | int v => have := v.toInt_lt; rw [value]; omega
  | unsigned v => have := v.toNat_lt; rw [value]; omega
  | long v => have := v.toInt_lt; rw [value]; omega
  | unsignedLong v => have := v.toNat_lt; rw [value]; omega
  | longLong v => have := v.toInt_lt; rw [value]; omega
  | unsignedLongLong v => have := v.toNat_lt; rw [value]; omega

end Integer

/-- A conversion into cells with room for it writes the numeral, and answers its length. -/
theorem conversions_exact {size buf : Nat} (c : Cells size) (room : buf + 20 < size) :
    (∀ v : Integer, ∃ text c', convert c buf v.value = .ok (text.length, c') ∧ c.Wrote buf (text ++ [0]) c' ∧
      text.length ≤ 20 ∧ IsNumeral 10 v.value text) ∧
    ∀ p : UInt64, ∃ text c', convertHex c buf p.toNat = .ok (text.length, c') ∧ c.Wrote buf (text ++ [0]) c' ∧
      text.length ≤ 16 ∧ IsNumeral 16 p.toNat text := by
  constructor
  · intro v
    have hlen := length_signed v.le_value v.value_lt
    obtain ⟨c', hc', hwrote⟩ := convert_ok (c := c) (show buf + (signed v.value).length < size by omega)
    exact ⟨_, c', hc', hwrote, hlen, isNumeral_signed v.value⟩
  · intro p
    have hlen := length_hexadecimal p
    obtain ⟨c', hc', hwrote⟩ := convertHex_ok (c := c) (show buf + (hexadecimal p.toNat).length < size by omega)
    exact ⟨_, c', hc', hwrote, hlen, alphabet_hexadecimal.isNumeral_natCast p.toNat⟩

/-- The least `long`, into the buffer of a stream. -/
theorem conversions_exact_min : ∃ text c',
    convert (⟨List.replicate 48 0, 0, rfl, by decide⟩ : Cells 48) 0 (Integer.long Int64.minValue).value =
      .ok (text.length, c') ∧
      text.length ≤ 20 ∧ IsNumeral 10 (-9223372036854775808) text := by
  obtain ⟨text, c', hc', -, hlen, hnum⟩ :=
    (conversions_exact (⟨List.replicate 48 0, 0, rfl, by decide⟩ : Cells 48) (show 0 + 20 < 48 by decide)).1
      (.long Int64.minValue)
  exact ⟨text, c', hc', hlen, hnum⟩

end Zhengqi
