import Zhengqi.Buffer
import Zhengqi.Lib.Numeral

/-!
# Text

The constants of the source, and what it prints, as bytes.
-/

namespace Zhengqi

def chr (c : Char) : Byte := c.toNat.toUInt8

def ascii (s : String) : Bytes := s.toList.map chr

/-- `%d` and `%zd` of a number that is not negative. -/
def decimal (n : Nat) : Bytes := (Nat.toDigits 10 n).map chr

theorem length_decimal {n k : Nat} (hk : 0 < k) (h : n < 10 ^ k) : (decimal n).length ≤ k := by
  rw [decimal, List.length_map]
  exact (Nat.length_toDigits_le_iff (by decide) hk).2 h

theorem forall_mem_decimal {p : Byte → Prop} (hp : ∀ d < 10, p (chr (Nat.digitChar d))) {n : Nat} {c : Byte}
    (h : c ∈ decimal n) : p c := by
  obtain ⟨a, ha, rfl⟩ := List.mem_map.1 h
  obtain ⟨d, hd, rfl⟩ := Numeral.mem_toDigits (by decide) ha
  exact hp d hd

/-- The value of the digits. -/
theorem foldl_decimal (n : Nat) : (decimal n).foldl (fun n c => n * 10 + ((c.toNat : Int) - 48)) (0 : Int) = n := by
  have hvalue : ∀ d < 10, ((chr (Nat.digitChar d)).toNat : Int) - 48 = d := by decide
  induction n using Nat.strongRecOn with
  | ind n ih =>
    by_cases hn : n < 10
    · rw [decimal, Nat.toDigits_of_lt_base hn, List.map_singleton, List.foldl_cons, List.foldl_nil, hvalue n hn]
      omega
    · have hrest := ih (n / 10) (by omega)
      rw [decimal] at hrest
      rw [decimal, Nat.toDigits_eq_if (by decide), if_neg hn, List.map_append, List.map_singleton,
        List.foldl_append, hrest, List.foldl_cons, List.foldl_nil, hvalue (n % 10) (by omega)]
      omega

theorem decimal_inj {m n : Nat} (h : decimal m = decimal n) : m = n := by
  have hm := foldl_decimal m
  rw [h, foldl_decimal n] at hm
  exact (Int.natCast_inj.1 hm).symm

/-- The numeral of a number, with its sign. -/
def signed (v : Int) : Bytes := (if v < 0 then [chr '-'] else []) ++ decimal v.natAbs

/-- What `snprintf` leaves in a `char buf[size]`. -/
def snprintf (size : Nat) (text : Bytes) : Bytes := text.take (size - 1)

/-- `%4d`: filled up with blanks. -/
def blankPadded (width : Nat) (v : Int) : Bytes := List.replicate (width - (signed v).length) (chr ' ') ++ signed v

/-- `%02d`: filled up with zeros behind the sign. -/
def zeroPadded (width : Nat) (v : Int) : Bytes :=
  (if v < 0 then [chr '-'] else []) ++ (List.replicate (width - (signed v).length) (chr '0') ++ decimal v.natAbs)

theorem length_zeroPadded {k : Nat} {v : Int} (hk : 0 < k) (h₀ : 0 ≤ v) (h₁ : v.natAbs < 10 ^ k) :
    (zeroPadded k v).length = k := by
  have hle := length_decimal hk h₁
  have hsigned : signed v = decimal v.natAbs := by rw [signed, if_neg (by omega), List.nil_append]
  rw [zeroPadded, if_neg (by omega), List.nil_append, List.length_append, List.length_replicate, hsigned]
  omega

/-! ## A text around one of its characters -/

theorem idxOf_mid {a : Byte} {xs ys : Bytes} (h : a ∉ xs) : (xs ++ a :: ys).idxOf a = xs.length := by
  rw [List.idxOf_append_of_notMem h, List.idxOf_cons_self, Nat.add_zero]

theorem length_ne_mid {a : Byte} {xs ys : Bytes} : xs.length ≠ (xs ++ a :: ys).length := by
  rw [List.length_append, List.length_cons]
  omega

theorem drop_mid {a : Byte} {xs ys : Bytes} : (xs ++ a :: ys).drop (xs.length + 1) = ys := by
  rw [List.drop_append, List.drop_of_length_le (Nat.le_succ _), Nat.add_sub_cancel_left]
  rfl

end Zhengqi
