import Zhengqi.Lib.Rounding
import Zhengqi.Text

/-!
# formatSI

`formatSI` of `utility/LogStream.cpp`. A `double` is the rational it stands for.
-/

namespace Zhengqi

open Rounding

/-- The result of an operation on `double`s. -/
def double (x : ℚ) : ℚ := toPrecision 52 x

/-- `%.2f` with its number of digits, of a number that is not negative. -/
def fixed (digits : Nat) (x : ℚ) : Bytes :=
  let scaled := (roundEven (x * 10 ^ digits)).toNat
  decimal (scaled / 10 ^ digits) ++
    if digits = 0 then [] else chr '.' :: zeroPadded digits ((scaled % 10 ^ digits : Nat) : Int)

/-- One of the calls of `snprintf`: the quotient, and the letter of its unit. -/
def inUnit (n : ℚ) (digits : Nat) (unit : ℚ) (letter : Char) : Bytes := fixed digits (double (n / unit)) ++ [chr letter]

def formatSI (s : Int) : Bytes :=
  let n := double s
  snprintf 64 <|
    if s < 1000 then signed s
    else if s < 9995 then inUnit n 2 (10 ^ 3) 'k'
    else if s < 99950 then inUnit n 1 (10 ^ 3) 'k'
    else if s < 999500 then inUnit n 0 (10 ^ 3) 'k'
    else if s < 9995000 then inUnit n 2 (10 ^ 6) 'M'
    else if s < 99950000 then inUnit n 1 (10 ^ 6) 'M'
    else if s < 999500000 then inUnit n 0 (10 ^ 6) 'M'
    else if s < 9995000000 then inUnit n 2 (10 ^ 9) 'G'
    else if s < 99950000000 then inUnit n 1 (10 ^ 9) 'G'
    else if s < 999500000000 then inUnit n 0 (10 ^ 9) 'G'
    else if s < 9995000000000 then inUnit n 2 (10 ^ 12) 'T'
    else if s < 99950000000000 then inUnit n 1 (10 ^ 12) 'T'
    else if s < 999500000000000 then inUnit n 0 (10 ^ 12) 'T'
    else if s < 9995000000000000 then inUnit n 2 (10 ^ 15) 'P'
    else if s < 99950000000000000 then inUnit n 1 (10 ^ 15) 'P'
    else if s < 999500000000000000 then inUnit n 0 (10 ^ 15) 'P'
    else inUnit n 2 (10 ^ 18) 'E'

end Zhengqi
