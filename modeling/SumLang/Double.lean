/-! Binary floating-point values of 64 bits, and the rounding of exact decimals to them. -/
namespace SumLang

/-- A value of the 64-bit binary format. A finite value is `significand · 2 ^ exponent` with its
sign, a significand below `2 ^ 53` and an exponent from `-1074` to `971`. -/
inductive Double where
  | finite (negative : Bool) (significand : Nat) (exponent : Int)
  | infinite (negative : Bool)
  | notANumber
deriving DecidableEq, Repr, Inhabited

namespace Double

def powerOfTwo (n : Nat) : Nat := Nat.pow 2 n

def powerOfTen (n : Nat) : Nat := Nat.pow 10 n

def precision : Nat := 53

def minExponent : Int := -1074

def maxExponent : Int := 971

/-- The quotient rounded to the nearest integer, a half to the even one. -/
def roundDiv (num den : Nat) : Nat :=
  let q := num / den
  let r := num % den
  if 2 * r < den then q
  else if den < 2 * r then q + 1
  else q + q % 2

/-- A positive rational times a power of two, as numerator and denominator. -/
def scale (num den : Nat) (e : Int) : Nat × Nat :=
  if 0 ≤ e then (num * powerOfTwo e.toNat, den)
  else (num, den * powerOfTwo (-e).toNat)

/-- The greatest `e` with `2 ^ e ≤ num / den`, for positive `num` and `den`. -/
def binaryExponent (num den : Nat) : Int :=
  let e : Int := (Nat.log2 num : Int) - Nat.log2 den
  let (n, d) := scale num den (-e)
  if d ≤ n then e else e - 1

/-- The value nearest to `num / den`, a tie going to the even significand; what rounds beyond the
largest value is infinite. -/
def ofRatio (negative : Bool) (num den : Nat) : Double :=
  if num = 0 then .finite negative 0 minExponent
  else
    let e := max (binaryExponent num den - (precision - 1 : Nat)) minExponent
    let (n, d) := scale num den (-e)
    let m := roundDiv n d
    let (m, e) := if m = powerOfTwo precision then (powerOfTwo (precision - 1), e + 1)
      else (m, e)
    if maxExponent < e then .infinite negative else .finite negative m e

def ofDecimal (negative : Bool) (digits : Nat) (exponent : Int) : Double :=
  if 0 ≤ exponent then ofRatio negative (digits * powerOfTen exponent.toNat) 1
  else ofRatio negative digits (powerOfTen (-exponent).toNat)

end Double

end SumLang
