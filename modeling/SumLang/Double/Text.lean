import SumLang.Double.Shortest

/-! The written form of a double, and its reading. -/
namespace SumLang.Double

structure NumberStyle where
  /-- Least decimal exponent written positionally. -/
  positionalFrom : Int
  /-- First decimal exponent that is too large for positional notation. -/
  positionalBelow : Int
  /-- Least number of digits in an exponent. -/
  exponentWidth : Nat

/-- Positional from `0.0001` to below `10 ^ 16`, always with a decimal; otherwise an exponent with
its sign and two digits. -/
def standard : NumberStyle := ⟨-4, 16, 2⟩

def significantDigits (digits : Nat) : List Char :=
  let ds := Nat.toDigits 10 digits
  match (ds.reverse.dropWhile (· == '0')).reverse with
  | [] => ['0']
  | ds => ds

def zeros (n : Nat) : List Char := List.replicate n '0'

/-- Digits `d₀d₁…` of `d₀.d₁… · 10 ^ e` without an exponent, and with at least one decimal. -/
def positional (ds : List Char) (e : Int) : List Char :=
  if e < 0 then '0' :: '.' :: zeros (-e - 1).toNat ++ ds
  else
    let whole := e.toNat + 1
    if ds.length ≤ whole then ds ++ zeros (whole - ds.length) ++ ['.', '0']
    else ds.take whole ++ '.' :: ds.drop whole

/-- Digits `d₀d₁…` of `d₀.d₁… · 10 ^ e` with an exponent. -/
def scientific (width : Nat) (ds : List Char) (e : Int) : List Char :=
  let mantissa := match ds with
    | [] => ['0']
    | [d] => [d]
    | d :: ds => d :: '.' :: ds
  let power := Nat.toDigits 10 e.natAbs
  mantissa ++ 'e' :: (if e < 0 then '-' else '+') :: zeros (width - power.length) ++ power

def Decimal.write (n : NumberStyle) (d : Decimal) : List Char :=
  let ds := significantDigits d.digits
  let e := d.exponent + (decimalWidth d.digits - 1 : Nat)
  if n.positionalFrom ≤ e && e < n.positionalBelow then positional ds e
  else scientific n.exponentWidth ds e

/-- The text of a value: the fewest digits that read back. -/
def toText : Double → String
  | .finite negative m q =>
    let sign := if negative then "-" else ""
    if m = 0 then sign ++ "0.0"
    else sign ++ String.ofList ((shortest m q).write standard)
  | .infinite negative => if negative then "-inf" else "inf"
  | .notANumber => "nan"

def digitsValue (ds : List Char) : Nat :=
  ds.foldl (fun n d => n * 10 + (d.toNat - '0'.toNat)) 0

def ofLexeme (whole fraction : List Char) : Double :=
  ofDecimal false (digitsValue (whole ++ fraction)) (-(fraction.length : Int))

/-- Reads an exponent mark with its digits; no text at all is the exponent zero. -/
def readExponent : List Char → Option Int
  | [] => some 0
  | 'e' :: '-' :: ds =>
    if ds.all Char.isDigit && ds ≠ [] then some (-(digitsValue ds : Int)) else none
  | 'e' :: '+' :: ds => if ds.all Char.isDigit && ds ≠ [] then some (digitsValue ds : Int) else none
  | 'e' :: ds => if ds.all Char.isDigit && ds ≠ [] then some (digitsValue ds : Int) else none
  | _ => none

def readMagnitude (negative : Bool) (cs : List Char) : Option Double :=
  let whole := cs.takeWhile Char.isDigit
  let rest := cs.dropWhile Char.isDigit
  let (fraction, rest) := match rest with
    | '.' :: cs => (cs.takeWhile Char.isDigit, cs.dropWhile Char.isDigit)
    | cs => ([], cs)
  if whole = [] then none
  else (readExponent rest).map fun e =>
    ofDecimal negative (digitsValue (whole ++ fraction)) (e - fraction.length)

def ofText? (s : String) : Option Double :=
  match s.toList with
  | ['n', 'a', 'n'] => some .notANumber
  | ['i', 'n', 'f'] => some (.infinite false)
  | ['-', 'i', 'n', 'f'] => some (.infinite true)
  | '-' :: cs => readMagnitude true cs
  | cs => readMagnitude false cs

end SumLang.Double
