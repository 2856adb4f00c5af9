import SumLang.Double

/-! The shortest decimal that rounds to a given double. -/
namespace SumLang.Double

structure Decimal where
  digits : Nat
  exponent : Int
deriving DecidableEq, Repr

/-- The reals that round to `m · 2 ^ q`, in units of `2 ^ (q - 2)`: the two midpoints to the
neighbours, which belong to them when the significand is even. Below a power of two the lower
neighbour is half as far. -/
structure Basin where
  low : Nat
  high : Nat
  closed : Bool

def basin (m : Nat) (q : Int) : Basin :=
  { low := if m = powerOfTwo (precision - 1) ∧ minExponent < q then 4 * m - 1 else 4 * m - 2
    high := 4 * m + 2
    closed := m % 2 = 0 }

def Basin.contains (b : Basin) (num den : Nat) : Bool :=
  if b.closed then b.low * den ≤ num && num ≤ b.high * den
  else b.low * den < num && num < b.high * den

def decimalWidth (n : Nat) : Nat :=
  (Nat.toDigits 10 n).length

/-- The greatest `e` with `10 ^ e ≤ num / den`, for positive `num` and `den`. -/
def decimalExponent (num den : Nat) : Int :=
  if den ≤ num then (decimalWidth (num / den) : Int) - 1
  else
    let w := decimalWidth (den / num)
    if den ≤ num * powerOfTen (w - 1) then -((w - 1 : Nat) : Int) else -(w : Int)

/-- The multiple of `10 ^ k` nearest to `num / den` of the two around it that lie in the basin, an
exact tie going to the even one. `num / den` counts units of `2 ^ (q - 2)`, and `unit` is the power
of ten in that unit. -/
def gridPoint (b : Basin) (num den : Nat) (unit : Nat × Nat) : Option Nat :=
  let (un, ud) := unit
  let below := num * ud / (den * un)
  let r := num * ud % (den * un)
  let inside (c : Nat) : Bool := b.contains (c * un) ud
  match inside below, inside (below + 1) with
  | false, false => none
  | true, false => some below
  | false, true => some (below + 1)
  | true, true =>
    if 2 * r < den * un then some below
    else if den * un < 2 * r then some (below + 1)
    else some (below + below % 2)

/-- The power `10 ^ k` counted in units of `2 ^ (q - 2)`. -/
def powerOfTenIn (q k : Int) : Nat × Nat :=
  let (n, d) := if 0 ≤ k then (powerOfTen k.toNat, 1) else (1, powerOfTen (-k).toNat)
  scale n d (2 - q)

/-- Tries decimal grids from the coarsest on; `finer` counts those left after this one. -/
def searchGrid (b : Basin) (m : Nat) (q k : Int) : Nat → Decimal
  | 0 => ⟨(gridPoint b (4 * m) 1 (powerOfTenIn q k)).getD 0, k⟩
  | finer + 1 =>
    match gridPoint b (4 * m) 1 (powerOfTenIn q k) with
    | some c => ⟨c, k⟩
    | none => searchGrid b m q (k - 1) finer

/-- The decimal with the fewest digits that rounds to `m · 2 ^ q`, and the nearest of these.
Seventeen digits always suffice. -/
def shortest (m : Nat) (q : Int) : Decimal :=
  let (num, den) := scale m 1 q
  searchGrid (basin m q) m q (decimalExponent num den) 16

end SumLang.Double
