import Comptime.Digits
/-!
Decimal numbers that keep their digits: a sign, a coefficient and a power of ten, so that `0.5` and
`0.50` are different decimals of one value.
-/
namespace Comptime

structure Decimal where
  neg : Bool
  coeff : Nat
  exp : Int
  deriving DecidableEq, Repr

namespace Decimal

def ofInt (n : Int) : Decimal := ⟨decide (n < 0), n.natAbs, 0⟩

def isZero (d : Decimal) : Bool := d.coeff == 0

def adjusted (d : Decimal) : Int := d.exp + digitCount d.coeff - 1

/-- The bounds of the type of decimals: a number of that many digits, the first and the last of them
not too far from the point. -/
def isRepresentable (d : Decimal) : Bool :=
  digitCount d.coeff ≤ 999999999999999999 && d.adjusted ≤ 999999999999999999 &&
    -1999999999999999997 ≤ d.exp

def negate (d : Decimal) : Decimal := { d with neg := !d.neg }

/-- The coefficient when the number is counted in units of `10 ^ e`, for `e ≤ d.exp`. -/
def coeffAt (d : Decimal) (e : Int) : Nat := d.coeff * Nat.pow 10 (d.exp - e).toNat

def unitsOf (d : Decimal) (e : Int) : Int :=
  let n : Int := d.coeffAt e
  if d.neg then -n else n

def ofUnits (n : Int) (e : Int) : Decimal := ⟨decide (n < 0), n.natAbs, e⟩

def padTo (d : Decimal) (e : Int) : Decimal :=
  if d.exp ≤ e then d else { d with coeff := d.coeffAt e, exp := e }

def dropZeros (d : Decimal) : Nat → Decimal
  | 0 => d
  | k + 1 =>
    if d.coeff % 10 = 0 then dropZeros { d with coeff := d.coeff / 10, exp := d.exp + 1 } k else d

/-- Whether `10 ^ k` divides `n`. A number other than zero is below `10 ^ k` unless it has more
than `k` digits, so no power beyond the size of `n` is formed. -/
def dividesOut (n k : Nat) : Bool :=
  n == 0 || (k < digitCount n && n % Nat.pow 10 k == 0)

def isIntegral (d : Decimal) : Bool := 0 ≤ d.exp || dividesOut d.coeff (-d.exp).toNat

def toInt (d : Decimal) : Int :=
  if d.isZero then 0
  else
    let n : Int := if 0 ≤ d.exp then d.coeffAt 0 else (d.coeff / Nat.pow 10 (-d.exp).toNat : Nat)
    if d.neg then -n else n

end Decimal
end Comptime
