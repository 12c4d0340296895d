import Comptime.Decimal.Basic
/-!
Rounding to a fixed number of significant digits, with the exponent of the leading digit kept
between bounds. Sums, products, quotients and remainders form their exact result, or one that rounds
alike, and round it here once, half up. Powers round on the way as well, half to even.
-/
namespace Comptime

structure Precision where
  digits : Nat
  digits_pos : 0 < digits := by decide
  deriving DecidableEq, Repr

/-- Which neighbour a number halfway between two is rounded to: the one farther from zero, or the
one with an even last digit. -/
inductive Tie where
  | up
  | even
  deriving DecidableEq, Repr

inductive Signal where
  | invalidOperation
  | divisionByZero
  | overflow
  deriving DecidableEq, Repr

namespace Precision

def standard : Precision := ⟨100, by decide⟩

def greatest : Nat := 999999999999999999

def ofInt? (n : Int) : Option Precision :=
  if h : 0 < n.toNat ∧ n.toNat ≤ greatest then some ⟨n.toNat, h.1⟩ else none

def plus (p : Precision) (n : Nat) : Precision :=
  ⟨p.digits + n, Nat.lt_of_lt_of_le p.digits_pos (Nat.le_add_right _ _)⟩

def text (p : Precision) : String := "<Numerics prec=" ++ integerText p.digits ++ ">"

def maxAdjusted : Int := 999999

def minAdjusted : Int := -999999

def lowestExp (p : Precision) : Int := minAdjusted - p.digits + 1

end Precision

namespace Decimal

/-- `n / 10 ^ k` to the nearest whole number. A number with fewer than `k` digits is below one
tenth. -/
def roundedUnits (t : Tie) (n k : Nat) : Nat :=
  if digitCount n < k then 0
  else
    let unit := Nat.pow 10 k
    let q := (2 * n + unit) / (2 * unit)
    if t = .even ∧ q % 2 = 1 ∧ (2 * n + unit) % (2 * unit) = 0 then q - 1 else q

def bounded (d : Decimal) : Except Signal Decimal :=
  if Precision.maxAdjusted < d.adjusted then .error .overflow else .ok d

def roundingExp (p : Precision) (d : Decimal) : Int :=
  max (d.exp + digitCount d.coeff - p.digits) p.lowestExp

def quantized (t : Tie) (d : Decimal) (e : Int) : Decimal :=
  ⟨d.neg, roundedUnits t d.coeff (e - d.exp).toNat, e⟩

/-- Drops the last digit of a coefficient that rounding has carried to one digit too many. -/
def carried (p : Precision) (d : Decimal) : Decimal :=
  if d.coeff = Nat.pow 10 p.digits then { d with coeff := d.coeff / 10, exp := d.exp + 1 } else d

/-- Rounds to the digits of `p`. A number that has few enough digits, none of them too low, keeps
them all; zero keeps its exponent within the bounds. -/
def roundTo (t : Tie) (p : Precision) (d : Decimal) : Except Signal Decimal :=
  if d.isZero then .ok { d with exp := min (max d.exp p.lowestExp) Precision.maxAdjusted }
  else
    let e := roundingExp p d
    if e ≤ d.exp then bounded d else bounded (carried p (quantized t d e))

def round (p : Precision) (d : Decimal) : Except Signal Decimal := roundTo .up p d

end Decimal
end Comptime
