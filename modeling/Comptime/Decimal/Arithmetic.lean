import Comptime.Decimal.Rounding
/-!
Sum, difference, product, quotient and remainder of decimals, each rounded once.
-/
namespace Comptime.Decimal

def exactSum (a b : Decimal) : Decimal :=
  let e := min a.exp b.exp
  ofUnits (a.unitsOf e + b.unitsOf e) e

/-- Stands in for `small` in a sum with `big`, whose exponent is not lower: if the leading digit of
`small` is below all digits that rounding `big` can look at, one unit there rounds alike. -/
def negligible (p : Precision) (big small : Decimal) : Decimal :=
  let e := big.exp + min (-1) (digitCount big.coeff - p.digits - 2 : Int)
  if small.adjusted < e then { small with coeff := min 1 small.coeff, exp := e } else small

/-- The sum with zero, which still lowers the exponent, though not beyond the digits of `p`. -/
def addZero (p : Precision) (zero d : Decimal) : Except Signal Decimal :=
  round p (d.padTo (max zero.exp (d.exp - p.digits - 1)))

def add (p : Precision) (a b : Decimal) : Except Signal Decimal :=
  if a.isZero then addZero p a b
  else if b.isZero then addZero p b a
  else if a.exp < b.exp then round p (exactSum (negligible p b a) b)
  else round p (exactSum a (negligible p a b))

def sub (p : Precision) (a b : Decimal) : Except Signal Decimal := add p a b.negate

def mulTo (t : Tie) (p : Precision) (a b : Decimal) : Except Signal Decimal :=
  roundTo t p ⟨a.neg != b.neg, a.coeff * b.coeff, a.exp + b.exp⟩

def mul (p : Precision) (a b : Decimal) : Except Signal Decimal := mulTo .up p a b

/-- Moves the last digit off zero and five. A number that was cut off is then not taken for one that
lies halfway, or for one that needs no rounding. -/
def marked (d : Decimal) : Decimal := if d.coeff % 5 = 0 then { d with coeff := d.coeff + 1 } else d

/-- The quotient with more digits than rounding keeps. If it is exact, it loses trailing zeros as
long as its exponent is below the difference of the exponents. -/
def quotient (p : Precision) (a b : Decimal) : Decimal :=
  let shift : Int := digitCount b.coeff - digitCount a.coeff + p.digits + 1
  let n := a.coeff * Nat.pow 10 shift.toNat
  let d := b.coeff * Nat.pow 10 (-shift).toNat
  let q : Decimal := ⟨a.neg != b.neg, n / d, a.exp - b.exp - shift⟩
  if n % d = 0 then q.dropZeros shift.toNat else q.marked

def divTo (t : Tie) (p : Precision) (a b : Decimal) : Except Signal Decimal :=
  if a.isZero then roundTo t p ⟨a.neg != b.neg, 0, a.exp - b.exp⟩ else roundTo t p (quotient p a b)

def div (p : Precision) (a b : Decimal) : Except Signal Decimal := divTo .up p a b

/-- The exact remainder of the truncated quotient by a number other than zero. A dividend that is
shorter than the divisor by two places is smaller and left whole. -/
def exactRemainder (a b : Decimal) : Decimal :=
  let e := min a.exp b.exp
  if a.isZero then ⟨a.neg, 0, e⟩
  else if a.adjusted - b.adjusted ≤ -2 then a.padTo e
  else
    ⟨a.neg, a.coeffAt e % b.coeffAt e, e⟩

/-- The digits that a remainder is rounded to: those of `p`, and as many more as the whole quotient
may need when the leading digits of the operands stand at `high` and `low`. -/
def remainderPrecision (p : Precision) (high low : Int) : Precision :=
  ⟨max p.digits (high - low + 1 + p.digits).toNat,
    Nat.lt_of_lt_of_le p.digits_pos (Nat.le_max_left _ _)⟩

/-- Whether the whole quotient by a number other than zero has more digits than `p`. A dividend that
is shorter than the divisor by two places leaves none, and one that is much longer too many. -/
def quotientExceeds (p : Precision) (a b : Decimal) : Bool :=
  let e := min a.exp b.exp
  !a.isZero && -2 < a.adjusted - b.adjusted &&
    (p.digits < a.adjusted - b.adjusted || p.digits < digitCount (a.coeffAt e / b.coeffAt e))

def rem (p : Precision) (a b : Decimal) : Except Signal Decimal :=
  if quotientExceeds p a b then .error .invalidOperation else round p (exactRemainder a b)

end Comptime.Decimal
