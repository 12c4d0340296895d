import Comptime.Decimal.Rounding
/-!
Powers with an exponent that is not whole, as the exponential of a multiple of a logarithm. Both
are enclosed by power series in whole multiples of a small unit, every step rounded outwards.
-/
namespace Comptime.Decimal

/-- A real number between `low` and `high`, counted in units of `10 ^ -s`. -/
structure Bounds where
  low : Int
  high : Int
  deriving DecidableEq, Repr

namespace Bounds

def add (x y : Bounds) : Bounds := ⟨x.low + y.low, x.high + y.high⟩

def scale (x : Bounds) (m : Int) (d : Nat) : Bounds :=
  let a := x.low * m
  let b := x.high * m
  ⟨Int.fdiv (min a b) d, -Int.fdiv (-(max a b)) d⟩

def mul (unit : Nat) (x y : Bounds) : Bounds :=
  ⟨Int.fdiv (x.low * y.low) unit, -Int.fdiv (-(x.high * y.high)) unit⟩

def ofFraction (unit a b : Nat) : Bounds := scale ⟨unit, unit⟩ a b

end Bounds

/-- The terms `power · square ^ i / (2 i + 1)` from the given `i` on, so many of them. With
`square` at most one ninth, what follows is less than twice the next power. -/
def artanhTerms (unit : Nat) (square : Bounds) : Nat → Nat → Bounds → Bounds
  | 0, _, power => ⟨0, 2 * power.high⟩
  | terms + 1, i, power =>
    (power.scale 1 (2 * i + 1)).add (artanhTerms unit square terms (i + 1) (power.mul unit square))

def logFraction (s a b : Nat) : Bounds :=
  let unit := Nat.pow 10 s
  let t := Bounds.ofFraction unit (a - b) (a + b)
  (artanhTerms unit (t.mul unit t) (s + 2) 0 t).scale 2 1

def logTwo (s : Nat) : Bounds := logFraction s 2 1

def logTen (s : Nat) : Bounds := ((logTwo s).scale 3 1).add (logFraction s 5 4)

def logarithm (s : Nat) (x : Decimal) : Bounds :=
  let ten := Nat.pow 10 (digitCount x.coeff - 1)
  let j := Nat.log2 (x.coeff / ten)
  ((logFraction s x.coeff (ten * Nat.pow 2 j)).add ((logTwo s).scale j 1)).add
    ((logTen s).scale x.adjusted 1)

/-- The terms `term · r ^ i / i!` of the exponential from the given `i` on, so many of them. Past
twice `r` what follows is less than twice the next term. -/
def exponentialTerms (unit : Nat) (r : Bounds) : Nat → Nat → Bounds → Bounds
  | 0, _, term => ⟨0, 2 * term.high⟩
  | terms + 1, i, term =>
    term.add (exponentialTerms unit r terms (i + 1) ((term.mul unit r).scale 1 (i + 1)))

def exponential (s : Nat) (z : Bounds) : Bounds × Int :=
  let unit := Nat.pow 10 s
  let ten := logTen s
  let q := if 0 ≤ z.low then Int.fdiv z.low ten.high else Int.fdiv z.low ten.low
  let r := z.add (ten.scale (-q) 1)
  (exponentialTerms unit r (s + 20) 0 ⟨unit, unit⟩, q - s)

def shortened (w : Precision) (d : Decimal) : Decimal :=
  if digitCount d.coeff ≤ w.digits then d
  else carried w (quantized .even d (d.exp + digitCount d.coeff - w.digits))

/-- Rounds a number that is enclosed the more narrowly the more attempts are made, as soon as both
ends are rounded alike. -/
def settled (w : Precision) (ends : Nat → Decimal × Decimal) : Nat → Nat → Decimal
  | 0, i => shortened w (ends i).1
  | fuel + 1, i =>
    let low := shortened w (ends i).1
    if low = shortened w (ends i).2 then low else settled w ends fuel (i + 1)

/-- The decimal places in which a number from one tenth to ten may be close to one. -/
def nearnessToOne (x : Decimal) : Nat :=
  if x.adjusted = 0 || x.adjusted = -1 then (-x.exp).toNat else 0

def logarithmEnds (w : Precision) (x : Decimal) (attempt : Nat) : Decimal × Decimal :=
  let s := w.digits + nearnessToOne x + 10 * Nat.pow 2 attempt
  let z := logarithm s x
  (ofUnits z.low (-s), ofUnits z.high (-s))

def exponentialEnds (w : Precision) (z : Decimal) (attempt : Nat) : Decimal × Decimal :=
  let s := w.digits + 10 * Nat.pow 2 attempt
  let m : Int := z.unitsOf (min z.exp 0)
  let (v, e) :=
    exponential s (Bounds.scale ⟨Nat.pow 10 s, Nat.pow 10 s⟩ m (Nat.pow 10 (-z.exp).toNat))
  (ofUnits v.low e, ofUnits v.high e)

/-- The power of a positive number other than one, as the exponential of a multiple of the
logarithm. These three are rounded one by one to some digits more than the base and the result
have. -/
def fractionalPower (p : Precision) (x y : Decimal) : Except Signal Decimal :=
  let w := Precision.plus ⟨max (digitCount x.coeff) p.digits,
    Nat.lt_of_lt_of_le p.digits_pos (Nat.le_max_right _ _)⟩ 23
  let log := settled w (logarithmEnds w x) 16 0
  let z := shortened w ⟨log.neg != y.neg, log.coeff * y.coeff, log.exp + y.exp⟩
  round p (settled w (exponentialEnds w z) 16 0)

end Comptime.Decimal
