import Comptime.Decimal.Basic
/-!
The exact order of decimals by value. Numbers of different size are told apart by the exponents of
their leading digits, so that only numbers of like size are brought to a common exponent.
-/
namespace Comptime.Decimal

def compareMagnitude (a b : Decimal) : Ordering :=
  match compare a.adjusted b.adjusted with
  | .eq =>
    let e := min a.exp b.exp
    compare (a.coeffAt e) (b.coeffAt e)
  | o => o

/-- The order of two decimals by value; zeros are equal whatever their sign and exponent. -/
def compareValue (a b : Decimal) : Ordering :=
  match a.isZero, b.isZero with
  | true, true => .eq
  | true, false => if b.neg then .gt else .lt
  | false, true => if a.neg then .lt else .gt
  | false, false =>
    match a.neg, b.neg with
    | false, false => compareMagnitude a b
    | true, true => compareMagnitude b a
    | false, true => .gt
    | true, false => .lt

def sameValue (a b : Decimal) : Bool := compareValue a b == .eq

end Comptime.Decimal
