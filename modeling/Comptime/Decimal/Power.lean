import Comptime.Decimal.Order
import Comptime.Decimal.Power.Series
import Comptime.Decimal.Power.Whole
/-!
Powers of finite decimals. An exponent that is not whole asks for a base that is not negative.
-/
namespace Comptime.Decimal

/-- Whether `x ^ y` is sure to leave the bounds of the exponent. The logarithm of `x` to base ten
is at least `10 ^ -(k + 2)` in size where `x` has `k` places near one, so that the exponent of the
power exceeds the bounds in size once `y` is that much larger. -/
def leavesBounds (p : Precision) (x y : Decimal) : Bool :=
  (digitCount (1000002 + p.digits) + nearnessToOne x + 2 : Int) ≤ y.adjusted

/-- A power that leaves the bounds: upwards it overflows, downwards it vanishes. -/
def boundless (p : Precision) (neg upwards : Bool) : Except Signal Decimal :=
  if upwards then .error .overflow else .ok ⟨neg, 0, p.lowestExp⟩

def isOdd (y : Decimal) : Bool := y.exp ≤ 0 && y.toInt % 2 == 1

def power (p : Precision) (x y : Decimal) : Except Signal Decimal :=
  if y.isZero then .ok ⟨false, 1, 0⟩
  else
    let size := { x with neg := false }
    let neg := x.neg && y.isIntegral && y.isOdd
    if x.neg && !y.isIntegral then .error .invalidOperation
    else if sameValue size ⟨false, 1, 0⟩ then .ok ⟨neg, 1, 0⟩
    else if leavesBounds p x y then boundless p neg (decide (0 ≤ x.adjusted) != y.neg)
    else if y.isIntegral then wholePower p neg size y
    else fractionalPower p x y

end Comptime.Decimal
