import Comptime.Decimal.Arithmetic
/-!
Powers of a positive number with a whole exponent, by squaring. Each product on the way is rounded
half to even, to a few digits more than the result is to have, and the last one once more, half up.
-/
namespace Comptime.Decimal

/-- Reads the lowest `i` bits of the exponent, where `y` is the power for those above them. -/
def powerDown (w : Precision) (x : Decimal) (n : Nat) : Nat → Decimal → Except Signal Decimal
  | 0, y => .ok y
  | i + 1, y => do
    let square ← mulTo .even w y y
    let next ← if n.testBit i then mulTo .even w square x else .ok square
    powerDown w x n i next

def powerUp (w : Precision) : Nat → Nat → Decimal → Decimal → Except Signal Decimal
  | 0, _, _, y => .ok y
  | bits + 1, n, x, y => do
    let next ← if n % 2 = 1 then mulTo .even w y x else .ok y
    if n / 2 = 0 then .ok next
    else
      let square ← mulTo .even w x x
      powerUp w bits (n / 2) square next

/-- The power, with products of `w` digits. An exponent of up to 64 bits is read from the highest
bit on. -/
def powerBySquaring (w : Precision) (x : Decimal) (n : Nat) : Except Signal Decimal :=
  if n < Nat.pow 2 64 then powerDown w x n n.log2 x else powerUp w (n.log2 + 1) n x ⟨false, 1, 0⟩

def powerPrecision (p : Precision) (y : Decimal) : Precision :=
  p.plus ((y.adjusted + 1).toNat + if y.neg then 3 else 2)

def powerBase (w : Precision) (x : Decimal) (inverse : Bool) : Except Signal Decimal :=
  if inverse then divTo .even w ⟨false, 1, 0⟩ x else .ok x

def wholePower (p : Precision) (neg : Bool) (x y : Decimal) : Except Signal Decimal := do
  let w := powerPrecision p y
  let base ← powerBase w x y.neg
  let power ← powerBySquaring w base y.toInt.natAbs
  round p { power with neg }

end Comptime.Decimal
