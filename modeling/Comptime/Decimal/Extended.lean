import Comptime.Decimal.Power
import Comptime.Decimal.Text
/-!
Decimals together with the infinities and with what is no number. Arithmetic on them follows the
general decimal arithmetic: what is not a number stays so, unless it signals, and operations on
infinities without a limit are invalid.
-/
namespace Comptime

/-- What is no number has a sign and digits for diagnosis, and may signal where it is used. -/
inductive Extended where
  | finite (d : Decimal)
  | infinity (neg : Bool)
  | nan (neg signals : Bool) (payload : Nat)
  deriving DecidableEq, Repr

namespace Extended

def signText (neg : Bool) : String := if neg then "-" else ""

def text : Extended → String
  | .finite d => d.text
  | .infinity neg => signText neg ++ "Infinity"
  | .nan neg signals payload =>
    signText neg ++ (if signals then "sNaN" else "NaN") ++
      String.ofList (if payload = 0 then [] else numeral payload)

def isZero : Extended → Bool
  | .finite d => d.isZero
  | _ => false

def isNaN : Extended → Bool
  | .nan .. => true
  | _ => false

def signals : Extended → Bool
  | .nan _ signals _ => signals
  | _ => false

def adjusted : Extended → Int
  | .finite d => d.adjusted
  | _ => 0

def isNegative : Extended → Bool
  | .finite d => d.neg
  | .infinity neg => neg
  | .nan .. => false

def negate : Extended → Extended
  | .finite d => .finite d.negate
  | .infinity neg => .infinity !neg
  | .nan neg signals payload => .nan (!neg) signals payload

def compare? : Extended → Extended → Option Ordering
  | .nan .., _ | _, .nan .. => none
  | .finite a, .finite b => some (a.compareValue b)
  | .infinity a, .infinity b => some (compare b a)
  | .infinity a, .finite _ => some (if a then .lt else .gt)
  | .finite _, .infinity b => some (if b then .gt else .lt)

def sameValue (a b : Extended) : Bool := compare? a b == some .eq

def quieted (p : Precision) : Extended → Extended
  | .nan neg _ payload => .nan neg false (payload % Nat.pow 10 p.digits)
  | x => x

/-- The outcome for operands of which one is no number: the first that is none, unless one
signals. -/
def nanOf (p : Precision) (a b : Extended) : Except Signal Extended :=
  if a.signals || b.signals then .error .invalidOperation
  else .ok ((if a.isNaN then a else b).quieted p)

def add (p : Precision) : Extended → Extended → Except Signal Extended
  | .finite a, .finite b => (a.add p b).map .finite
  | .infinity a, .infinity b => if a = b then .ok (.infinity a) else .error .invalidOperation
  | .infinity a, .finite _ => .ok (.infinity a)
  | .finite _, .infinity b => .ok (.infinity b)
  | a, b => nanOf p a b

/-- The negative of what is no number keeps its sign here. -/
def sub (p : Precision) (a b : Extended) : Except Signal Extended :=
  if b.isNaN then nanOf p a b else add p a b.negate

def mul (p : Precision) (a b : Extended) : Except Signal Extended :=
  if a.isNaN || b.isNaN then nanOf p a b
  else
    match a, b with
    | .finite a, .finite b => (a.mul p b).map .finite
    | a, b =>
      if a.isZero || b.isZero then .error .invalidOperation
      else .ok (.infinity (a.isNegative != b.isNegative))

def div (p : Precision) : Extended → Extended → Except Signal Extended
  | .finite a, .finite b => (a.div p b).map .finite
  | .infinity _, .infinity _ => .error .invalidOperation
  | .infinity a, .finite b => .ok (.infinity (a != b.neg))
  | .finite a, .infinity b => .ok (.finite ⟨a.neg != b, 0, p.lowestExp⟩)
  | a, b => nanOf p a b

def rem (p : Precision) : Extended → Extended → Except Signal Extended
  | .finite a, .finite b => (a.rem p b).map .finite
  | .infinity _, .infinity _ | .infinity _, .finite _ => .error .invalidOperation
  | .finite a, .infinity _ => (a.round p).map .finite
  | a, b => nanOf p a b

def isIntegral : Extended → Bool
  | .finite d => d.isIntegral
  | _ => false

def isOdd : Extended → Bool
  | .finite d => d.isIntegral && d.isOdd
  | _ => false

/-- The size of `x ^ y` where `x` or `y` is infinite or `x` is zero: nothing or infinity, according
to whether `x` is above one and `y` above zero. -/
def limitPower (x y : Extended) : Extended :=
  let large := match x with
    | .finite d => 0 ≤ d.adjusted && !d.isZero
    | _ => true
  let neg := x.isNegative && y.isOdd
  if large != y.isNegative then .infinity neg else .finite ⟨neg, 0, 0⟩

/-- The power, but for zero to the power of zero. A negative base asks for a whole exponent. -/
def power (p : Precision) (x y : Extended) : Except Signal Extended :=
  if x.isNaN || y.isNaN then nanOf p x y
  else if y.isZero then .ok (.finite ⟨false, 1, 0⟩)
  else if x.isNegative && !y.isIntegral && !x.isZero then .error .invalidOperation
  else
    match x, y with
    | .finite a, .finite b => if a.isZero then .ok (limitPower x y) else (a.power p b).map .finite
    | .finite a, .infinity _ =>
      if Decimal.sameValue a ⟨false, 1, 0⟩ then .ok (.finite ⟨false, 1, 0⟩)
        else .ok (limitPower x y)
    | _, _ => .ok (limitPower x y)

end Extended
end Comptime
