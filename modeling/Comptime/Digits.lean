/-!
Decimal digits of natural numbers: how many there are, how they are written, and what a run of
digits denotes.
-/
namespace Comptime

def climbDigits (n : Nat) : Nat → Nat → Nat
  | 0, d => d
  | fuel + 1, d => if n < Nat.pow 10 d then d else climbDigits n fuel (d + 1)

/-- How many decimal digits `n` is written with; zero has one.
The search starts just past `log2 n · 643 / 2136`, which never exceeds the number of digits
since `10 ^ 643 < 2 ^ 2136`, and a number below `2 ^ k` has at most `k` digits. -/
def digitCount (n : Nat) : Nat :=
  climbDigits n (Nat.log2 n + 1) (Nat.log2 n * 643 / 2136 + 1)

def digitChar (d : Nat) : Char := Char.ofNat (48 + d)

def digitBlock : Nat → Nat → List Char
  | 0, n => [digitChar (n % 10)]
  | k + 1, n =>
    let half := Nat.pow 10 (Nat.pow 2 k)
    digitBlock k (n / half) ++ digitBlock k (n % half)

def numeral (n : Nat) : List Char :=
  let count := digitCount n
  let k := Nat.log2 count + 1
  (digitBlock k n).drop (Nat.pow 2 k - count)

def pairDigits (base : Nat) : List Nat → List Nat
  | low :: high :: rest => (low + base * high) :: pairDigits base rest
  | ds => ds

/-- The number that digits denote, least significant first. They are joined in pairs, and the pairs
again, until one is left, so that long numbers are only multiplied by long ones. -/
def joinDigits : Nat → Nat → List Nat → Nat
  | 0, _, ds => ds.headD 0
  | fuel + 1, base, ds => joinDigits fuel (base * base) (pairDigits base ds)

def positional (base : Nat) (digits : List Nat) : Nat :=
  joinDigits (Nat.log2 digits.length + 1) base digits.reverse

def integerText (n : Int) : String :=
  String.ofList (if n < 0 then '-' :: numeral n.natAbs else numeral n.natAbs)

/-- The text of an integer, unless it has more digits than the host writes. -/
def integerText? (limit : Option Nat) (n : Int) : Option String :=
  if limit.all (digitCount n.natAbs ≤ ·) then some (integerText n) else none

end Comptime
