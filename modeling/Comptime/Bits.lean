/-!
Bitwise operations on integers of any size and sign, as on infinitely many bits in two's
complement: a negative number has the opposite bits of the natural number `-n - 1`.
-/
namespace Comptime.Bits

def without (m n : Nat) : Nat := m ^^^ (m &&& n)

def complement (a : Int) : Int := -a - 1

def and : Int → Int → Int
  | .ofNat m, .ofNat n => .ofNat (m &&& n)
  | .ofNat m, .negSucc n => .ofNat (without m n)
  | .negSucc m, .ofNat n => .ofNat (without n m)
  | .negSucc m, .negSucc n => .negSucc (m ||| n)

def or : Int → Int → Int
  | .ofNat m, .ofNat n => .ofNat (m ||| n)
  | .ofNat m, .negSucc n => .negSucc (without n m)
  | .negSucc m, .ofNat n => .negSucc (without m n)
  | .negSucc m, .negSucc n => .negSucc (m &&& n)

def xor : Int → Int → Int
  | .ofNat m, .ofNat n => .ofNat (m ^^^ n)
  | .ofNat m, .negSucc n => .negSucc (m ^^^ n)
  | .negSucc m, .ofNat n => .negSucc (m ^^^ n)
  | .negSucc m, .negSucc n => .ofNat (m ^^^ n)

def length (a : Int) : Nat := if a = 0 then 0 else Nat.log2 a.natAbs + 1

def shiftLeft (a : Int) (n : Nat) : Int := a * (Nat.pow 2 n : Nat)

/-- A shift to the right rounds down. One beyond the length leaves nothing but the sign, and no
power of two is formed for it. -/
def shiftRight (a : Int) (n : Nat) : Int :=
  if length a < n then (if a < 0 then -1 else 0) else a >>> n

end Comptime.Bits
