import Comptime.Decimal.Basic
/-!
The text of a decimal, which shows sign, coefficient and exponent: positional as long as no zeros
have to be added on the right and at most five between the point and the first digit, scientific
otherwise.
-/
namespace Comptime.Decimal

def pointed (digits : List Char) (places : Nat) : List Char :=
  if places = 0 then digits
  else
    let padded := List.replicate (places + 1 - digits.length) '0' ++ digits
    padded.take (padded.length - places) ++ '.' :: padded.drop (padded.length - places)

def scientific (digits : List Char) (adjusted : Int) : List Char :=
  pointed digits (digits.length - 1) ++
    'E' :: (if adjusted < 0 then '-' else '+') :: numeral adjusted.natAbs

def magnitudeText (d : Decimal) : List Char :=
  let digits := numeral d.coeff
  if d.exp ≤ 0 && -6 ≤ d.adjusted then pointed digits (-d.exp).toNat
  else scientific digits d.adjusted

def text (d : Decimal) : String :=
  String.ofList (if d.neg then '-' :: magnitudeText d else magnitudeText d)

end Comptime.Decimal
