import Comptime.Decimal.Basic
import Comptime.Text.Blank
import Comptime.Text.DecimalDigit
/-!
The text of number literals. Hexadecimal numbers follow the prefix `0x`; all others are decimal,
with an optional point and an optional exponent. The number is the one written, of whatever length,
as long as the type of decimals holds it.
-/
namespace Comptime.Literal

def takeDigits (digit? : Char → Option Nat) : List Char → List Nat × List Char
  | [] => ([], [])
  | c :: rest =>
    match digit? c with
    | none => ([], c :: rest)
    | some d => ((d :: (takeDigits digit? rest).1), (takeDigits digit? rest).2)

def takeSign : List Char → Bool × List Char
  | '+' :: rest => (false, rest)
  | '-' :: rest => (true, rest)
  | cs => (false, cs)

def onlyDigits? (digit? : Char → Option Nat) (base : Nat) (cs : List Char) : Option Nat :=
  match takeDigits digit? cs with
  | ([], _) => none
  | (ds, []) => some (positional base ds)
  | _ => none

def exponent? : List Char → Option Int
  | [] => some 0
  | c :: rest =>
    if c = 'e' || c = 'E' then
      let (neg, ds) := takeSign rest
      (onlyDigits? Text.decimalDigit? 10 ds).map fun n => if neg then -(n : Int) else n
    else none

def takeFraction : List Char → List Nat × List Char
  | '.' :: rest => takeDigits Text.decimalDigit? rest
  | cs => ([], cs)

def unsignedDecimal? (cs : List Char) : Option (Nat × Int) :=
  let (whole, rest) := takeDigits Text.decimalDigit? cs
  let (fraction, tail) := takeFraction rest
  if whole.isEmpty && fraction.isEmpty then none
  else (exponent? tail).map fun e => (positional 10 (whole ++ fraction), e - fraction.length)

/-- A decimal number: blanks at the ends do not count, nor does any underscore. The type of decimals
has to hold it. -/
def readDecimal? (cs : List Char) : Option Decimal :=
  let (neg, rest) := takeSign ((Text.trimWhile Text.isBlank cs).filter (· ≠ '_'))
  match unsignedDecimal? rest with
  | none => none
  | some (coeff, exp) =>
    let d : Decimal := ⟨neg, coeff, exp⟩
    if d.isRepresentable then some d else none

/-- Blanks that may stand around a hexadecimal number: all but the information separators. -/
def isHexBlank (c : Char) : Bool := Text.isBlank c && !('\x1c' ≤ c && c ≤ '\x1f')

/-- Hexadecimal digits behind a first one, each of them set off by one underscore at most. -/
def moreHexDigits? : List Char → Option (List Nat)
  | [] => some []
  | '_' :: c :: rest =>
    match Text.hexDigit? c with
    | some d => (moreHexDigits? rest).map (d :: ·)
    | none => none
  | c :: rest =>
    match Text.hexDigit? c with
    | some d => (moreHexDigits? rest).map (d :: ·)
    | none => none

def hexDigits? : List Char → Option (List Nat)
  | [] => none
  | c :: rest =>
    match Text.hexDigit? c with
    | some d => (moreHexDigits? rest).map (d :: ·)
    | none => none

def dropHexPrefix : List Char → List Char
  | z :: x :: '_' :: rest =>
    if Text.decimalDigit? z = some 0 && (x = 'x' || x = 'X') then rest else z :: x :: '_' :: rest
  | z :: x :: rest =>
    if Text.decimalDigit? z = some 0 && (x = 'x' || x = 'X') then rest else z :: x :: rest
  | cs => cs

/-- What stands behind the prefix of a hexadecimal number: digits, perhaps signed, perhaps behind a
prefix of their own, perhaps between blanks. -/
def readHex? (cs : List Char) : Option Int :=
  let (neg, rest) := takeSign (Text.trimWhile isHexBlank cs)
  (hexDigits? (dropHexPrefix rest)).map fun ds =>
    if neg then -(positional 16 ds : Int) else positional 16 ds

def readNumber? : List Char → Option Decimal
  | '0' :: 'x' :: rest => (readHex? rest).map .ofInt
  | '0' :: 'X' :: rest => (readHex? rest).map .ofInt
  | cs => readDecimal? cs

end Comptime.Literal
