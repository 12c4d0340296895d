import Comptime.Text.Printable
/-!
Quoted text in messages: single quotes, or double quotes around a text that holds single quotes
only. Backslashes, the quote in use and unprintable characters are escaped.
-/
namespace Comptime.Text

def hexChar (d : Nat) : Char := if d < 10 then Char.ofNat (48 + d) else Char.ofNat (87 + d)

def hexBlock : Nat → Nat → List Char
  | 0, _ => []
  | k + 1, n => hexBlock k (n / 16) ++ [hexChar (n % 16)]

def escapeCodePoint (n : Nat) : List Char :=
  if n < 0x100 then '\\' :: 'x' :: hexBlock 2 n
  else if n < 0x10000 then '\\' :: 'u' :: hexBlock 4 n
  else '\\' :: 'U' :: hexBlock 8 n

def escapeChar (quote c : Char) : List Char :=
  if c = quote || c = '\\' then ['\\', c]
  else if c = '\t' then ['\\', 't']
  else if c = '\n' then ['\\', 'n']
  else if c = '\r' then ['\\', 'r']
  else if isPrintable c then [c]
  else escapeCodePoint c.toNat

def quoteFor (cs : List Char) : Char :=
  if cs.contains '\'' && !cs.contains '"' then '"' else '\''

def quoted (s : String) : String :=
  let q := quoteFor s.toList
  String.ofList (q :: s.toList.flatMap (escapeChar q) ++ [q])

end Comptime.Text
