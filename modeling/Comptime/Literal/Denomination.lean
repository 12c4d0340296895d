/-!
Denominations of money and time, each a whole multiple of the smallest one.
-/
namespace Comptime.Literal

def denominations : List (String × Nat) := [
  ("wei", 1), ("gwei", 1000000000), ("szabo", 1000000000000), ("finney", 1000000000000000),
  ("ether", 1000000000000000000),
  ("seconds", 1), ("minutes", 60), ("hours", 3600), ("days", 86400), ("weeks", 604800),
  ("years", 31536000)]

def multiplier? (unit : String) : Option Nat := denominations.lookup unit

end Comptime.Literal
