import Comptime.Bits
import Mathlib.Data.Int.Bitwise
import Mathlib.Data.Nat.Log
import Mathlib.Tactic.NormNum
import Mathlib.Tactic.Positivity

/-! Bitwise operations agree with those on integers in two's complement, and shifts with the product
and the quotient, rounded down, by a power of two. -/
namespace Comptime.Bits

theorem without_eq_ldiff (m n : Nat) : without m n = Nat.ldiff m n := by
  apply Nat.eq_of_testBit_eq
  intro i
  rw [without, Nat.testBit_xor, Nat.testBit_and, Nat.testBit_ldiff]
  cases m.testBit i <;> simp

theorem and_eq_land (a b : Int) : and a b = a.land b := by
  cases a <;> cases b <;> simp [and, Int.land, without_eq_ldiff]

theorem or_eq_lor (a b : Int) : or a b = a.lor b := by
  cases a <;> cases b <;> simp [or, Int.lor, without_eq_ldiff]

theorem xor_eq_xor (a b : Int) : xor a b = a.xor b := by
  cases a <;> cases b <;> simp [xor, Int.xor]

theorem natAbs_lt_pow_length (a : Int) : a.natAbs < 2 ^ length a := by
  unfold length
  split_ifs with h
  · simp [h]
  · exact Nat.lt_log2_self

theorem shiftRight_eq_ediv (a : Int) (n : Nat) : shiftRight a n = a / 2 ^ n := by
  unfold shiftRight
  by_cases h : length a < n
  · have small : a.natAbs < 2 ^ n :=
      (natAbs_lt_pow_length a).trans_le (Nat.pow_le_pow_right (by norm_num) h.le)
    have : (a.natAbs : Int) < 2 ^ n := by exact_mod_cast small
    rw [if_pos h]
    symm
    split_ifs with neg
    · rw [Int.ediv_eq_iff_of_pos (by positivity)]
      omega
    · exact Int.ediv_eq_zero_of_lt (by omega) (by omega)
  · rw [if_neg h, Int.shiftRight_eq_div_pow]
    norm_cast

theorem shiftRight_eq_shiftRight (a : Int) (n : Nat) : shiftRight a n = a >>> n := by
  rw [shiftRight_eq_ediv, Int.shiftRight_eq_div_pow]
  norm_cast

theorem testBit_shiftRight (a : Int) (n i : Nat) :
    (shiftRight a n).testBit i = a.testBit (i + n) := by
  rw [shiftRight_eq_shiftRight]
  cases a with
  | ofNat m =>
    change (m >>> n).testBit i = m.testBit (i + n)
    rw [Nat.testBit_shiftRight, Nat.add_comm]
  | negSucc m =>
    change (!(m >>> n).testBit i) = !m.testBit (i + n)
    rw [Nat.testBit_shiftRight, Nat.add_comm]

theorem complement_eq_lnot (a : Int) : complement a = a.lnot := by
  cases a with
  | ofNat m =>
    change -(m : Int) - 1 = Int.negSucc m
    omega
  | negSucc m =>
    change -Int.negSucc m - 1 = (m : Int)
    omega

end Comptime.Bits
