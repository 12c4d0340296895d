import Comptime.Proofs.Operator.Failure

/-! Bitwise operators take integers as infinitely many bits in two's complement. Shifts to the right
round down, and those to the left lose nothing. -/
namespace Comptime

section
variable (p : Precision) (a : ℤ)

theorem evalBitwise_shiftRight (n : Nat) :
    evalBitwise .shiftRight a n = .ok (.int (Bits.shiftRight a n)) := by
  rw [evalBitwise, if_neg (Int.natCast_nonneg n).not_gt, Int.toNat_natCast]

theorem evalBitwise_shiftLeft {n : Nat} (h : n ≤ maxShift) :
    evalBitwise .shiftLeft a n = .ok (.int (a * 2 ^ n)) := by
  rw [evalBitwise, if_neg (Int.natCast_nonneg n).not_gt, if_neg h.not_gt, Int.toNat_natCast]
  simp [Bits.shiftLeft]

theorem evalBinary_shiftRight (n : Nat) :
    evalBinary p ">>" (.int a) (.int n) = .ok (.int (Bits.shiftRight a n)) :=
  congrArg (Except.mapError Stop.fault) (evalBitwise_shiftRight a n)

theorem evalBinary_shiftLeft {n : Nat} (h : n ≤ maxShift) :
    evalBinary p "<<" (.int a) (.int n) = .ok (.int (a * 2 ^ n)) :=
  congrArg (Except.mapError Stop.fault) (evalBitwise_shiftLeft a h)

theorem shiftRight_mul_pow (n : Nat) : Bits.shiftRight (a * 2 ^ n) n = a := by
  rw [Bits.shiftRight_eq_ediv]
  exact Int.mul_ediv_cancel a (by positivity)

theorem floor_div_pow (n : Nat) : ⌊(a : ℚ) / 2 ^ n⌋ = a / 2 ^ n := by
  have := Rat.floor_intCast_div_natCast a (2 ^ n)
  push_cast at this
  exact this

theorem fails_shiftRight_iff (b : ℤ) : Fails p ">>" (.int a) (.int b) ↔ b < 0 := by
  by_cases negative : b < 0
  · have fault : evalBitwise .shiftRight a b = .error (.negativeShift b) := if_pos negative
    exact iff_of_true ⟨_, congrArg (Except.mapError Stop.fault) fault⟩ negative
  · obtain ⟨n, rfl⟩ := Int.eq_ofNat_of_zero_le (not_lt.mp negative)
    refine iff_of_false (fun ⟨f, failed⟩ => ?_) negative
    cases (evalBinary_shiftRight p a n).symm.trans failed

theorem fails_shiftLeft_iff (b : ℤ) : Fails p "<<" (.int a) (.int b) ↔ b < 0 ∨ maxShift < b := by
  by_cases negative : b < 0
  · have fault : evalBitwise .shiftLeft a b = .error (.negativeShift b) := if_pos negative
    exact iff_of_true ⟨_, congrArg (Except.mapError Stop.fault) fault⟩ (.inl negative)
  by_cases large : maxShift < b
  · have fault : evalBitwise .shiftLeft a b = .error (.excessiveShift b) :=
      (if_neg negative).trans (if_pos large)
    exact iff_of_true ⟨_, congrArg (Except.mapError Stop.fault) fault⟩ (.inr large)
  · obtain ⟨n, rfl⟩ := Int.eq_ofNat_of_zero_le (not_lt.mp negative)
    refine iff_of_false (fun ⟨f, failed⟩ => ?_) (not_or.mpr ⟨negative, large⟩)
    cases (evalBinary_shiftLeft p a (not_lt.mp large)).symm.trans failed

end

/-- Bit for bit, the operators are the operations on truth values. A shift to the right moves the
bits down, which is the quotient by a power of two, rounded down, however far it goes. A shift to
the left is the product with that power, which the shift back undoes. Shifts fail for negative
counts alone, and those to the left for counts that are too large. -/
theorem bitwise_twosComplement (p : Precision) (a b : ℤ) :
    (∃ m, evalBinary p "&" (.int a) (.int b) = .ok (.int m) ∧
      ∀ i, m.testBit i = (a.testBit i && b.testBit i)) ∧
    (∃ m, evalBinary p "|" (.int a) (.int b) = .ok (.int m) ∧
      ∀ i, m.testBit i = (a.testBit i || b.testBit i)) ∧
    (∃ m, evalBinary p "^" (.int a) (.int b) = .ok (.int m) ∧
      ∀ i, m.testBit i = (a.testBit i ^^ b.testBit i)) ∧
    (∃ m, evalUnary "~" (.int a) = .ok (.int m) ∧ ∀ i, m.testBit i = !a.testBit i) ∧
    (∀ n : Nat, ∃ m, evalBinary p ">>" (.int a) (.int n) = .ok (.int m) ∧
      (∀ i, m.testBit i = a.testBit (i + n)) ∧ m = ⌊(a : ℚ) / 2 ^ n⌋ ∧ m = a >>> n) ∧
    (∀ n : Nat, n ≤ maxShift → evalBinary p "<<" (.int a) (.int n) = .ok (.int (a * 2 ^ n)) ∧
      evalBinary p ">>" (.int (a * 2 ^ n)) (.int n) = .ok (.int a)) ∧
    (Fails p ">>" (.int a) (.int b) ↔ b < 0) ∧
    (Fails p "<<" (.int a) (.int b) ↔ b < 0 ∨ maxShift < b) := by
  refine ⟨⟨_, rfl, fun i => ?_⟩, ⟨_, rfl, fun i => ?_⟩, ⟨_, rfl, fun i => ?_⟩,
    ⟨_, rfl, fun i => ?_⟩,
    fun n => ⟨_, evalBinary_shiftRight p a n, fun i => ?_, ?_, ?_⟩,
    fun n small =>
      ⟨evalBinary_shiftLeft p a small, ?_⟩, fails_shiftRight_iff p a b, fails_shiftLeft_iff p a b⟩
  · rw [Bits.and_eq_land, Int.testBit_land]
  · rw [Bits.or_eq_lor, Int.testBit_lor]
  · rw [Bits.xor_eq_xor, Int.testBit_lxor]
  · rw [Bits.complement_eq_lnot, Int.testBit_lnot]
  · exact Bits.testBit_shiftRight a n i
  · rw [Bits.shiftRight_eq_ediv, floor_div_pow]
  · exact Bits.shiftRight_eq_shiftRight a n
  · rw [evalBinary_shiftRight, shiftRight_mul_pow]

/-- The largest count, and the one after it. -/
theorem bitwise_twosComplement_maxShift :
    (65536 : Nat) ≤ maxShift ∧
      evalBinary .standard "<<" (.int (-3)) (.int 65536) = .ok (.int (-3 * 2 ^ 65536)) ∧
      evalBinary .standard ">>" (.int (-3 * 2 ^ 65536)) (.int 65536) = .ok (.int (-3)) ∧
      Fails .standard "<<" (.int (-3)) (.int 65537) := by
  have small : (65536 : Nat) ≤ maxShift := by decide
  obtain ⟨-, -, -, -, -, left, -, fails⟩ := bitwise_twosComplement .standard (-3) 65537
  obtain ⟨product, back⟩ := left 65536 small
  exact ⟨small, product, back, fails.mpr (.inr (by decide))⟩

end Comptime
