import Mathlib
import Comptime.Digits

/-! The number of decimal digits is one more than the logarithm to base ten, and a run of digits
denotes what positional notation says. -/
namespace Comptime

theorem lt_pow_iff_log_lt (n : Nat) {k : Nat} (hk : 0 < k) : n < 10 ^ k ↔ Nat.log 10 n < k := by
  by_cases hn : n = 0
  · subst hn; simp [hk]
  · exact (Nat.log_lt_iff_lt_pow (by norm_num) hn).symm

theorem climbDigits_eq (n : Nat) (fuel d : Nat) (pos : 0 < d) (low : d ≤ Nat.log 10 n + 1)
    (high : Nat.log 10 n + 1 ≤ d + fuel) : climbDigits n fuel d = Nat.log 10 n + 1 := by
  induction fuel generalizing d with
  | zero => simp only [climbDigits]; omega
  | succ fuel ih =>
    simp only [climbDigits, Nat.pow_eq, lt_pow_iff_log_lt n pos]
    split_ifs with h
    · omega
    · exact ih (d + 1) (by omega) (by omega) (by omega)

theorem pow_ratio_le {b c k m : Nat} (hb : 0 < b) (hm : m ≠ 0) (h : b ^ k ≤ c ^ m) (n : Nat) :
    b ^ (n * k / m) ≤ c ^ n := by
  have power : (b ^ (n * k / m)) ^ m ≤ (c ^ n) ^ m := by
    calc (b ^ (n * k / m)) ^ m
        = b ^ (n * k / m * m) := (pow_mul ..).symm
      _ ≤ b ^ (k * n) :=
          Nat.pow_le_pow_right hb (by rw [mul_comm k]; exact Nat.div_mul_le_self ..)
      _ = (b ^ k) ^ n := pow_mul ..
      _ ≤ (c ^ m) ^ n := Nat.pow_le_pow_left h n
      _ = (c ^ n) ^ m := by rw [← pow_mul, ← pow_mul, mul_comm]
  exact (Nat.pow_le_pow_iff_left hm).mp power

theorem pow_log2_ratio_le {n : Nat} (hn : n ≠ 0) : 10 ^ (Nat.log2 n * 643 / 2136) ≤ n := by
  have ratio : (10 : Nat) ^ 643 ≤ 2 ^ 2136 := by decide +kernel
  exact (pow_ratio_le (by norm_num) (by norm_num) ratio _).trans (Nat.log2_self_le hn)

theorem digitCount_eq (n : Nat) : digitCount n = Nat.log 10 n + 1 := by
  refine climbDigits_eq n _ _ (by omega) ?_ ?_
  · by_cases hn : n = 0
    · subst hn; simp [Nat.log2_zero]
    · have h := Nat.le_log_of_pow_le (by norm_num) (pow_log2_ratio_le hn)
      omega
  · have h : Nat.log 10 n ≤ Nat.log 2 n := Nat.log_anti_left (by norm_num) (by norm_num)
    rw [Nat.log2_eq_log_two]
    omega

theorem digitCount_pos (n : Nat) : 0 < digitCount n := by
  rw [digitCount_eq]; omega

theorem lt_pow_digitCount (n : Nat) : n < 10 ^ digitCount n := by
  rw [digitCount_eq]; exact Nat.lt_pow_succ_log_self (by norm_num) n

theorem pow_digitCount_le {n : Nat} (hn : n ≠ 0) : 10 ^ (digitCount n - 1) ≤ n := by
  rw [digitCount_eq]; exact Nat.pow_log_le_self 10 hn

theorem digitCount_le_iff {n k : Nat} (hk : 0 < k) : digitCount n ≤ k ↔ n < 10 ^ k := by
  rw [digitCount_eq, lt_pow_iff_log_lt n hk]; omega

theorem lt_digitCount_iff {n k : Nat} (hn : n ≠ 0) : k < digitCount n ↔ 10 ^ k ≤ n := by
  rw [digitCount_eq, ← Nat.le_log_iff_pow_le (by norm_num) hn]; omega

/-! What a run of digits denotes. -/

theorem ofDigits_pairDigits (base : Nat) (ds : List Nat) :
    Nat.ofDigits (base * base) (pairDigits base ds) = Nat.ofDigits base ds := by
  fun_induction pairDigits base ds with
  | case1 low high rest ih =>
    simp only [Nat.ofDigits_cons, ih]; ring
  | case2 ds h =>
    match ds with
    | [] => rfl
    | [d] => simp
    | low :: high :: rest => exact absurd rfl (h low high rest)

theorem length_pairDigits (base : Nat) (ds : List Nat) :
    (pairDigits base ds).length = (ds.length + 1) / 2 := by
  fun_induction pairDigits base ds with
  | case1 low high rest ih => simp only [List.length_cons, ih]; omega
  | case2 ds h =>
    match ds with
    | [] => rfl
    | [d] => simp
    | low :: high :: rest => exact absurd rfl (h low high rest)

theorem joinDigits_eq (fuel base : Nat) (ds : List Nat) (h : ds.length ≤ 2 ^ fuel) :
    joinDigits fuel base ds = Nat.ofDigits base ds := by
  induction fuel generalizing base ds with
  | zero =>
    match ds with
    | [] => rfl
    | [d] => simp [joinDigits]
    | a :: b :: rest => simp at h
  | succ fuel ih =>
    have half : (pairDigits base ds).length ≤ 2 ^ fuel := by
      rw [length_pairDigits]; rw [pow_succ] at h; omega
    rw [joinDigits, ih _ _ half, ofDigits_pairDigits]

theorem positional_eq (base : Nat) (ds : List Nat) :
    positional base ds = Nat.ofDigits base ds.reverse := by
  refine joinDigits_eq _ _ _ ?_
  rw [List.length_reverse]
  exact Nat.lt_log2_self.le

theorem positional_append (base : Nat) (ds es : List Nat) :
    positional base (ds ++ es) = positional base ds * base ^ es.length + positional base es := by
  simp only [positional_eq, List.reverse_append, Nat.ofDigits_append, List.length_reverse]
  ring

end Comptime
