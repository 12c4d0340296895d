import Comptime.Proofs.Decimal.Power.Drift

/-! Powers by squaring. In either order of the bits the result is off by no more than the exponent
and the base account for, one rounding for each factor. -/
namespace Comptime

theorem Drifts.bind {w : Precision} {j k : Nat} {x y : ℚ} {o : Except Signal Decimal}
    {f : Decimal → Except Signal Decimal} (h : Drifts w j x o) (hk : j ≤ k)
    (grows : max |x| 1 ≤ max |y| 1) (next : ∀ d, Near w j x d.value → Drifts w k y (f d)) :
    Drifts w k y (o >>= f) := by
  cases o with
  | ok d => exact next d h
  | error s =>
    refine ⟨h.1, h.2.trans (mul_le_mul (growth_mono w hk) grows ?_ ?_)⟩
    · exact zero_le_one.trans (le_max_right ..)
    · exact zero_le_one.trans (one_le_growth w k)

theorem Drifts.mono {w : Precision} {j k : Nat} {x : ℚ} {o : Except Signal Decimal}
    (h : Drifts w j x o) (hk : j ≤ k) : Drifts w k x o := by
  cases o with
  | ok d => exact Near.mono h hk
  | error s =>
    have grows := mul_le_mul_of_nonneg_right (growth_mono w hk)
      (zero_le_one.trans (le_max_right |x| 1))
    exact ⟨h.1, h.2.trans grows⟩

theorem oneSided_pow {x : ℚ} (hx : 0 ≤ x) (m n : Nat) : OneSided (x ^ m) (x ^ n) := by
  unfold OneSided
  rw [abs_of_nonneg (pow_nonneg hx m), abs_of_nonneg (pow_nonneg hx n)]
  rcases le_total x 1 with h | h
  · exact .inl ⟨pow_le_one₀ hx h, pow_le_one₀ hx h⟩
  · exact .inr ⟨one_le_pow₀ h, one_le_pow₀ h⟩

theorem max_pow_mono {x : ℚ} (hx : 0 ≤ x) {m n : Nat} (h : m ≤ n) :
    max |x ^ m| 1 ≤ max |x ^ n| 1 := by
  rw [abs_of_nonneg (pow_nonneg hx m), abs_of_nonneg (pow_nonneg hx n)]
  rcases le_total x 1 with h₁ | h₁
  · exact max_le ((pow_le_one₀ hx h₁).trans (le_max_right ..)) (le_max_right ..)
  · exact max_le_max_right 1 (pow_le_pow_right₀ h₁ h)

namespace Decimal

variable {w : Precision} {x : ℚ} {c : Nat} {b : Decimal}

/-- The power that has been read is off by one rounding less than it has factors, those that the
base has gone through counted for each of them. -/
theorem drifts_powerDown (hx : 0 ≤ x) (hb : Near w c x b.value) {n l : Nat}
    (hl : l + 1 = (c + 1) * n) (i : Nat) {m k : Nat} {y : Decimal} (hm : m = n / 2 ^ i)
    (hk : k + 1 = (c + 1) * m) (hy : Near w k (x ^ m) y.value) :
    Drifts w l (x ^ n) (powerDown w b n i y) := by
  have count {m k : Nat} (hm : m ≤ n) (hk : k + 1 = (c + 1) * m) : k ≤ l := by
    have := Nat.mul_le_mul_left (c + 1) hm
    omega
  induction i generalizing m k y with
  | zero =>
    obtain rfl : m = n := by rw [hm, pow_zero, Nat.div_one]
    obtain rfl : k = l := by omega
    exact hy
  | succ i ih =>
    have bit : n / 2 ^ i = 2 * m + n / 2 ^ i % 2 := by
      rw [hm, pow_succ, ← Nat.div_div_eq_div_mul]; omega
    have below : n / 2 ^ i ≤ n := Nat.div_le_self ..
    have twice : (c + 1) * (2 * m) = 2 * ((c + 1) * m) := by ring
    have square := drifts_mulTo .even (oneSided_pow hx m m) hy hy
    rw [← pow_add, ← two_mul m] at square
    refine square.bind (count (m := 2 * m) (by omega) (by omega)) (max_pow_mono hx (by omega)) ?_
    intro s hs
    rw [Nat.testBit_eq_decide_div_mod_eq]
    by_cases odd : n / 2 ^ i % 2 = 1
    · have step : (c + 1) * (2 * m + 1) = 2 * ((c + 1) * m) + (c + 1) := by ring
      have product := drifts_mulTo .even (oneSided_pow hx (2 * m) 1) hs ((pow_one x).symm ▸ hb)
      rw [← pow_add] at product
      rw [decide_eq_true odd, if_pos rfl]
      refine product.bind (count (m := 2 * m + 1) (by omega) (by omega))
        (max_pow_mono hx (by omega)) ?_
      exact fun z hz => ih (by omega) (by omega) hz
    · rw [decide_eq_false odd, if_neg Bool.false_ne_true]
      exact ih (y := s) (by omega) (by omega) hs

theorem powerUp_succ (w : Precision) (bits n : Nat) (a y : Decimal) :
    powerUp w (bits + 1) n a y = (if n % 2 = 1 then mulTo .even w y a else .ok y) >>= fun next =>
      if n / 2 = 0 then .ok next else mulTo .even w a a >>= fun square =>
        powerUp w bits (n / 2) square next := by
  rw [powerUp]
  split <;> rfl

/-- What has been multiplied and what is still to come account for the same number of roundings. -/
theorem drifts_powerUp (hx : 0 ≤ x) (bits : Nat) {n m l c k : Nat} {a y : Decimal} (hn : n ≠ 0)
    (bound : n < 2 ^ bits) (ha : Near w l (x ^ m) a.value) (hy : Near w k (x ^ c) y.value) :
    Drifts w (k + (l + 1) * n) (x ^ (c + m * n)) (powerUp w bits n a y) := by
  induction bits generalizing n m l c k a y with
  | zero => omega
  | succ bits ih =>
    -- `y` takes the factor of the lowest bit; the bits above it are those of `n / 2`, over `a * a`
    have parts : n = n % 2 + 2 * (n / 2) := (Nat.mod_add_div ..).symm
    have next : Drifts w (k + (l + 1) * (n % 2)) (x ^ (c + m * (n % 2)))
        (if n % 2 = 1 then mulTo .even w y a else .ok y) := by
      split_ifs with odd
      · rw [odd, mul_one, mul_one, pow_add, ← add_assoc]
        exact drifts_mulTo .even (oneSided_pow hx c m) hy ha
      · rw [show n % 2 = 0 by omega, mul_zero, mul_zero]
        exact hy
    rw [powerUp_succ]
    refine next.bind ?_ (max_pow_mono hx ?_) fun z hz => ?_
    · exact Nat.add_le_add_left (Nat.mul_le_mul_left _ (Nat.mod_le ..)) k
    · exact Nat.add_le_add_left (Nat.mul_le_mul_left _ (Nat.mod_le ..)) c
    split_ifs with done
    · rw [show n % 2 = n by omega] at hz
      exact hz
    have square := drifts_mulTo .even (oneSided_pow hx m m) ha ha
    rw [← pow_add] at square
    refine square.bind ?_ (max_pow_mono hx ?_) fun s hs => ?_
    · have : (l + 1) * 2 ≤ (l + 1) * n := Nat.mul_le_mul_left _ (by omega)
      omega
    · have : m * 2 ≤ m * n := Nat.mul_le_mul_left _ (by omega)
      omega
    have rest := ih done (by rw [pow_succ] at bound; omega) hs hz
    have roundings : k + (l + 1) * (n % 2) + (l + l + 1 + 1) * (n / 2) = k + (l + 1) * n := by
      conv_rhs => rw [parts]
      ring
    have factors : c + m * (n % 2) + (m + m) * (n / 2) = c + m * n := by
      conv_rhs => rw [parts]
      ring
    rwa [roundings, factors] at rest

theorem drifts_powerBySquaring (hx : 0 ≤ x) (hb : Near w c x b.value) {n : Nat} (hn : n ≠ 0) :
    Drifts w ((c + 1) * n) (x ^ n) (powerBySquaring w b n) := by
  have base : Near w c (x ^ 1) b.value := (pow_one x).symm ▸ hb
  unfold powerBySquaring
  split_ifs with short
  · have top : 1 = n / 2 ^ n.log2 := by
      refine (Nat.div_eq_of_lt_le ?_ ?_).symm
      · rw [one_mul]; exact Nat.log2_self_le hn
      · rw [← pow_succ']; exact Nat.lt_log2_self
    obtain ⟨l, hl⟩ : ∃ l, l + 1 = (c + 1) * n :=
      ⟨_, Nat.sub_add_cancel (Nat.mul_pos c.succ_pos (by omega))⟩
    exact (drifts_powerDown hx hb hl n.log2 top (by omega) base).mono (by omega)
  · have one : Near w 0 (x ^ 0) (⟨false, 1, 0⟩ : Decimal).value := by
      simpa [value, magnitude] using Near.refl w 1
    have up := drifts_powerUp hx (n.log2 + 1) hn Nat.lt_log2_self base one
    rwa [zero_add, zero_add, one_mul] at up

end Decimal
end Comptime
