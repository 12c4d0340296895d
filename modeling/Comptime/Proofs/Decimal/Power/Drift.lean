import Comptime.Decimal.Power.Whole
import Comptime.Proofs.Decimal.Arithmetic

/-! How far roundings on the way take a result off. Each of them changes a number by half a unit of
its last digit at most, so that the errors of the factors and of the rounding multiply in a product.
-/
namespace Comptime

/-- The size that the error of a number is measured against. -/
def errorScale (x : ℚ) : ℚ := max |x| (10 ^ Precision.minAdjusted)

def Precision.unitRoundoff (w : Precision) : ℚ := 10 ^ (1 - w.digits : ℤ) / 2

theorem Precision.unitRoundoff_pos (w : Precision) : 0 < w.unitRoundoff :=
  half_pos (ten_zpow_pos _)

/-- A computed number that is off the exact one by no more than `k` roundings account for. -/
def Near (w : Precision) (k : Nat) (x y : ℚ) : Prop :=
  |y - x| ≤ ((1 + w.unitRoundoff) ^ k - 1) * errorScale x

/-- The same of an outcome. What overflows is that large, but for the roundings. -/
def Drifts (w : Precision) (k : Nat) (x : ℚ) : Except Signal Decimal → Prop
  | .ok d => Near w k x d.value
  | .error s => s = .overflow ∧
      10 ^ (Precision.maxAdjusted + 1) ≤ (1 + w.unitRoundoff) ^ k * max |x| 1

/-- Neither number is nearer to zero than one where the other is farther. -/
def OneSided (x y : ℚ) : Prop := |x| ≤ 1 ∧ |y| ≤ 1 ∨ 1 ≤ |x| ∧ 1 ≤ |y|

theorem ten_zpow_minAdjusted_le_one : (10 : ℚ) ^ Precision.minAdjusted ≤ 1 := by
  rw [← zpow_zero (10 : ℚ)]
  exact ten_zpow_mono (by decide)

theorem errorScale_pos (x : ℚ) : 0 < errorScale x := lt_max_of_lt_right (ten_zpow_pos _)

theorem abs_le_errorScale (x : ℚ) : |x| ≤ errorScale x := le_max_left ..

theorem errorScale_le (x : ℚ) : errorScale x ≤ max |x| 1 :=
  max_le_max_left _ ten_zpow_minAdjusted_le_one

theorem errorScale_mul_le {x y : ℚ} (h : OneSided x y) :
    errorScale x * errorScale y ≤ errorScale (x * y) := by
  have pos := ten_zpow_pos Precision.minAdjusted
  have one := ten_zpow_minAdjusted_le_one
  unfold errorScale
  generalize (10 : ℚ) ^ Precision.minAdjusted = m at pos one
  rw [abs_mul]
  rcases h with ⟨hx, hy⟩ | ⟨hx, hy⟩
  · rcases max_cases |x| m with ⟨ex, -⟩ | ⟨ex, -⟩ <;>
      rcases max_cases |y| m with ⟨ey, -⟩ | ⟨ey, -⟩ <;>
      rw [ex, ey]
    · exact le_max_left ..
    · exact le_max_of_le_right (mul_le_of_le_one_left pos.le hx)
    · exact le_max_of_le_right (mul_le_of_le_one_right pos.le hy)
    · exact le_max_of_le_right (mul_le_of_le_one_left pos.le one)
  · rw [max_eq_left (one.trans hx), max_eq_left (one.trans hy)]
    exact le_max_left ..

theorem one_le_growth (w : Precision) (k : Nat) : 1 ≤ (1 + w.unitRoundoff) ^ k :=
  one_le_pow₀ (by linarith [w.unitRoundoff_pos])

theorem growth_mono (w : Precision) {j k : Nat} (h : j ≤ k) :
    (1 + w.unitRoundoff) ^ j ≤ (1 + w.unitRoundoff) ^ k :=
  pow_le_pow_right₀ (by linarith [w.unitRoundoff_pos]) h

variable {w : Precision} {j k : Nat} {x y : ℚ}

theorem Near.refl (w : Precision) (x : ℚ) : Near w 0 x x := by simp [Near]

theorem Near.mono {y : ℚ} (h : Near w j x y) (hk : j ≤ k) : Near w k x y :=
  h.trans (mul_le_mul_of_nonneg_right (by linarith [growth_mono w hk]) (errorScale_pos x).le)

theorem Near.abs (h : Near w k x y) (hx : 0 ≤ x) : Near w k x |y| := by
  have := abs_abs_sub_abs_le_abs_sub y x
  rw [abs_of_nonneg hx] at this
  exact this.trans h

theorem Near.errorScale_le (h : Near w k x y) :
    errorScale y ≤ (1 + w.unitRoundoff) ^ k * errorScale x := by
  have growth := one_le_growth w k
  have pos := errorScale_pos x
  refine max_le ?_ ?_
  · have := abs_sub_abs_le_abs_sub y x
    have := abs_le_errorScale x
    unfold Near at h
    linarith
  · exact (le_max_right ..).trans (le_mul_of_one_le_left pos.le growth)

theorem Near.mul {a b : ℚ} (side : OneSided x y) (ha : Near w j x a) (hb : Near w k y b) :
    Near w (j + k) (x * y) (a * b) := by
  unfold Near at ha hb ⊢
  have hx := abs_le_errorScale x
  have hy := abs_le_errorScale y
  have px := errorScale_pos x
  have py := errorScale_pos y
  have gj := one_le_growth w j
  have gk := one_le_growth w k
  have prod := errorScale_mul_le side
  rw [pow_add]
  generalize (1 + w.unitRoundoff) ^ j = G at ha gj
  generalize (1 + w.unitRoundoff) ^ k = H at hb gk
  have e₁ : |x * (b - y)| ≤ errorScale x * ((H - 1) * errorScale y) := by
    rw [abs_mul]; exact mul_le_mul hx hb (abs_nonneg _) px.le
  have e₂ : |y * (a - x)| ≤ errorScale y * ((G - 1) * errorScale x) := by
    rw [abs_mul]; exact mul_le_mul hy ha (abs_nonneg _) py.le
  have e₃ : |(a - x) * (b - y)| ≤ (G - 1) * errorScale x * ((H - 1) * errorScale y) := by
    rw [abs_mul]; exact mul_le_mul ha hb (abs_nonneg _) (mul_nonneg (by linarith) px.le)
  calc |a * b - x * y| = |x * (b - y) + y * (a - x) + (a - x) * (b - y)| := by congr 1; ring
    _ ≤ |x * (b - y)| + |y * (a - x)| + |(a - x) * (b - y)| := abs_add_three ..
    _ ≤ (G * H - 1) * (errorScale x * errorScale y) := by linarith
    _ ≤ (G * H - 1) * errorScale (x * y) :=
        mul_le_mul_of_nonneg_left prod (by nlinarith)

/-! One rounding. -/

theorem ten_zpow_unitExp_le (w : Precision) {q : ℚ} (hq : q ≠ 0) :
    10 ^ w.unitExp q / 2 ≤ w.unitRoundoff * errorScale q := by
  have split : (10 : ℚ) ^ w.unitExp q =
    10 ^ (1 - w.digits : ℤ) * 10 ^ max (leading q) Precision.minAdjusted := by
    rw [← ten_zpow_add]
    congr 1
    simp only [Precision.unitExp, Precision.lowestExp]
    omega
  have size : (10 : ℚ) ^ max (leading q) Precision.minAdjusted ≤ errorScale q := by
    rcases max_cases (leading q) Precision.minAdjusted with ⟨h, -⟩ | ⟨h, -⟩ <;> rw [h]
    · exact ((le_leading_iff hq _).mp le_rfl).trans (abs_le_errorScale q)
    · exact le_max_right ..
  rw [split, Precision.unitRoundoff]
  have := mul_le_mul_of_nonneg_left size (ten_zpow_pos (1 - w.digits : ℤ)).le
  linarith

namespace Decimal

theorem coeff_ne_zero_of_near {d r : Decimal} {e : ℤ} (hd : d.coeff ≠ 0) (he : e ≤ d.adjusted)
    (h : |r.value - d.value| ≤ 10 ^ e / 2) : r.coeff ≠ 0 := by
  intro zero
  rw [(value_eq_zero_iff r).mpr zero, zero_sub, abs_neg, abs_value] at h
  have := (ten_zpow_mono he).trans (pow_adjusted_le hd)
  linarith [ten_zpow_pos e]

theorem drifts_bounded {d r : Decimal} (hd : d.coeff ≠ 0)
    (h : |r.value - d.value| ≤ 10 ^ w.unitExp d.value / 2)
    (zero : r.coeff = 0 → r.exp = w.unitExp d.value) (hx : Near w k x d.value) :
    Drifts w (k + 1) x (bounded r) := by
  have off := h.trans (ten_zpow_unitExp_le w (value_ne_zero hd))
  have grown := mul_le_mul_of_nonneg_left hx.errorScale_le w.unitRoundoff_pos.le
  have size := abs_le_errorScale d.value
  have scale := hx.errorScale_le
  unfold bounded
  split_ifs with high
  · have nonzero : r.coeff ≠ 0 := by
      intro hz
      have low := w.lowestExp_le
      have pos := w.digits_pos
      have lead := adjusted_eq hd
      refine coeff_ne_zero_of_near hd ?_ h hz
      rw [adjusted, hz, zero hz] at high
      simp only [digitCount_eq, Nat.log_zero_right, Precision.maxAdjusted,
        Precision.unitExp] at high ⊢
      omega
    have top : (10 : ℚ) ^ (Precision.maxAdjusted + 1) ≤ |r.value| := by
      rw [abs_value]
      exact (ten_zpow_mono (by omega)).trans (pow_adjusted_le nonzero)
    refine ⟨rfl, ?_⟩
    have := abs_sub_abs_le_abs_sub r.value d.value
    have := mul_le_mul_of_nonneg_left (errorScale_le x)
      (zero_le_one.trans (one_le_growth w (k + 1)))
    rw [pow_succ] at this ⊢
    linarith
  · have := abs_sub_le r.value d.value x
    unfold Drifts Near at *
    rw [pow_succ]
    linarith

theorem drifts_roundTo (t : Tie) {d : Decimal} (hx : Near w k x d.value) :
    Drifts w (k + 1) x (roundTo t w d) := by
  unfold roundTo
  split_ifs with hz
  · have zero : d.value = 0 := value_of_isZero hz
    have same :
        ({ d with exp := min (max d.exp w.lowestExp) Precision.maxAdjusted } : Decimal).value =
          d.value := by
      rw [zero, value_eq_zero_iff]
      exact (isZero_iff d).mp hz
    have grown := hx.mono (Nat.le_succ k)
    rwa [← same] at grown
  have hd : d.coeff ≠ 0 := mt (isZero_iff d).mpr hz
  simp only [roundingExp_eq hd]
  split_ifs with he
  · refine drifts_bounded hd ?_ (fun h => absurd h hd) hx
    rw [sub_self, abs_zero]
    exact (half_pos (ten_zpow_pos _)).le
  · refine drifts_bounded hd ?_ (fun h => ?_) hx
    · rw [value_carried]; exact abs_quantized_sub_le t d (by omega)
    · exact (exp_carried_of_zero h).2

theorem drifts_mulTo (t : Tie) {a b : Decimal} (side : OneSided x y) (ha : Near w j x a.value)
    (hb : Near w k y b.value) : Drifts w (j + k + 1) (x * y) (mulTo t w a b) := by
  refine drifts_roundTo t ?_
  rw [value_product]
  exact ha.mul side hb

end Decimal
end Comptime
