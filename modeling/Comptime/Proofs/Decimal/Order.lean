import Comptime.Decimal.Order
import Comptime.Proofs.Decimal.Value

/-! The order of decimals is the order of their values. -/
namespace Comptime.Decimal

theorem compares_compare {α : Type*} [LinearOrder α] (x y : α) : (compare x y).Compares x y := by
  cases h : compare x y with
  | lt => exact compare_lt_iff_lt.mp h
  | eq => exact compare_eq_iff_eq.mp h
  | gt => exact compare_gt_iff_gt.mp h

theorem Compares.of_iff {α β : Type*} [LinearOrder α] [LinearOrder β] {o : Ordering} {x y : α}
    {u v : β} (h : o.Compares x y) (lt : x < y → u < v) (eq : x = y → u = v) (gt : y < x → v < u) :
    o.Compares u v := by
  cases o with
  | lt => exact lt h
  | eq => exact eq h
  | gt => exact gt h

theorem magnitude_lt_of_coeffAt {a b : Decimal} {e : ℤ} (ha : e ≤ a.exp) (hb : e ≤ b.exp)
    (h : a.coeffAt e < b.coeffAt e) : a.magnitude < b.magnitude := by
  have units : (a.coeffAt e : ℚ) < b.coeffAt e := by exact_mod_cast h
  rwa [coeffAt_cast a ha, coeffAt_cast b hb, div_lt_div_iff_of_pos_right (ten_zpow_pos e)] at units

theorem compareMagnitude_compares {a b : Decimal} (ha : a.coeff ≠ 0) (hb : b.coeff ≠ 0) :
    (compareMagnitude a b).Compares a.magnitude b.magnitude := by
  unfold compareMagnitude
  have lead := compares_compare a.adjusted b.adjusted
  cases ho : compare a.adjusted b.adjusted with
  | lt => rw [ho] at lead; exact magnitude_lt_of_adjusted hb lead
  | gt => rw [ho] at lead; exact magnitude_lt_of_adjusted ha lead
  | eq =>
    refine Compares.of_iff (compares_compare ..) ?_ ?_ ?_
    · exact magnitude_lt_of_coeffAt (min_le_left ..) (min_le_right ..)
    · intro h
      have ua := coeffAt_cast a (min_le_left a.exp b.exp)
      have ub := coeffAt_cast b (min_le_right a.exp b.exp)
      rwa [← h, ua, div_left_inj' (ten_zpow_pos _).ne'] at ub
    · exact magnitude_lt_of_coeffAt (min_le_right ..) (min_le_left ..)

theorem compareValue_compares (a b : Decimal) : (compareValue a b).Compares a.value b.value := by
  have pos {d : Decimal} (h : d.isZero = false) : d.coeff ≠ 0 ∧ 0 < d.magnitude := by
    have hd : d.coeff ≠ 0 := by simpa [isZero] using h
    exact ⟨hd, magnitude_pos hd⟩
  unfold compareValue
  cases ha : a.isZero <;> cases hb : b.isZero
  case true.true => rw [value_of_isZero ha, value_of_isZero hb]; rfl
  case true.false =>
    have := (pos hb).2
    rw [value_of_isZero ha, value]
    cases b.neg <;> simpa [Ordering.Compares]
  case false.true =>
    have := (pos ha).2
    rw [value_of_isZero hb, value]
    cases a.neg <;> simpa [Ordering.Compares]
  case false.false =>
    obtain ⟨ha, pa⟩ := pos ha
    obtain ⟨hb, pb⟩ := pos hb
    unfold value
    cases a.neg <;> cases b.neg <;> simp only [signOf_true, signOf_false, one_mul, neg_mul]
    case false.false => exact compareMagnitude_compares ha hb
    case true.true =>
      refine Compares.of_iff (compareMagnitude_compares hb ha) ?_ ?_ ?_
      · exact neg_lt_neg
      · intro h; simp [h]
      · exact neg_lt_neg
    all_goals simp only [Ordering.Compares]; linarith

theorem sameValue_iff (a b : Decimal) : a.sameValue b = true ↔ a.value = b.value := by
  simp [sameValue, (compareValue_compares a b).eq_eq]

end Comptime.Decimal
