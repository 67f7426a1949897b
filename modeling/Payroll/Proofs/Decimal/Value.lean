import Payroll.Proofs.Decimal.Nearest

/-!
# Values of decimals

The comparisons of decimals are those of the numbers that they denote, and none of the operations
that only rearrange a decimal changes its number.
-/

set_option autoImplicit false

namespace Payroll.Decimal

open Rounding

theorem value_eq (a : Decimal) : a.value = a.coefficient / 10 ^ a.scale := by
  unfold value
  rw [Rat.mkRat_eq_div]
  push_cast
  rfl

theorem value_mul_pow (a : Decimal) : a.value * 10 ^ a.scale = a.coefficient := by
  rw [value_eq]
  field_simp

/-- Multiplying with both powers of ten turns a comparison of values into one of integers. -/
theorem value_le_iff (a b : Decimal) :
    a.value ≤ b.value ↔ a.coefficient * 10 ^ b.scale ≤ b.coefficient * 10 ^ a.scale := by
  rw [value_eq, value_eq, div_le_div_iff₀ (by positivity) (by positivity)]
  exact_mod_cast Iff.rfl

theorem le_iff (a b : Decimal) : a.le b = true ↔ a.value ≤ b.value := by
  rw [value_le_iff]
  exact decide_eq_true_iff

theorem lt_iff (a b : Decimal) : a.lt b = true ↔ a.value < b.value := by
  rw [← not_le, ← le_iff, lt]
  simp

theorem same_iff (a b : Decimal) : a.same b = true ↔ a.value = b.value := by
  rw [value_eq, value_eq, div_eq_div_iff (by positivity) (by positivity)]
  exact decide_eq_true_iff.trans (by exact_mod_cast Iff.rfl)

theorem coefficient_eq_zero_iff (a : Decimal) : a.coefficient = 0 ↔ a.magnitude = 0 := by
  rw [← natAbs_coefficient]
  exact Int.natAbs_eq_zero.symm

theorem isZero_iff (a : Decimal) : a.isZero = true ↔ a.value = 0 := by
  rw [value_eq, div_eq_zero_iff, Int.cast_eq_zero, coefficient_eq_zero_iff]
  unfold isZero
  simp

@[simp] theorem value_zero : zero.value = 0 := by
  rw [value_eq]
  norm_num [zero, coefficient]

@[simp] theorem value_one : one.value = 1 := by
  rw [value_eq]
  norm_num [one, coefficient]

@[simp] theorem value_hundred : hundred.value = 100 := by
  rw [value_eq]
  norm_num [hundred, coefficient]

@[simp] theorem value_neg (a : Decimal) : (-a).value = -a.value := by
  have h : (-a).coefficient = -a.coefficient := by
    change (neg a).coefficient = _
    unfold neg coefficient
    cases a.negative <;> simp
  rw [value_eq, value_eq, h, Int.cast_neg, neg_div]
  rfl

@[simp] theorem value_abs (a : Decimal) : a.abs.value = |a.value| := by
  have h : a.abs.coefficient = |a.coefficient| := by
    rw [Int.abs_eq_natAbs, natAbs_coefficient]
    rfl
  rw [value_eq, value_eq, h, abs_div, abs_of_pos (by positivity : (0 : ℚ) < 10 ^ a.scale)]
  push_cast
  rfl

theorem value_eq_magnitude (a : Decimal) :
    a.value = (if a.negative then -(a.magnitude : ℚ) else a.magnitude) / 10 ^ a.scale := by
  rw [value_eq, coefficient]
  split <;> push_cast <;> rfl

theorem abs_value (a : Decimal) : |a.value| = a.magnitude / 10 ^ a.scale := by
  rw [← value_abs, value_eq_magnitude]
  simp [abs]

theorem value_eq_sign (a : Decimal) :
    a.value = if a.negative then -|a.value| else |a.value| := by
  rw [abs_value, value_eq_magnitude]
  split
  · rw [neg_div]
  · rfl

theorem value_of_ofParts? {c : ℤ} {s : ℕ} {d : Decimal} (h : ofParts? c s = some d) :
    d.value = c / 10 ^ s := by
  obtain ⟨hc, hs, _⟩ := ofParts?_eq_some_iff.mp h
  rw [value_eq, hc, hs]

theorem ofParts?_isSome {c : ℤ} {s : ℕ} (hc : c.natAbs < capacity) (hs : s ≤ maxScale) :
    ∃ d, ofParts? c s = some d ∧ d.value = c / 10 ^ s := by
  have h : ofParts? c s = some ⟨decide (c < 0), c.natAbs, s, hc, hs⟩ := dif_pos ⟨hc, hs⟩
  exact ⟨_, h, value_of_ofParts? h⟩

theorem nearest?_value (a : Decimal) : nearest? a.value = some a.value := by
  refine nearest?_of_mul_eq a.scale_le (value_mul_pow a) ?_
  rw [natAbs_coefficient]
  exact a.magnitude_lt

theorem nearest?_of_eq_some {x : ℚ} {outcome : Option Decimal} {a : Decimal}
    (h : outcome.map value = nearest? x) (ha : outcome = some a) : nearest? x = some a.value := by
  rw [← h, ha]
  rfl

theorem abs_value_le (a : Decimal) : |a.value| ≤ 2 ^ 96 - 1 := by
  have hm : (a.magnitude : ℚ) ≤ 2 ^ 96 - 1 := by
    have h : a.magnitude + 1 ≤ 2 ^ 96 := a.magnitude_lt
    have : ((a.magnitude + 1 : ℕ) : ℚ) ≤ (2 ^ 96 : ℕ) := by exact_mod_cast h
    push_cast at this
    linarith
  have hpow : (1 : ℚ) ≤ 10 ^ a.scale := one_le_pow₀ (by norm_num)
  rw [abs_value]
  exact le_trans (div_le_self (by positivity) hpow) hm

theorem value_min (a b : Decimal) : (min a b).value = Min.min a.value b.value := by
  unfold min
  by_cases h : a.value ≤ b.value
  · rw [if_pos ((le_iff a b).mpr h), min_eq_left h]
  · rw [if_neg (mt (le_iff a b).mp h), min_eq_right (le_of_not_ge h)]

theorem value_max (a b : Decimal) : (max a b).value = Max.max a.value b.value := by
  unfold max
  by_cases h : b.value ≤ a.value
  · rw [if_pos ((le_iff b a).mpr h), max_eq_left h]
  · rw [if_neg (mt (le_iff b a).mp h), max_eq_right (le_of_not_ge h)]

theorem stripZeros_eq (m s : ℕ) :
    ((stripZeros m s).1 : ℚ) / 10 ^ (stripZeros m s).2 = m / 10 ^ s := by
  induction s generalizing m with
  | zero => rfl
  | succ s ih =>
    unfold stripZeros
    split
    next h =>
      rw [ih]
      have hm : (m : ℚ) = (m / 10 : ℕ) * 10 := by
        exact_mod_cast (Nat.div_mul_cancel (Nat.dvd_of_mod_eq_zero h)).symm
      rw [hm, pow_succ]
      field_simp
    next => rfl

@[simp] theorem value_normalize (a : Decimal) : a.normalize.value = a.value := by
  have h := stripZeros_eq a.magnitude a.scale
  by_cases hz : a.isZero = true
  · have hm : a.magnitude = 0 := by simpa [isZero] using hz
    rw [hm] at h
    have hn : a.normalize.value =
        ((stripZeros 0 a.scale).1 : ℚ) / 10 ^ (stripZeros 0 a.scale).2 := by
      rw [value_eq_magnitude]
      simp [normalize, hz, hm]
    rw [hn, h, (isZero_iff a).mp hz]
    simp
  · rw [value_eq_magnitude, value_eq_magnitude]
    unfold normalize
    rw [Bool.not_eq_true] at hz
    cases hneg : a.negative
    · simpa [hz] using h
    · simpa [hz, neg_div] using h

end Payroll.Decimal
