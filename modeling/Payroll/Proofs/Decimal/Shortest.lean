import Payroll.Proofs.Decimal.Value

/-!
# One shortest form

Decimals of one value have one form without trailing zeros, with its scale and its sign. A key that
spells amounts in this form cannot tell how they were written.
-/

set_option autoImplicit false

namespace Payroll.Decimal

/-- Zeros are dropped as long as there is a digit after the point and the last one is a zero. -/
theorem stripZeros_last (m s : ℕ) : (stripZeros m s).2 = 0 ∨ (stripZeros m s).1 % 10 ≠ 0 := by
  induction s generalizing m with
  | zero => exact .inl rfl
  | succ s ih =>
    unfold stripZeros
    split
    · exact ih (m / 10)
    · next h => exact .inr h

theorem eq_of_last_of_le {m n s t : ℕ} (hn : t = 0 ∨ n % 10 ≠ 0) (hst : s ≤ t)
    (h : m * 10 ^ t = n * 10 ^ s) : m = n ∧ s = t := by
  obtain ⟨k, rfl⟩ := Nat.exists_eq_add_of_le hst
  have hmn : m * 10 ^ k = n := by
    apply Nat.eq_of_mul_eq_mul_right (by positivity : 0 < 10 ^ s)
    rw [← h, pow_add]
    ring
  cases k with
  | zero => exact ⟨by simpa using hmn, rfl⟩
  | succ k =>
    have hzero : n % 10 = 0 := by
      rw [← hmn, pow_succ, ← mul_assoc]
      exact Nat.mul_mod_left _ _
    rcases hn with hn | hn
    · omega
    · exact absurd hzero hn

theorem eq_of_last {m n s t : ℕ} (hm : s = 0 ∨ m % 10 ≠ 0) (hn : t = 0 ∨ n % 10 ≠ 0)
    (h : m * 10 ^ t = n * 10 ^ s) : m = n ∧ s = t := by
  rcases le_total s t with hst | hts
  · exact eq_of_last_of_le hn hst h
  · obtain ⟨hnm, hts⟩ := eq_of_last_of_le hm hts h.symm
    exact ⟨hnm.symm, hts.symm⟩

theorem negative_normalize_iff (a : Decimal) : a.normalize.negative = true ↔ a.value < 0 := by
  have hsign := value_eq_sign a
  have hnonneg := abs_nonneg a.value
  simp only [normalize, Bool.and_eq_true, Bool.not_eq_true', ← Bool.not_eq_true, isZero_iff]
  constructor
  · rintro ⟨hnegative, hne⟩
    rw [if_pos hnegative] at hsign
    exact lt_of_le_of_ne (by linarith) hne
  · intro hlt
    refine ⟨?_, ne_of_lt hlt⟩
    by_contra hnegative
    rw [if_neg hnegative] at hsign
    linarith

theorem normalize_congr {a b : Decimal} (h : a.value = b.value) : a.normalize = b.normalize := by
  have habs : (a.magnitude : ℚ) / 10 ^ a.scale = b.magnitude / 10 ^ b.scale := by
    rw [← abs_value, ← abs_value, h]
  rw [← stripZeros_eq a.magnitude, ← stripZeros_eq b.magnitude,
    div_eq_div_iff (by positivity) (by positivity)] at habs
  obtain ⟨hmagnitude, hscale⟩ :=
    eq_of_last (stripZeros_last _ _) (stripZeros_last _ _) (by exact_mod_cast habs)
  apply ext
  · rw [Bool.eq_iff_iff, negative_normalize_iff, negative_normalize_iff, h]
  · exact hmagnitude
  · exact hscale

end Payroll.Decimal
