import Payroll.Proofs.Decimal.Quotient
import Payroll.Proofs.Outcome

/-!
# Operations see values only

Operands of equal values have results of equal values, or none on either side. Two outcomes agree
when they become equal once every amount in them is replaced by its value.
-/

set_option autoImplicit false

namespace Payroll.Decimal

def SameValue (a b : Decimal) : Prop := a.value = b.value

section
variable {a a' b b' : Decimal} (ha : a.value = a'.value) (hb : b.value = b'.value)
include ha

theorem isZero_congr : a.isZero = a'.isZero := by
  rw [Bool.eq_iff_iff, isZero_iff, isZero_iff, ha]

theorem value_roundPlaces_congr (places : ℕ) :
    (a.roundPlaces places).value = (a'.roundPlaces places).value := by
  rw [value_roundPlaces, value_roundPlaces, ha]

include hb

theorem le_congr : a.le b = a'.le b' := by
  rw [Bool.eq_iff_iff, le_iff, le_iff, ha, hb]

theorem lt_congr : a.lt b = a'.lt b' := by
  rw [Bool.eq_iff_iff, lt_iff, lt_iff, ha, hb]

theorem same_congr : a.same b = a'.same b' := by
  rw [Bool.eq_iff_iff, same_iff, same_iff, ha, hb]

theorem map_add?_congr : (a.add? b).map value = (a'.add? b').map value := by
  rw [value_add?, value_add?, ha, hb]

theorem map_sub?_congr : (a.sub? b).map value = (a'.sub? b').map value := by
  rw [value_sub?, value_sub?, ha, hb]

theorem map_mul?_congr : (a.mul? b).map value = (a'.mul? b').map value := by
  rw [value_mul?, value_mul?, ha, hb]

theorem map_div?_congr : (a.div? b).map value = (a'.div? b').map value := by
  by_cases h : b.value = 0
  · rw [div?_of_isZero h, div?_of_isZero (hb ▸ h)]
  · rw [value_div? a b h, value_div? a' b' (hb ▸ h), ha, hb]

end

/-- A sum of checked steps over two lists, row by row of equal values. -/
theorem map_foldlM_congr {ε α β : Type} {R : α → β → Prop} {f : Decimal → α → Except ε Decimal}
    {g : Decimal → β → Except ε Decimal} {xs : List α} {ys : List β} {a b : Decimal}
    (hstep : ∀ a b x y, a.value = b.value → R x y → (f a x).map value = (g b y).map value)
    (hxs : List.Forall₂ R xs ys) (hab : a.value = b.value) :
    (xs.foldlM f a).map value = (ys.foldlM g b).map value := by
  induction hxs generalizing a b with
  | nil => exact congrArg Except.ok hab
  | cons hxy _ ih =>
    rw [List.foldlM_cons, List.foldlM_cons]
    exact map_bind_congr (hstep _ _ _ _ hab hxy) fun _ _ h => ih h

end Payroll.Decimal
