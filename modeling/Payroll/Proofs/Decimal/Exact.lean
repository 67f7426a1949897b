import Payroll.Proofs.Decimal.Monotone
import Payroll.Proofs.Outcome

/-!
# Where no digits are dropped

An operation drops digits only if no decimal has the exact value of its result. Amounts that are
added up one after another have their exact sum if each partial sum is the value of a decimal.
-/

set_option autoImplicit false

namespace Payroll

namespace Rounding

theorem abs_toAway_sub_le (x : ℚ) : |(toAway x : ℚ) - x| ≤ 1 / 2 := by
  unfold toAway
  rw [abs_le]
  split
  · have hlow := Int.floor_le (-x + 1 / 2)
    have hhigh := Int.lt_floor_add_one (-x + 1 / 2)
    push_cast
    constructor <;> linarith
  · have hlow := Int.floor_le (x + 1 / 2)
    have hhigh := Int.lt_floor_add_one (x + 1 / 2)
    constructor <;> linarith

end Rounding

namespace Decimal

open Rounding

theorem abs_roundCents_sub_le (a : Decimal) : |a.roundCents.value - a.value| ≤ 1 / 200 := by
  unfold roundCents
  rw [value_roundPlaces]
  have hdist := abs_le.mp (abs_toAway_sub_le (a.value * 10 ^ 2))
  rw [abs_le]
  constructor <;> linarith

/-- The value of a decimal. -/
def Representable (x : ℚ) : Prop := ∃ a : Decimal, a.value = x

theorem representable_iff {x : ℚ} : Representable x ↔ nearest? x = some x := by
  constructor
  · rintro ⟨a, rfl⟩
    exact nearest?_value a
  · intro h
    obtain ⟨t, ht, hfit, -, hx⟩ := nearest?_spec h
    obtain ⟨a, -, ha⟩ := ofParts?_isSome hfit ht
    refine ⟨a, ?_⟩
    rw [ha, ← hx]
    field_simp

instance (x : ℚ) : Decidable (Representable x) := decidable_of_iff _ representable_iff.symm

section
variable {a b c : Decimal}

theorem value_of_add? (h : a.add? b = some c) (hexact : Representable (a.value + b.value)) :
    c.value = a.value + b.value := by
  have hc := nearest?_of_eq_some (value_add? a b) h
  rw [representable_iff.mp hexact] at hc
  exact (Option.some.inj hc).symm

theorem value_of_sub? (h : a.sub? b = some c) (hexact : Representable (a.value - b.value)) :
    c.value = a.value - b.value := by
  have hc := nearest?_of_eq_some (value_sub? a b) h
  rw [representable_iff.mp hexact] at hc
  exact (Option.some.inj hc).symm

end

/-- Adding up these numbers from the left drops no digits. -/
def SumsExactly (xs : List ℚ) : Prop := ∀ n, Representable (xs.take n).sum

theorem sumsExactly_iff {xs : List ℚ} :
    SumsExactly xs ↔ ∀ ys ∈ xs.inits, Representable ys.sum := by
  constructor
  · intro h ys hys
    rw [List.prefix_iff_eq_take.mp ((List.mem_inits ys xs).mp hys)]
    exact h _
  · intro h n
    exact h _ ((List.mem_inits _ xs).mpr (List.take_prefix n xs))

instance (xs : List ℚ) : Decidable (SumsExactly xs) := decidable_of_iff _ sumsExactly_iff.symm

theorem value_of_foldlM {ε α : Type} {f : Decimal → α → Except ε Decimal} {amount : α → Decimal}
    (hf : ∀ a x c, f a x = .ok c → a.add? (amount x) = some c) {xs : List α}
    {start total : Decimal} (h : xs.foldlM f start = .ok total)
    (hexact : ∀ n, Representable (start.value + ((xs.map fun x => (amount x).value).take n).sum)) :
    total.value = start.value + (xs.map fun x => (amount x).value).sum := by
  induction xs generalizing start with
  | nil =>
    cases h
    simp
  | cons x rest ih =>
    rw [List.foldlM_cons] at h
    obtain ⟨next, hnext, h⟩ := bind_eq_ok h
    have hfirst : next.value = start.value + (amount x).value := by
      apply value_of_add? (hf _ _ _ hnext)
      simpa using hexact 1
    have hrest : total.value = next.value + (rest.map fun x => (amount x).value).sum := by
      apply ih h
      intro n
      rw [hfirst]
      simpa [add_assoc] using hexact (n + 1)
    rw [hrest, hfirst, List.map_cons, List.sum_cons, add_assoc]

theorem value_of_foldlM_zero {ε α : Type} {f : Decimal → α → Except ε Decimal}
    {amount : α → Decimal} (hf : ∀ a x c, f a x = .ok c → a.add? (amount x) = some c)
    {xs : List α} {total : Decimal} (h : xs.foldlM f .zero = .ok total)
    (hexact : SumsExactly (xs.map fun x => (amount x).value)) :
    total.value = (xs.map fun x => (amount x).value).sum := by
  have hsum := value_of_foldlM hf h fun n => by simpa using hexact n
  rwa [value_zero, zero_add] at hsum

end Decimal

end Payroll
