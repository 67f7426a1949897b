import Payroll.Formula.Application
import Payroll.Proofs.Decimal.Congruence

/-!
# Operators on values

An operator that got as many values as it takes answers, or fails for an arithmetic reason; it never
aborts. Its answer depends on the values of its operands and not on how they are written.
-/

set_option autoImplicit false

namespace Payroll

namespace PayError

/-- What operands can cause: a divisor of zero, or a result that is too large. -/
def IsArithmetic : PayError → Prop
  | divisionByZero _ | overflow _ => True
  | _ => False

end PayError

def Halt.IsArithmetic (h : Halt) : Prop := ∃ cause, h = .error cause ∧ cause.IsArithmetic

def Halt.IsOverflow (h : Halt) : Prop := ∃ context, h = .error (.overflow context)

theorem Halt.IsOverflow.isArithmetic {h : Halt} (hover : h.IsOverflow) : h.IsArithmetic := by
  obtain ⟨context, rfl⟩ := hover
  exact ⟨_, rfl, trivial⟩

theorem Halt.isOverflow_of_guarded {α : Type} {context : String} {x : Option α} {h : Halt}
    (hx : guarded context x = .error h) : h.IsOverflow := by
  cases x with
  | none =>
    cases hx
    exact ⟨context, rfl⟩
  | some a => cases hx

namespace Operator

open Decimal

def Takes (op : Operator) (count : ℕ) : Prop :=
  ∃ arity, op.arity? = some arity ∧ (op.folds = true ∨ arity.accepts count = true)

theorem checkCount_eq_ok_iff {op : Operator} {count : ℕ} :
    op.checkCount count = .ok () ↔ op.Takes count := by
  unfold checkCount Takes
  cases op.arity? with
  | none => simp
  | some arity => cases op.folds <;> simp

theorem length_of_checkCount {op : Operator} {n k : ℕ} (h : op.checkCount n = .ok ())
    (harity : op.arity? = some (.exactly k)) (hfolds : op.folds = false) : n = k := by
  obtain ⟨arity, hsome, htakes⟩ := checkCount_eq_ok_iff.mp h
  rw [harity, Option.some.injEq] at hsome
  subst hsome
  rcases htakes with hfolds' | haccepts
  · rw [hfolds] at hfolds'
    cases hfolds'
  · exact of_decide_eq_true haccepts

theorem isOverflow_of_foldlM {op : Operator} {f : Decimal → Decimal → Option Decimal}
    {values : List Decimal} {a : Decimal} {h : Halt}
    (hfold : values.foldlM (fun total v => Halt.guarded op.tag (f total v)) a = .error h) :
    h.IsOverflow := by
  induction values generalizing a with
  | nil => cases hfold
  | cons v rest ih =>
    rw [List.foldlM_cons] at hfold
    cases hstep : Halt.guarded op.tag (f a v) with
    | error e =>
      rw [hstep] at hfold
      cases hfold
      exact Halt.isOverflow_of_guarded hstep
    | ok total =>
      rw [hstep] at hfold
      exact ih hfold

theorem isOverflow_of_subtract {op : Operator} {a : Decimal} {rest : List Decimal} {h : Halt}
    (happly : (do let taken ← op.sum rest; Halt.guarded op.tag (a.sub? taken)) = .error h) :
    h.IsOverflow := by
  cases hsum : op.sum rest with
  | error e =>
    rw [hsum] at happly
    cases happly
    exact isOverflow_of_foldlM hsum
  | ok taken =>
    rw [hsum] at happly
    exact Halt.isOverflow_of_guarded happly

/-- An operator with the right number of values fails for a result that is too large, or divides by
zero. -/
theorem applyTo_eq_error {op : Operator} {stepId : String} {values : List Decimal} {h : Halt}
    (hcount : op.checkCount values.length = .ok ()) (happly : op.applyTo stepId values = .error h) :
    h.IsOverflow ∨ op = .divide ∧ h = .error (.divisionByZero stepId) ∧
      ∃ a b, values = [a, b] ∧ b.isZero = true := by
  have hlength {k : ℕ} := length_of_checkCount (k := k) hcount
  cases op with
  | add => exact .inl (isOverflow_of_foldlM happly)
  | multiply => exact .inl (isOverflow_of_foldlM happly)
  | subtract =>
    cases values with
    | nil => cases happly
    | cons a rest => exact .inl (isOverflow_of_subtract happly)
  | divide =>
    obtain ⟨a, b, rfl⟩ := List.length_eq_two.mp (hlength rfl rfl)
    unfold applyTo at happly
    dsimp only at happly
    split at happly
    · next hzero =>
      cases happly
      exact .inr ⟨rfl, rfl, a, b, rfl, hzero⟩
    · exact .inl (Halt.isOverflow_of_guarded happly)
  | conditional =>
    obtain ⟨c, a, b, rfl⟩ := List.length_eq_three.mp (hlength rfl rfl)
    cases happly
  | equal | notEqual | greaterThan | lessThan | greaterThanOrEqual | lessThanOrEqual =>
    obtain ⟨a, b, rfl⟩ := List.length_eq_two.mp (hlength rfl rfl)
    cases happly
  | not | round | abs =>
    obtain ⟨a, rfl⟩ := List.length_eq_one_iff.mp (hlength rfl rfl)
    cases happly
  | percent =>
    obtain ⟨a, rfl⟩ := List.length_eq_one_iff.mp (hlength rfl rfl)
    obtain ⟨d, hd, -⟩ := exists_div?_hundred a
    unfold applyTo applyTo.single at happly
    dsimp only at happly
    rw [hd] at happly
    cases happly
  | min | max | and | or => cases happly
  | unsupported tag => cases hcount

theorem isArithmetic_of_applyTo {op : Operator} {stepId : String} {values : List Decimal} {h : Halt}
    (hcount : op.checkCount values.length = .ok ()) (happly : op.applyTo stepId values = .error h) :
    h.IsArithmetic := by
  rcases applyTo_eq_error hcount happly with hover | ⟨-, rfl, -⟩
  · exact hover.isArithmetic
  · exact ⟨_, rfl, trivial⟩

/-- An operator with the right number of values never lacks one, and a hundredth always exists. -/
theorem unaborted_applyTo {op : Operator} {stepId : String} {values : List Decimal}
    (htakes : op.Takes values.length) : Unaborted (op.applyTo stepId values) := by
  intro cause happly
  obtain ⟨cause', h, -⟩ := isArithmetic_of_applyTo (checkCount_eq_ok_iff.mpr htakes) happly
  cases h

abbrev SameValues : List Decimal → List Decimal → Prop := List.Forall₂ SameValue

theorem sameValues_iff {vs ws : List Decimal} :
    SameValues vs ws ↔ vs.map value = ws.map value := by
  rw [← List.forall₂_eq_eq_eq, List.forall₂_map_left_iff, List.forall₂_map_right_iff]
  rfl

theorem value_foldl_congr {f : Decimal → Decimal → Decimal} {vs ws : List Decimal} {a b : Decimal}
    (hf : ∀ a b v w, a.value = b.value → v.value = w.value → (f a v).value = (f b w).value)
    (h : SameValues vs ws) (hab : a.value = b.value) :
    (vs.foldl f a).value = (ws.foldl f b).value := by
  induction h generalizing a b with
  | nil => exact hab
  | cons hvw _ ih => exact ih (hf _ _ _ _ hab hvw)

theorem value_minimum_congr {vs ws : List Decimal} (h : SameValues vs ws) :
    (minimum vs).value = (minimum ws).value := by
  cases h with
  | nil => rfl
  | cons hvw hrest =>
    refine value_foldl_congr ?_ hrest hvw
    intro a b v w hab hvw
    rw [value_min, value_min, hab, hvw]

theorem value_maximum_congr {vs ws : List Decimal} (h : SameValues vs ws) :
    (maximum vs).value = (maximum ws).value := by
  cases h with
  | nil => rfl
  | cons hvw hrest =>
    refine value_foldl_congr ?_ hrest hvw
    intro a b v w hab hvw
    rw [le_congr hab hvw]
    split
    · exact hvw
    · exact hab

theorem all_congr {p : Decimal → Bool} {vs ws : List Decimal}
    (hp : ∀ v w, v.value = w.value → p v = p w) (h : SameValues vs ws) : vs.all p = ws.all p := by
  induction h with
  | nil => rfl
  | cons hvw _ ih => rw [List.all_cons, List.all_cons, hp _ _ hvw, ih]

theorem any_congr {p : Decimal → Bool} {vs ws : List Decimal}
    (hp : ∀ v w, v.value = w.value → p v = p w) (h : SameValues vs ws) : vs.any p = ws.any p := by
  induction h with
  | nil => rfl
  | cons hvw _ ih => rw [List.any_cons, List.any_cons, hp _ _ hvw, ih]

theorem map_sum_congr (op : Operator) {vs ws : List Decimal} (h : SameValues vs ws) :
    (op.sum vs).map value = (op.sum ws).map value := by
  refine map_foldlM_congr ?_ h rfl
  intro a b v w hab hvw
  exact Halt.map_guarded_congr (map_add?_congr hab hvw) _

theorem map_product_congr (op : Operator) {vs ws : List Decimal} (h : SameValues vs ws) :
    (op.product vs).map value = (op.product ws).map value := by
  refine map_foldlM_congr ?_ h rfl
  intro a b v w hab hvw
  exact Halt.map_guarded_congr (map_mul?_congr hab hvw) _

theorem map_compare_congr {test : Decimal → Decimal → Bool} {vs ws : List Decimal}
    (htest : ∀ a a' b b', a.value = a'.value → b.value = b'.value → test a b = test a' b')
    (h : SameValues vs ws) :
    (applyTo.compare vs test).map value = (applyTo.compare ws test).map value := by
  rcases h with _ | ⟨ha, _ | ⟨hb, _⟩⟩
  · rfl
  · rfl
  · unfold applyTo.compare
    dsimp only
    rw [htest _ _ _ _ ha hb]

theorem map_single_congr {f : Decimal → Except Halt Decimal} {vs ws : List Decimal}
    (hf : ∀ a b, a.value = b.value → (f a).map value = (f b).map value) (h : SameValues vs ws) :
    (applyTo.single vs f).map value = (applyTo.single ws f).map value := by
  rcases h with _ | ⟨ha, _⟩
  · rfl
  · exact hf _ _ ha

theorem map_subtract_congr (stepId : String) {vs ws : List Decimal} (h : SameValues vs ws) :
    (subtract.applyTo stepId vs).map value = (subtract.applyTo stepId ws).map value := by
  cases h with
  | nil => rfl
  | cons ha hrest =>
    refine map_bind_congr (map_sum_congr _ hrest) fun taken taken' htaken => ?_
    exact Halt.map_guarded_congr (map_sub?_congr ha htaken) _

theorem map_divide_congr (stepId : String) {vs ws : List Decimal} (h : SameValues vs ws) :
    (divide.applyTo stepId vs).map value = (divide.applyTo stepId ws).map value := by
  rcases h with _ | ⟨ha, _ | ⟨hb, _⟩⟩
  · rfl
  · rfl
  · unfold applyTo
    dsimp only
    rw [isZero_congr hb]
    split
    · rfl
    · exact Halt.map_guarded_congr (map_div?_congr ha hb) _

theorem map_conditional_congr (stepId : String) {vs ws : List Decimal} (h : SameValues vs ws) :
    (conditional.applyTo stepId vs).map value = (conditional.applyTo stepId ws).map value := by
  rcases h with _ | ⟨hc, _ | ⟨ha, _ | ⟨hb, _⟩⟩⟩
  · rfl
  · rfl
  · rfl
  · unfold applyTo
    dsimp only
    rw [isZero_congr hc]
    split
    · exact congrArg Except.ok hb
    · exact congrArg Except.ok ha

theorem map_applyTo_congr (op : Operator) (stepId : String) {vs ws : List Decimal}
    (h : SameValues vs ws) :
    (op.applyTo stepId vs).map value = (op.applyTo stepId ws).map value := by
  have hnotZero (v w : Decimal) (hvw : v.value = w.value) : (!v.isZero) = !w.isZero := by
    rw [isZero_congr hvw]
  cases op with
  | add => exact map_sum_congr _ h
  | subtract => exact map_subtract_congr stepId h
  | multiply => exact map_product_congr _ h
  | divide => exact map_divide_congr stepId h
  | conditional => exact map_conditional_congr stepId h
  | min => exact congrArg Except.ok (value_minimum_congr h)
  | max => exact congrArg Except.ok (value_maximum_congr h)
  | equal => exact map_compare_congr (fun _ _ _ _ ha hb => same_congr ha hb) h
  | notEqual => exact map_compare_congr (fun _ _ _ _ ha hb => by rw [same_congr ha hb]) h
  | greaterThan => exact map_compare_congr (fun _ _ _ _ ha hb => lt_congr hb ha) h
  | lessThan => exact map_compare_congr (fun _ _ _ _ ha hb => lt_congr ha hb) h
  | greaterThanOrEqual => exact map_compare_congr (fun _ _ _ _ ha hb => le_congr hb ha) h
  | lessThanOrEqual => exact map_compare_congr (fun _ _ _ _ ha hb => le_congr ha hb) h
  | and =>
    unfold applyTo
    dsimp only
    rw [all_congr hnotZero h]
  | or =>
    unfold applyTo
    dsimp only
    rw [any_congr hnotZero h]
  | not => exact map_single_congr (fun _ _ ha => by rw [isZero_congr ha]) h
  | percent =>
    exact map_single_congr
      (fun _ _ ha => Halt.map_unguarded_congr (map_div?_congr ha rfl) .division) h
  | round =>
    exact map_single_congr (fun _ _ ha => congrArg Except.ok (value_roundPlaces_congr ha 0)) h
  | abs =>
    refine map_single_congr (fun a b ha => ?_) h
    exact congrArg Except.ok (by rw [value_abs, value_abs, ha])
  | unsupported tag => rfl

/-- The step is named in errors only. -/
theorem applyTo_ok_of_ok {op : Operator} {stepId : String} {values : List Decimal} {v : Decimal}
    (h : op.applyTo stepId values = .ok v) (other : String) : op.applyTo other values = .ok v := by
  cases op with
  | divide =>
    rcases values with _ | ⟨a, _ | ⟨b, rest⟩⟩
    · cases h
    · cases h
    · unfold applyTo at h ⊢
      dsimp only at h ⊢
      split at h
      · cases h
      · rwa [if_neg (by assumption)]
  | _ => exact h

end Operator

end Payroll
