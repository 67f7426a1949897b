import Payroll.Formula.Direct
import Payroll.Proofs.Formula.Keys
import Payroll.Proofs.Formula.Operators

/-!
# What direct evaluation depends on

The value of an operation depends on the values that names stand for. Its checks depend on which
names stand for something.
-/

set_option autoImplicit false

namespace Payroll

open Decimal

section
variable {s t : Scope}

theorem length_of_valuesOf {ps : List Parameter} {vs : List Decimal}
    (h : valuesOf s ps = .ok vs) : vs.length = ps.length := by
  induction ps generalizing vs with
  | nil =>
    cases h
    rfl
  | cons p rest ih =>
    rw [valuesOf] at h
    obtain ⟨v, -, h⟩ := bind_eq_ok h
    obtain ⟨vs', hrest, h⟩ := bind_eq_ok h
    cases h
    exact congrArg (· + 1) (ih hrest)

theorem value_apply_eq_ok {op : Operator} {ps : List Parameter} {v : Decimal}
    (h : (Operation.apply op ps).value s = .ok v) :
    op.checkCount ps.length = .ok () ∧
      ∃ vs, valuesOf s ps = .ok vs ∧ op.applyTo s.stepId vs = .ok v := by
  rw [Operation.value] at h
  obtain ⟨_, hcount, h⟩ := bind_eq_ok h
  obtain ⟨vs, hvs, happly⟩ := bind_eq_ok h
  exact ⟨Halt.ofError_eq_ok.mp hcount, vs, hvs, happly⟩

mutual
/-- An answer stays where names stand for the same. -/
theorem Operation.value_of_extends : (o : Operation) → Scope.Extends o.references s t →
    ∀ v, o.value s = .ok v → o.value t = .ok v
  | .literal _ => fun _ _ h => h
  | .reference name => fun hnames v h => by
    rw [Operation.value, Halt.ofError_eq_ok] at h ⊢
    exact hnames name (List.mem_singleton_self name) v h
  | .apply op ps => fun hnames v h => by
    obtain ⟨hcount, vs, hvs, happly⟩ := value_apply_eq_ok h
    rw [Operation.value, hcount, valuesOf_of_extends ps hnames vs hvs]
    exact Operator.applyTo_ok_of_ok happly t.stepId
theorem Parameter.value_of_extends : (p : Parameter) → Scope.Extends p.references s t →
    ∀ v, p.value s = .ok v → p.value t = .ok v
  | .literal _ => fun _ _ h => h
  | .reference name => fun hnames v h => by
    rw [Parameter.value, Halt.ofError_eq_ok] at h ⊢
    exact hnames name (List.mem_singleton_self name) v h
  | .step _ o => fun hnames v h => by
    rw [Parameter.value] at h ⊢
    exact o.value_of_extends hnames v h
theorem valuesOf_of_extends : (ps : List Parameter) → Scope.Extends (referencesOf ps) s t →
    ∀ vs, valuesOf s ps = .ok vs → valuesOf t ps = .ok vs
  | [] => fun _ _ h => h
  | p :: rest => fun hnames vs h => by
    obtain ⟨hp, hrest⟩ := Scope.extends_append.mp hnames
    rw [valuesOf] at h
    obtain ⟨v, hv, h⟩ := bind_eq_ok h
    obtain ⟨vs', hvs', h⟩ := bind_eq_ok h
    rw [valuesOf, p.value_of_extends hp v hv, valuesOf_of_extends rest hrest vs' hvs']
    exact h
end

end

section
variable {s : Scope}

mutual
/-- Operators are never applied to fewer values than they take. -/
theorem Operation.unaborted_value : (o : Operation) → Unaborted (o.value s)
  | .literal _ => nofun
  | .reference name => by
    rw [Operation.value]
    exact Halt.unaborted_ofError _
  | .apply op ps => by
    rw [Operation.value]
    refine (Halt.unaborted_ofError _).bind fun u hcount => ?_
    refine (unaborted_valuesOf ps).bind fun vs hvs => ?_
    rw [Halt.ofError_eq_ok, ← length_of_valuesOf hvs, Operator.checkCount_eq_ok_iff] at hcount
    exact Operator.unaborted_applyTo hcount
theorem Parameter.unaborted_value : (p : Parameter) → Unaborted (p.value s)
  | .literal _ => nofun
  | .reference name => by
    rw [Parameter.value]
    exact Halt.unaborted_ofError _
  | .step _ o => by
    rw [Parameter.value]
    exact o.unaborted_value
theorem unaborted_valuesOf : (ps : List Parameter) → Unaborted (valuesOf s ps)
  | [] => nofun
  | p :: rest => by
    rw [valuesOf]
    refine p.unaborted_value.bind fun v _ => ?_
    exact (unaborted_valuesOf rest).bind fun vs _ => nofun
end

end

/-- Two scopes of one step in which names stand for equal values, or for nothing in both. -/
structure Scope.Matches (s t : Scope) : Prop where
  stepId : s.stepId = t.stepId
  limit : s.limit = t.limit
  resolve : ∀ name, (s.resolve name).map Decimal.value = (t.resolve name).map Decimal.value

section
variable {s t : Scope} (hst : s.Matches t)
include hst

theorem check_reference_of_matches (name : String) :
    (do let _ ← s.resolve name; return () : Except PayError Unit) =
      (do let _ ← t.resolve name; return ()) := by
  have h := hst.resolve name
  cases hs : s.resolve name with
  | error e => rw [eq_error_of_map_eq h hs]
  | ok v =>
    obtain ⟨w, ht, -⟩ := exists_ok_of_map_eq h hs
    rw [ht]
    rfl

theorem checkDepth_of_matches (depth : ℕ) : s.checkDepth depth = t.checkDepth depth := by
  unfold Scope.checkDepth
  rw [hst.limit, hst.stepId]

theorem map_value_reference_of_matches (name : String) :
    (Halt.ofError (s.resolve name)).map value = (Halt.ofError (t.resolve name)).map value := by
  have h := hst.resolve name
  cases hs : s.resolve name with
  | error e => rw [eq_error_of_map_eq h hs]
  | ok v =>
    obtain ⟨w, ht, hw⟩ := exists_ok_of_map_eq h hs
    rw [ht]
    exact congrArg Except.ok hw.symm

end

section
variable {s t : Scope}

mutual
theorem Operation.check_of_matches (hst : s.Matches t) {depth : ℕ} : (o : Operation) →
    o.check s depth = o.check t depth
  | .literal _ => rfl
  | .reference name => by
    rw [Operation.check, Operation.check]
    exact check_reference_of_matches hst name
  | .apply op ps => by
    rw [Operation.check, Operation.check, checkDepth_of_matches hst, checkAll_of_matches hst ps]
theorem Parameter.check_of_matches (hst : s.Matches t) {depth : ℕ} : (p : Parameter) →
    p.check s depth = p.check t depth
  | .literal _ => rfl
  | .reference name => by
    rw [Parameter.check, Parameter.check]
    exact check_reference_of_matches hst name
  | .step _ o => by
    rw [Parameter.check, Parameter.check]
    exact o.check_of_matches hst
theorem checkAll_of_matches (hst : s.Matches t) {depth : ℕ} : (ps : List Parameter) →
    checkAll s depth ps = checkAll t depth ps
  | [] => rfl
  | p :: rest => by
    rw [checkAll, checkAll, p.check_of_matches hst, checkAll_of_matches hst rest]
end

theorem map_value_apply {op : Operator} {n : ℕ} {x y : Except Halt (List Decimal)}
    (stepId : String) (h : x.map (List.map value) = y.map (List.map value)) :
    (do Halt.ofError (op.checkCount n); op.applyTo stepId (← x)).map value =
      (do Halt.ofError (op.checkCount n); op.applyTo stepId (← y)).map value := by
  refine map_bind_congr_right fun _ => ?_
  refine map_bind_congr h fun vs ws hvalues => ?_
  exact Operator.map_applyTo_congr op stepId (Operator.sameValues_iff.mpr hvalues)

mutual
theorem Operation.map_value_of_matches (hst : s.Matches t) : (o : Operation) →
    (o.value s).map value = (o.value t).map value
  | .literal _ => rfl
  | .reference name => by
    rw [Operation.value, Operation.value]
    exact map_value_reference_of_matches hst name
  | .apply op ps => by
    rw [Operation.value, Operation.value, hst.stepId]
    exact map_value_apply t.stepId (map_valuesOf_of_matches hst ps)
theorem Parameter.map_value_of_matches (hst : s.Matches t) : (p : Parameter) →
    (p.value s).map value = (p.value t).map value
  | .literal _ => rfl
  | .reference name => by
    rw [Parameter.value, Parameter.value]
    exact map_value_reference_of_matches hst name
  | .step _ o => by
    rw [Parameter.value, Parameter.value]
    exact o.map_value_of_matches hst
theorem map_valuesOf_of_matches (hst : s.Matches t) : (ps : List Parameter) →
    (valuesOf s ps).map (List.map value) = (valuesOf t ps).map (List.map value)
  | [] => rfl
  | p :: rest => by
    rw [valuesOf, valuesOf]
    refine map_bind_congr (p.map_value_of_matches hst) fun v w hvw => ?_
    refine map_bind_congr (map_valuesOf_of_matches hst rest) fun vs ws hvalues => ?_
    exact congrArg Except.ok (congrArg₂ List.cons hvw hvalues)
end

end

end Payroll
