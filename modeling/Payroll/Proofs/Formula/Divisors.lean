import Payroll.Proofs.Formula.Findings
import Payroll.Proofs.Formula.Runs

/-!
# Divisors of zero

A review that finds no defects, and no divisors that may be zero, keeps a formula from dividing by
an amount or by a name that is zero. It does not look at the values of nested steps, and it takes
text that reads as an amount for that amount, which a run does only if the text is not bound.
-/

set_option autoImplicit false

namespace Payroll

open Memoised

/-- A divisor that is zero, or may be, although a review does not say so. -/
def Parameter.Unwatched (b : Bindings) : Parameter → Prop
  | .literal _ => False
  | .reference name =>
    (Outlook.numeral? name).isSome ∧ ∃ value, b.get? name = some value ∧ value.isZero
  | .step _ (.literal value) => value.isZero
  | .step _ (.reference name) => ∃ value, b.resolve? name = some value ∧ value.isZero
  | .step _ (.apply _ _) => True

/-- A division by such a divisor is in the operation, be it in a nested step. -/
inductive Operation.HidesZero (b : Bindings) : Operation → Prop
  | divisor {dividend divisor : Parameter} (h : divisor.Unwatched b) :
    HidesZero b (.apply .divide [dividend, divisor])
  | nested {op : Operator} {ps : List Parameter} {heading : Heading} {o : Operation}
    (h : .step heading o ∈ ps) (ho : HidesZero b o) : HidesZero b (.apply op ps)

def Parameter.HidesZero (b : Bindings) (p : Parameter) : Prop :=
  ∃ heading o, p = .step heading o ∧ o.HidesZero b

/-- What is known of the value that a parameter has in a run. -/
def Parameter.Yields (b : Bindings) : Parameter → Decimal → Prop
  | .literal value, v | .step _ (.literal value), v => v = value
  | .reference name, v | .step _ (.reference name), v => b.resolve? name = some v
  | .step _ (.apply _ _), _ => True

section
variable {o : Outlook} {b : Bindings}

theorem Outlook.not_isZero_of_divisorDefects {divisor : Parameter} {v : Decimal}
    (hnone : o.divisorDefects divisor = []) (hknown : known? divisor = some v) :
    v.isZero ≠ true := by
  intro hzero
  unfold divisorDefects at hnone
  rw [hknown, Option.any_some, if_pos hzero] at hnone
  cases hnone

theorem Outlook.isSome_numeral?_of_divisorConcerns {name : String}
    (hnone : o.divisorConcerns (.reference name) = []) : (numeral? name).isSome := by
  cases hnumeral : numeral? name with
  | some value => rfl
  | none => simp [divisorConcerns, hnumeral] at hnone

theorem Parameter.unwatched_of_yields {divisor : Parameter} {v : Decimal}
    (hdefects : o.divisorDefects divisor = []) (hconcerns : o.divisorConcerns divisor = [])
    (hyields : divisor.Yields b v) (hzero : v.isZero = true) : divisor.Unwatched b := by
  cases divisor with
  | literal value =>
    cases hyields
    exact absurd hzero (Outlook.not_isZero_of_divisorDefects hdefects rfl)
  | reference name =>
    have hnumeral := Outlook.isSome_numeral?_of_divisorConcerns hconcerns
    refine ⟨hnumeral, ?_⟩
    have hyields : b.resolve? name = some v := hyields
    unfold Bindings.resolve? at hyields
    cases hget : b.get? name with
    | some value =>
      rw [hget] at hyields
      cases hyields
      exact ⟨v, rfl, hzero⟩
    | none =>
      -- Unbound text is worth the amount that the review has looked at.
      rw [hget] at hyields
      exact absurd hzero (Outlook.not_isZero_of_divisorDefects hdefects hyields)
  | step heading operation =>
    cases operation with
    | literal value =>
      cases hyields
      exact hzero
    | reference name => exact ⟨v, hyields, hzero⟩
    | apply op ps => trivial

theorem apply_eq_nil {op : Operator} {ps : List Parameter} {depth : ℕ}
    (hdefects : (Operation.apply op ps).defects o depth = [])
    (hconcerns : (Operation.apply op ps).concerns o depth = []) :
    (o.operatorDefects op ps = [] ∧ defectsOf o depth 0 ps = []) ∧
      o.operatorConcerns op ps = [] ∧ concernsOf o depth ps = [] := by
  rw [Operation.defects] at hdefects
  split at hdefects
  · cases hdefects
  · next hdepth =>
    rw [Operation.concerns, if_neg hdepth] at hconcerns
    exact ⟨List.append_eq_nil_iff.mp hdefects, List.append_eq_nil_iff.mp hconcerns⟩

theorem Operation.hidesZero_of_yields {ps : List Parameter} {x y : Decimal}
    (hdefects : o.operatorDefects .divide ps = []) (hconcerns : o.operatorConcerns .divide ps = [])
    (hyields : List.Forall₂ (Parameter.Yields b) ps [x, y]) (hzero : y.isZero = true) :
    (Operation.apply .divide ps).HidesZero b := by
  rcases hyields with _ | ⟨-, _ | ⟨hdivisor, _ | _⟩⟩
  exact .divisor (Parameter.unwatched_of_yields hdefects hconcerns hdivisor hzero)

end

/-- An answer with `Q`, or a failure that is a division by zero only in this step and with a
reason. -/
def Blames {α : Type} (stepId : String) (reason : Prop) (Q : α → Prop) : Except Halt α → Prop
  | .ok a => Q a
  | .error h => ∀ id, h = .error (.divisionByZero id) → id = stepId ∧ reason

theorem Blames.error_mono {α β : Type} {stepId : String} {reason reason' : Prop} {Q : α → Prop}
    {R : β → Prop} (hreason : reason → reason') {h : Halt}
    (hblames : Blames stepId reason Q (.error h)) : Blames stepId reason' R (.error h) :=
  fun id hid => ⟨(hblames id hid).1, hreason (hblames id hid).2⟩

section
variable {o : Outlook} {scope : Scope}

theorem ensures_resolve (name : String) (reason : Prop) :
    Ensures (fun _ => True) (ofError (scope.resolve name))
      (Blames scope.stepId reason fun v => scope.bindings.resolve? name = some v) := by
  apply ensures_ofError
  unfold Scope.resolve
  cases scope.bindings.resolve? name with
  | some value => rfl
  | none => exact fun id h => by cases h

theorem ensures_applied_blames {op : Operator} {ps : List Parameter} {key : Option String}
    {values : Memoised (List Decimal)} {reason : Prop} {Q : Decimal → Prop} (hQ : ∀ v, Q v)
    (hreason : (Operation.apply op ps).HidesZero scope.bindings → reason)
    (hdefects : o.operatorDefects op ps = []) (hconcerns : o.operatorConcerns op ps = [])
    (hvalues : Ensures (fun _ => True) values
      (Blames scope.stepId (∃ p ∈ ps, p.HidesZero scope.bindings)
        (List.Forall₂ (Parameter.Yields scope.bindings) ps))) :
    Ensures (fun _ => True) (applied scope.stepId op ps.length key values)
      (Blames scope.stepId reason Q) := by
  refine ensures_applied ?_ (fun _ m v _ _ => ⟨hQ v, trivial⟩) (fun _ => hvalues) ?_ ?_
    (fun _ v _ _ _ => ⟨hQ v, fun _ _ => trivial⟩)
  · intro e hcount id h
    cases h
    unfold Operator.checkCount at hcount
    split at hcount
    · cases hcount
    · split at hcount <;> cases hcount
  · intro h _ hblames
    refine hblames.error_mono ?_
    rintro ⟨_, hp, heading, nested, rfl, hnested⟩
    exact hreason (.nested hp hnested)
  · intro vs h hcount hyields happly id hid
    have hyields : List.Forall₂ (Parameter.Yields scope.bindings) ps vs := hyields
    rw [hyields.length_eq] at hcount
    rcases Operator.applyTo_eq_error hcount happly with
      ⟨context, hover⟩ | ⟨rfl, hzero, x, y, rfl, hy⟩
    · rw [hid] at hover
      cases hover
    · rw [hid] at hzero
      cases hzero
      exact ⟨rfl, hreason (Operation.hidesZero_of_yields hdefects hconcerns hyields hy)⟩

mutual
theorem Parameter.ensures_blames {depth position : ℕ} {part : Option String × Option KeyTree} :
    (p : Parameter) → p.defects o depth position = [] → p.concerns o depth = [] →
      p.keyPart scope depth = .ok part →
      Ensures (fun _ => True) (p.eval scope part.2)
        (Blames scope.stepId (p.HidesZero scope.bindings) (p.Yields scope.bindings))
  | .literal _ => fun _ _ _ => by
    rw [Parameter.eval]
    exact ensures_pure rfl
  | .reference name => fun _ _ _ => by
    rw [Parameter.eval]
    exact ensures_resolve name _
  | .step _ (.literal _) => fun _ _ _ => by
    rw [eval_step_literal]
    exact ensures_pure rfl
  | .step _ (.reference name) => fun _ _ _ => by
    rw [eval_step_reference]
    exact ensures_resolve name _
  | .step heading (.apply op ps) => fun hdefects hconcerns hpart => by
    rw [Parameter.defects] at hdefects
    rw [Parameter.concerns] at hconcerns
    obtain ⟨⟨hop, hps⟩, hopConcerns, hpsConcerns⟩ := apply_eq_nil hdefects hconcerns
    obtain ⟨parts, -, hparts, rfl⟩ := keyPart_step_apply_eq_ok hpart
    rw [Parameter.eval]
    exact ensures_applied_blames (fun _ => trivial) (fun hzero => ⟨heading, _, rfl, hzero⟩) hop
      hopConcerns (ensures_allBlame ps hps hpsConcerns hparts)
theorem ensures_allBlame {depth position : ℕ} {parts : List (Option String × Option KeyTree)} :
    (ps : List Parameter) → defectsOf o depth position ps = [] → concernsOf o depth ps = [] →
      keyParts scope depth ps = .ok parts →
      Ensures (fun _ => True) (evalAll scope ps (parts.map Prod.snd))
        (Blames scope.stepId (∃ p ∈ ps, p.HidesZero scope.bindings)
          (List.Forall₂ (Parameter.Yields scope.bindings) ps))
  | [] => fun _ _ _ => by
    rw [evalAll_nil]
    exact ensures_pure .nil
  | p :: rest => fun hdefects hconcerns hparts => by
    rw [defectsOf] at hdefects
    rw [concernsOf] at hconcerns
    obtain ⟨hp, hrest⟩ := List.append_eq_nil_iff.mp hdefects
    obtain ⟨hpConcerns, hrestConcerns⟩ := List.append_eq_nil_iff.mp hconcerns
    obtain ⟨part, parts', hpart, hparts', rfl⟩ := keyParts_cons_eq_ok hparts
    rw [List.map_cons, evalAll]
    refine (p.ensures_blames hp hpConcerns hpart).bind
      (fun _ h => h.error_mono fun hp => ⟨p, List.mem_cons_self, hp⟩) fun v hv => ?_
    refine (ensures_allBlame rest hrest hrestConcerns hparts').bind
      (fun _ h => h.error_mono fun ⟨q, hq, hzero⟩ => ⟨q, List.mem_cons_of_mem p hq, hzero⟩)
      fun vs hvs => ?_
    exact ensures_pure (.cons hv hvs)
end

theorem Operation.ensures_blames {operation : Operation} (hdefects : operation.defects o 0 = [])
    (hconcerns : operation.concerns o 0 = []) :
    Ensures (fun _ => True) (operation.eval scope)
      (Blames scope.stepId (operation.HidesZero scope.bindings) fun _ => True) := by
  cases operation with
  | literal value =>
    rw [Operation.eval]
    exact ensures_pure trivial
  | reference name =>
    rw [Operation.eval]
    apply ensures_ofError
    unfold Scope.resolve
    cases scope.bindings.resolve? name with
    | some value => trivial
    | none => exact fun id h => by cases h
  | apply op ps =>
    obtain ⟨⟨hop, hps⟩, hopConcerns, hpsConcerns⟩ := apply_eq_nil hdefects hconcerns
    rw [Operation.eval]
    cases htree : keyTree scope op ps with
    | error cause =>
      intro m hm
      refine ⟨fun id hid => ?_, hm⟩
      cases hid
      rw [← map_eq_error (f := fun _ => ()), map_keyTree] at htree
      exact (Operation.refuses_of_check _ htree).blocks.elim
    | ok tree =>
      obtain ⟨parts, hparts, rfl⟩ := keyTree_eq_ok htree
      exact ensures_applied_blames (fun _ => trivial) id hop hopConcerns
        (ensures_allBlame ps hps hpsConcerns hparts)

end

namespace Formula

variable {f : Formula} {settings : FormulaSettings}

end Formula

end Payroll
