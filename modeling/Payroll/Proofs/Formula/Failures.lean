import Payroll.Proofs.Formula.Keys
import Payroll.Proofs.Formula.Memoised
import Payroll.Proofs.Formula.Operators

/-!
# Why evaluation fails

Whatever is in the memo, an operation fails for its amounts, or because it does not pass the check
of names and depth, or because an operator in it is not supported or has a wrong number of
parameters. In particular it never aborts, and neither do the steps of a formula.
-/

set_option autoImplicit false

namespace Payroll

open Memoised

mutual
def Operation.Miscounts (cause : PayError) : Operation → Prop
  | .literal _ => False
  | .reference _ => False
  | .apply op parameters =>
    op.checkCount parameters.length = .error cause ∨ AnyMiscounts cause parameters
def Parameter.Miscounts (cause : PayError) : Parameter → Prop
  | .literal _ => False
  | .reference _ => False
  | .step _ operation => operation.Miscounts cause
def AnyMiscounts (cause : PayError) : List Parameter → Prop
  | [] => False
  | p :: rest => p.Miscounts cause ∨ AnyMiscounts cause rest
end

/-- What can go wrong behind the check of names and depth. -/
def Fails (refused : PayError → Prop) (h : Halt) : Prop :=
  h.IsArithmetic ∨ ∃ cause, h = .error cause ∧ refused cause

def Answers (refused : PayError → Prop) : Except Halt Decimal → Prop
  | .ok _ => True
  | .error h => Fails refused h

def AllAnswer (refused : PayError → Prop) (count : ℕ) : Except Halt (List Decimal) → Prop
  | .ok values => values.length = count
  | .error h => Fails refused h

section
variable {scope : Scope} {refused : PayError → Prop}

theorem ensures_applied_answers {op : Operator} {count : ℕ} {key : Option String}
    {values : Memoised (List Decimal)}
    (hcount : ∀ cause, op.checkCount count = .error cause → refused cause)
    (hvalues : Ensures (fun _ => True) values (AllAnswer refused count)) :
    Ensures (fun _ => True) (applied scope.stepId op count key values) (Answers refused) := by
  refine ensures_applied (R := AllAnswer refused count) ?_ ?_ (fun _ => hvalues)
    (fun _ _ h => h) ?_ ?_
  · intro cause h
    exact .inr ⟨cause, rfl, hcount cause h⟩
  · intro _ m v _ _
    exact ⟨trivial, trivial⟩
  · intro vs h hok hlength happly
    have hlength : vs.length = count := hlength
    rw [← hlength] at hok
    exact .inl (Operator.isArithmetic_of_applyTo hok happly)
  · intro vs v _ _ _
    exact ⟨trivial, fun _ _ => trivial⟩

mutual
theorem Parameter.ensures_answers {depth : ℕ} {part : Option String × Option KeyTree} :
    (p : Parameter) → (∀ cause, p.Miscounts cause → refused cause) →
      p.keyPart scope depth = .ok part →
      Ensures (fun _ => True) (p.eval scope part.2) (Answers refused)
  | .literal _ => fun _ _ => by
    rw [Parameter.eval]
    exact ensures_pure trivial
  | .reference name => fun _ hpart => by
    rw [Parameter.keyPart] at hpart
    obtain ⟨value, hvalue, -⟩ := bind_eq_ok hpart
    rw [Parameter.eval, hvalue]
    exact ensures_pure trivial
  | .step _ (.literal _) => fun _ _ => by
    rw [eval_step_literal]
    exact ensures_pure trivial
  | .step _ (.reference name) => fun _ hpart => by
    rw [Parameter.keyPart, Operation.keyPart] at hpart
    obtain ⟨value, hvalue, -⟩ := bind_eq_ok hpart
    rw [eval_step_reference, hvalue]
    exact ensures_pure trivial
  | .step _ (.apply _ parameters) => fun hrefused hpart => by
    obtain ⟨parts, -, hparts, rfl⟩ := keyPart_step_apply_eq_ok hpart
    rw [Parameter.eval]
    exact ensures_applied_answers (fun cause h => hrefused cause (.inl h))
      (ensures_allAnswer parameters (fun cause h => hrefused cause (.inr h)) hparts)
theorem ensures_allAnswer {depth : ℕ} {parts : List (Option String × Option KeyTree)} :
    (ps : List Parameter) → (∀ cause, AnyMiscounts cause ps → refused cause) →
      keyParts scope depth ps = .ok parts →
      Ensures (fun _ => True) (evalAll scope ps (parts.map Prod.snd)) (AllAnswer refused ps.length)
  | [] => fun _ _ => by
    rw [evalAll_nil]
    exact ensures_pure rfl
  | p :: rest => fun hrefused hparts => by
    obtain ⟨part, parts', hpart, hparts', rfl⟩ := keyParts_cons_eq_ok hparts
    rw [List.map_cons, evalAll]
    refine (p.ensures_answers (fun cause h => hrefused cause (.inl h)) hpart).bind
      (fun _ h => h) fun v _ => ?_
    refine (ensures_allAnswer rest (fun cause h => hrefused cause (.inr h)) hparts').bind
      (fun _ h => h) fun vs hvs => ?_
    exact ensures_pure (congrArg (· + 1) hvs)
end

/-- The operation of a step fails for one of three reasons. -/
theorem Operation.ensures_answers (o : Operation)
    (hcheck : ∀ cause, o.check scope 0 = .error cause → refused cause)
    (hmiscounts : ∀ cause, o.Miscounts cause → refused cause) :
    Ensures (fun _ => True) (o.eval scope) (Answers refused) := by
  cases o with
  | literal value =>
    rw [Operation.eval]
    exact ensures_pure trivial
  | reference name =>
    rw [Operation.eval]
    refine ensures_ofError ?_
    rw [Operation.check] at hcheck
    cases hvalue : scope.resolve name with
    | ok value => trivial
    | error cause => exact .inr ⟨cause, rfl, hcheck cause (by rw [hvalue]; rfl)⟩
  | apply op parameters =>
    rw [Operation.eval]
    cases htree : keyTree scope op parameters with
    | error cause =>
      intro m hm
      refine ⟨.inr ⟨cause, rfl, hcheck cause ?_⟩, hm⟩
      rw [← map_keyTree, htree]
      rfl
    | ok tree =>
      obtain ⟨parts, hparts, rfl⟩ := keyTree_eq_ok htree
      exact ensures_applied_answers (fun cause h => hmiscounts cause (.inl h))
        (ensures_allAnswer parameters (fun cause h => hmiscounts cause (.inr h)) hparts)

end

theorem Progress.runSteps_ne_abort (limit : ℕ) (steps : List Step) :
    ∀ (number : ℕ) (p : Progress) (cause : Abort),
      (Progress.runSteps limit number p steps).1 ≠ some (.abort cause) := by
  induction steps with
  | nil => exact fun _ _ _ => nofun
  | cons s rest ih =>
    intro number p cause
    have hanswers : Ensures (fun _ => True) (s.operation.eval (p.scopeFor limit s))
        (Answers fun _ => True) :=
      s.operation.ensures_answers (fun _ _ => trivial) fun _ _ => trivial
    have hrunAnswers := (hanswers p.memo trivial).1
    rcases hrun : runFrom p.memo (s.operation.eval (p.scopeFor limit s)) with ⟨h | value, memo⟩
    · rw [Progress.runSteps_of_error hrun]
      rw [hrun] at hrunAnswers
      rcases hrunAnswers with ⟨cause', rfl, -⟩ | ⟨cause', rfl, -⟩ <;> nofun
    · rw [Progress.runSteps_of_ok hrun]
      exact ih _ _ cause

/-- Every formula has an evaluation, be it valid or not. -/
theorem Formula.exists_evaluate (settings : FormulaSettings) (f : Formula) (b : Bindings) :
    ∃ e, f.evaluate settings b = .ok e := by
  unfold evaluate
  rcases hrun : Progress.runSteps settings.maxNestingDepth 1 { bindings := b } f.steps
    with ⟨_ | cause | cause, p⟩
  · dsimp only
    cases p.bindings.get? f.output with
    | some result => exact ⟨_, rfl⟩
    | none => exact ⟨_, rfl⟩
  · exact ⟨_, rfl⟩
  · have hne :=
      Progress.runSteps_ne_abort settings.maxNestingDepth f.steps 1 { bindings := b } cause
    rw [hrun] at hne
    exact absurd rfl hne

end Payroll
