import Payroll.Formula.Review
import Payroll.Proofs.Formula.Failures

/-!
# Operands

The keys of an operator have one entry for each of its parameters, at every depth, so that reading
both side by side skips none of them. Operators are therefore applied to as many values as they have
parameters, and only if they take that many. How they would answer to other values does not matter,
and no evaluation aborts.
-/

set_option autoImplicit false

namespace Payroll

open Memoised

/-- The entry for a parameter. There is one exactly if the parameter is an operator, and then what
lies below it are the entries for the parameters of that operator. -/
inductive Parameter.Keyed : Parameter → Option KeyTree → Prop
  | literal {value : Decimal} : Keyed (.literal value) none
  | reference {name : String} : Keyed (.reference name) none
  | literalStep {heading : Heading} {value : Decimal} : Keyed (.step heading (.literal value)) none
  | referenceStep {heading : Heading} {name : String} : Keyed (.step heading (.reference name)) none
  | operatorStep {heading : Heading} {op : Operator} {ps : List Parameter} {key : Option String}
      {nested : List (Option KeyTree)} : List.Forall₂ Keyed ps nested →
      Keyed (.step heading (.apply op ps)) (some (.node key nested))

/-- One entry for each parameter, in their order and at every depth. -/
def KeyTree.Fits (tree : KeyTree) (ps : List Parameter) : Prop :=
  List.Forall₂ Parameter.Keyed ps tree.nested

section
variable {scope : Scope}

mutual
theorem Parameter.keyed_of_keyPart {depth : ℕ} {part : Option String × Option KeyTree} :
    (p : Parameter) → p.keyPart scope depth = .ok part → p.Keyed part.2
  | .literal _ => fun h => by
    cases h
    exact .literal
  | .reference name => fun h => by
    rw [Parameter.keyPart] at h
    obtain ⟨value, -, h⟩ := bind_eq_ok h
    cases h
    exact .reference
  | .step _ (.literal _) => fun h => by
    cases h
    exact .literalStep
  | .step _ (.reference name) => fun h => by
    rw [Parameter.keyPart, Operation.keyPart] at h
    obtain ⟨value, -, h⟩ := bind_eq_ok h
    cases h
    exact .referenceStep
  | .step _ (.apply _ ps) => fun h => by
    obtain ⟨parts, -, hparts, rfl⟩ := keyPart_step_apply_eq_ok h
    exact .operatorStep (forall₂_keyed_of_keyParts ps hparts)
theorem forall₂_keyed_of_keyParts {depth : ℕ} {parts : List (Option String × Option KeyTree)} :
    (ps : List Parameter) → keyParts scope depth ps = .ok parts →
      List.Forall₂ Parameter.Keyed ps (parts.map Prod.snd)
  | [] => fun h => by
    cases h
    exact .nil
  | p :: rest => fun h => by
    obtain ⟨part, parts', hpart, hparts', rfl⟩ := keyParts_cons_eq_ok h
    exact .cons (p.keyed_of_keyPart hpart) (forall₂_keyed_of_keyParts rest hparts')
end

theorem fits_of_keyTree {op : Operator} {ps : List Parameter} {tree : KeyTree}
    (h : keyTree scope op ps = .ok tree) : tree.Fits ps := by
  obtain ⟨parts, hparts, rfl⟩ := keyTree_eq_ok h
  exact forall₂_keyed_of_keyParts ps hparts

theorem KeyTree.Fits.unzip_zip {tree : KeyTree} {ps : List Parameter} (h : tree.Fits ps) :
    (ps.zip tree.nested).unzip = (ps, tree.nested) :=
  List.unzip_zip h.length_eq

theorem evalAll_eq_mapM (ps : List Parameter) (keys : List (Option KeyTree)) :
    evalAll scope ps keys = (ps.zip keys).mapM fun (p, keys) => p.eval scope keys := by
  induction ps generalizing keys with
  | nil =>
    rw [evalAll_nil, List.zip_nil_left]
    rfl
  | cons p rest ih =>
    cases keys with
    | nil =>
      rw [evalAll, List.zip_nil_right]
      · rfl
      · nofun
    | cons key more =>
      rw [evalAll, List.zip_cons_cons, List.mapM_cons, ih]

end

/-- What answers for an operator that has these parameters, in a step, to their values. -/
abbrev Application := Operator → List Parameter → String → List Decimal → Except Halt Decimal

namespace Application

/-- It answers like the operators where there is a value for each parameter and the operator takes
that many. Otherwise it may do anything. -/
def Agrees (apply : Application) : Prop :=
  ∀ (op : Operator) (ps : List Parameter) (stepId : String) (values : List Decimal),
    values.length = ps.length → op.Takes values.length →
      apply op ps stepId values = op.applyTo stepId values

def strict : Application := fun op ps stepId values =>
  if values.length = ps.length then
    match op.checkCount values.length with
    | .ok _ => op.applyTo stepId values
    | .error _ => Operator.missing
  else Operator.missing

theorem strict_agrees : strict.Agrees := by
  intro op ps stepId values hlength htakes
  unfold strict
  rw [if_pos hlength, Operator.checkCount_eq_ok_iff.mpr htakes]

end Application

namespace Memoised

def appliedWith (apply : List Decimal → Except Halt Decimal) (op : Operator) (count : ℕ)
    (key : Option String) (values : Memoised (List Decimal)) : Memoised Decimal := do
  ofError (op.checkCount count)
  let memo ← get
  match memo.find? key with
  | some value =>
    set { memo with hits := memo.hits + 1 }
    return value
  | none =>
    let value ← liftM (apply (← values))
    modify (·.remember key value)
    return value

end Memoised

mutual
/-- Evaluation in which `apply` answers for the operators. -/
def Operation.evalWith (apply : Application) (scope : Scope) : Operation → Memoised Decimal
  | .literal value => pure value
  | .reference name => ofError (scope.resolve name)
  | .apply op ps => do
    let tree ← ofError (keyTree scope op ps)
    appliedWith (apply op ps scope.stepId) op ps.length tree.key
      (evalAllWith apply scope ps tree.nested)
def Parameter.evalWith (apply : Application) (scope : Scope) :
    Parameter → Option KeyTree → Memoised Decimal
  | .literal value, _ => pure value
  | .reference name, _ => ofError (scope.resolve name)
  | .step _ (.apply op ps), some tree =>
    appliedWith (apply op ps scope.stepId) op ps.length tree.key
      (evalAllWith apply scope ps tree.nested)
  | .step _ operation, _ => operation.evalWith apply scope
def evalAllWith (apply : Application) (scope : Scope) :
    List Parameter → List (Option KeyTree) → Memoised (List Decimal)
  | p :: ps, k :: ks => do
    let value ← p.evalWith apply scope k
    let values ← evalAllWith apply scope ps ks
    return value :: values
  | _, _ => pure []
end

namespace Memoised

def Counts (n : ℕ) (answer : Except Halt (List Decimal)) : Prop :=
  ∀ values, answer = .ok values → values.length = n

theorem appliedWith_eq {apply : List Decimal → Except Halt Decimal} {stepId : String}
    {op : Operator} {count : ℕ} {key : Option String} {values : Memoised (List Decimal)}
    (hvalues : Ensures (fun _ => True) values (Counts count))
    (happly : ∀ vs : List Decimal, vs.length = count → op.Takes vs.length →
      apply vs = op.applyTo stepId vs) :
    appliedWith apply op count key values = applied stepId op count key values := by
  unfold appliedWith applied
  have hcount : Ensures (fun _ => True) (ofError (op.checkCount count))
      fun answer => answer = .ok () → op.Takes count :=
    ensures_ofError fun h => Operator.checkCount_eq_ok_iff.mp (Halt.ofError_eq_ok.mp h)
  refine bind_congr_of_ensures hcount fun _ htakes => ?_
  congr 1
  funext memo
  cases memo.find? key with
  | some value => rfl
  | none =>
    refine bind_congr_of_ensures hvalues fun vs hlength => ?_
    have hlength := hlength vs rfl
    rw [happly vs hlength (hlength ▸ htakes rfl)]

end Memoised

section
variable {scope : Scope}

theorem ensures_counts {ps : List Parameter} {keys : List (Option KeyTree)}
    (hlength : ps.length = keys.length) :
    Ensures (fun _ => True) (evalAll scope ps keys) (Counts ps.length) := by
  induction ps generalizing keys with
  | nil =>
    rw [evalAll_nil]
    apply ensures_pure
    intro values h
    cases h
    rfl
  | cons p rest ih =>
    cases keys with
    | nil => cases hlength
    | cons key more =>
      rw [evalAll]
      have hvalue : Ensures (fun _ => True) (p.eval scope key) fun _ => True :=
        fun _ _ => ⟨trivial, trivial⟩
      refine hvalue.bind (fun _ _ => nofun) fun v _ => ?_
      refine (ih (Nat.succ.inj hlength)).bind (fun _ _ => nofun) fun vs hvs => ?_
      apply ensures_pure
      intro values h
      cases h
      exact congrArg (· + 1) (hvs vs rfl)

variable {apply : Application}

mutual
theorem Parameter.evalWith_eq (hagrees : apply.Agrees) : (p : Parameter) →
    (keys : Option KeyTree) → p.Keyed keys → p.evalWith apply scope keys = p.eval scope keys
  | .literal _, _ => fun _ => by rw [Parameter.evalWith, Parameter.eval]
  | .reference _, _ => fun _ => by rw [Parameter.evalWith, Parameter.eval]
  | .step heading (.literal value), _ => fun _ => by
    rw [eval_step_literal, Parameter.evalWith, Operation.evalWith]
    nofun
  | .step heading (.reference name), _ => fun _ => by
    rw [eval_step_reference, Parameter.evalWith, Operation.evalWith]
    nofun
  | .step heading (.apply op ps), keys => fun h => by
    -- There are keys, so that none are made anew.
    cases h with
    | @operatorStep _ _ _ key nested hnested =>
      rw [Parameter.evalWith, Parameter.eval, KeyTree.nested,
        evalAllWith_eq hagrees ps nested hnested]
      exact appliedWith_eq (ensures_counts hnested.length_eq) fun vs => hagrees op ps _ vs
theorem evalAllWith_eq (hagrees : apply.Agrees) : (ps : List Parameter) →
    (keys : List (Option KeyTree)) → List.Forall₂ Parameter.Keyed ps keys →
    evalAllWith apply scope ps keys = evalAll scope ps keys
  | [], _ => fun h => by
    cases h
    rw [evalAll_nil, evalAllWith]
    nofun
  | p :: rest, keys => fun h => by
    cases h with
    | @cons _ key _ more hp hrest =>
      rw [evalAllWith, evalAll, p.evalWith_eq hagrees key hp,
        evalAllWith_eq hagrees rest more hrest]
end

theorem Operation.evalWith_eq (hagrees : apply.Agrees) (o : Operation) :
    o.evalWith apply scope = o.eval scope := by
  cases o with
  | literal value => rw [Operation.evalWith, Operation.eval]
  | reference name => rw [Operation.evalWith, Operation.eval]
  | apply op ps =>
    rw [Operation.evalWith, Operation.eval]
    have hkeys : Ensures (fun _ => True) (ofError (keyTree scope op ps))
        fun answer => ∀ tree, answer = .ok tree → tree.Fits ps :=
      ensures_ofError fun tree h => fits_of_keyTree (Halt.ofError_eq_ok.mp h)
    refine bind_congr_of_ensures hkeys fun tree htree => ?_
    have hfits : tree.Fits ps := htree tree rfl
    rw [evalAllWith_eq hagrees ps tree.nested hfits]
    exact appliedWith_eq (ensures_counts hfits.length_eq) fun vs => hagrees op ps _ vs

end

/-- Evaluation skips no parameter and never aborts. Keys fit the parameters that they are made for;
then both can be read side by side without loss, as evaluation does. Answers for operators that
agree where there is a value for each parameter, and the operator takes that many, are as good as
those of the operators themselves, which do not abort then. So every formula has an evaluation, be
it valid or not. -/
theorem Formula.evaluates_in_full (settings : FormulaSettings) (f : Formula) (b : Bindings) :
    (∀ (scope : Scope) (op : Operator) (ps : List Parameter) (tree : KeyTree),
      keyTree scope op ps = .ok tree → tree.Fits ps) ∧
    (∀ (tree : KeyTree) (ps : List Parameter), tree.Fits ps →
      (ps.zip tree.nested).unzip = (ps, tree.nested) ∧
        ∀ scope : Scope, evalAll scope ps tree.nested =
          (ps.zip tree.nested).mapM fun (p, keys) => p.eval scope keys) ∧
    (∀ apply : Application, apply.Agrees →
      ∀ (scope : Scope) (o : Operation), o.evalWith apply scope = o.eval scope) ∧
    (∀ (op : Operator) (stepId : String) (values : List Decimal), op.Takes values.length →
      Unaborted (op.applyTo stepId values)) ∧
    ∃ e, f.evaluate settings b = .ok e := by
  refine ⟨?_, ?_, ?_, ?_, f.exists_evaluate settings b⟩
  · exact fun _ _ _ _ hkeys => fits_of_keyTree hkeys
  · exact fun _ ps hfits => ⟨hfits.unzip_zip, fun _ => evalAll_eq_mapM ps _⟩
  · exact fun _ hagrees _ o => o.evalWith_eq hagrees
  · exact fun _ _ _ htakes => Operator.unaborted_applyTo htakes

def rebate : List Parameter :=
  [.reference "rate",
    .step { id := "cut" } (.apply .percent [.step {} (.apply .abs [.reference "rate"])]),
    .step {} (.literal .one), .reference "12"]

def rebateScope : Scope := { bindings := [("rate", .hundred)], stepId := "s", limit := 2 }

def withoutDivisor : Formula where
  steps :=
    [{ id := "s1", name := "Share", result := "share"
       operation := .apply .divide [.step {} (.apply .subtract rebate)] }]
  output := "share"

theorem Formula.evaluates_in_full_withoutDivisor :
    (withoutDivisor.review {}).isValid = false ∧
      ∃ tree, keyTree rebateScope .subtract rebate = .ok tree ∧ tree.Fits rebate ∧
        (rebate.zip tree.nested).unzip = (rebate, tree.nested) ∧
        Application.strict.Agrees ∧
        (Operation.apply .subtract rebate).evalWith .strict rebateScope =
          (Operation.apply .subtract rebate).eval rebateScope ∧
        Operator.percent.Takes 1 ∧ Unaborted (Operator.percent.applyTo "s" [.hundred]) ∧
        ∃ e, withoutDivisor.evaluate {} rebateScope.bindings = .ok e := by
  obtain ⟨hfits, hreads, hagrees, hunaborted, hevaluate⟩ :=
    evaluates_in_full {} withoutDivisor rebateScope.bindings
  have htakes : Operator.percent.Takes 1 := ⟨.exactly 1, rfl, .inr rfl⟩
  have hkeys := hfits rebateScope .subtract rebate _ rfl
  exact ⟨by rfl, _, rfl, hkeys, (hreads _ _ hkeys).1, Application.strict_agrees,
    hagrees _ Application.strict_agrees _ _, htakes, hunaborted .percent "s" [.hundred] htakes,
    hevaluate⟩

end Payroll
