import Payroll.Formula.Bindings
import Payroll.Formula.Review.Report

/-!
# Review of steps

A walk over each step in order, with the names that are bound before it. It finds names that are
not, operators that are unknown or have the wrong number of parameters, operators nested too deeply,
and divisors that are zero or may be.
-/

set_option autoImplicit false

namespace Payroll

structure Outlook where
  stepId : String
  bound : List String
  limit : Nat

namespace Outlook

def numeral? (name : String) : Option Decimal := Decimal.ofAmount? (Text.trim name)

def referenceDefects (o : Outlook) (name : String) (position : Option Nat) : List Defect :=
  if (numeral? name).isSome || o.bound.contains name then []
  else [.undefinedVariable o.stepId name position]

def known? : Parameter → Option Decimal
  | .literal value => some value
  | .reference name => numeral? name
  | .step _ _ => none

def divisorDefects (o : Outlook) (divisor : Parameter) : List Defect :=
  if (known? divisor).any Decimal.isZero then [.divisionByZero o.stepId] else []

def divisorConcerns (o : Outlook) : Parameter → List Concern
  | .reference name =>
    if (numeral? name).isNone then [.uncertainDivisor o.stepId name] else []
  | _ => []

def operatorDefects (o : Outlook) (op : Operator) (parameters : List Parameter) : List Defect :=
  match op.arity? with
  | none => [.unsupportedOperator o.stepId op.tag]
  | some arity =>
    if !arity.accepts parameters.length then
      [.arity o.stepId op.tag arity.text parameters.length]
    else
      match op, parameters with
      | .divide, [_, divisor] => o.divisorDefects divisor
      | _, _ => []

def operatorConcerns (o : Outlook) (op : Operator) (parameters : List Parameter) : List Concern :=
  match op, parameters with
  | .divide, [_, divisor] => o.divisorConcerns divisor
  | _, _ => []

end Outlook

mutual
def Operation.defects (o : Outlook) (depth : Nat) : Operation → List Defect
  | .literal _ => []
  | .reference name => o.referenceDefects name none
  | .apply op parameters =>
    if o.limit < depth then [.nestingTooDeep o.stepId o.limit]
    else o.operatorDefects op parameters ++ defectsOf o depth 0 parameters
def Parameter.defects (o : Outlook) (depth position : Nat) : Parameter → List Defect
  | .literal _ => []
  | .reference name => o.referenceDefects name (some position)
  | .step _ operation => operation.defects o (depth + 1)
def defectsOf (o : Outlook) (depth position : Nat) : List Parameter → List Defect
  | [] => []
  | p :: rest => p.defects o depth position ++ defectsOf o depth (position + 1) rest
end

mutual
def Operation.concerns (o : Outlook) (depth : Nat) : Operation → List Concern
  | .apply op parameters =>
    if o.limit < depth then []
    else o.operatorConcerns op parameters ++ concernsOf o depth parameters
  | _ => []
def Parameter.concerns (o : Outlook) (depth : Nat) : Parameter → List Concern
  | .step _ operation => operation.concerns o (depth + 1)
  | _ => []
def concernsOf (o : Outlook) (depth : Nat) : List Parameter → List Concern
  | [] => []
  | p :: rest => p.concerns o depth ++ concernsOf o depth rest
end

namespace Defect

/-- Leaves out every defect of too deep nesting but the first. -/
def depthOnce : List Defect → List Defect
  | [] => []
  | nestingTooDeep stepId limit :: rest =>
    nestingTooDeep stepId limit :: rest.filter fun
      | nestingTooDeep _ _ => false
      | _ => true
  | d :: rest => d :: depthOnce rest

end Defect

namespace Formula

def initialNames (f : Formula) : List String := Bindings.seeds ++ f.declared.map (·.name)

/-- The outlooks on steps, each with its step, where `bound` are the names bound before them. -/
def outlooks (limit : Nat) (bound : List String) : List Step → List (Outlook × Step)
  | [] => []
  | s :: rest =>
    ({ stepId := s.id, bound, limit }, s)
      :: outlooks limit (if s.result.isEmpty then bound else s.result :: bound) rest

def stepDefects (f : Formula) (limit : Nat) : List Defect :=
  (outlooks limit f.initialNames f.steps).flatMap fun (o, s) =>
    Defect.depthOnce (s.operation.defects o 0)

def stepConcerns (f : Formula) (limit : Nat) : List Concern :=
  (outlooks limit f.initialNames f.steps).flatMap fun (o, s) => s.operation.concerns o 0

end Formula

end Payroll
