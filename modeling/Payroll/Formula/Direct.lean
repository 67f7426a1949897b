import Payroll.Formula.Application
import Payroll.Formula.Key

/-!
# Direct evaluation

What formulas mean, without keys and without a memo: a step is checked for its depth and its names,
and then its operators are applied from the inside out.
-/

set_option autoImplicit false

namespace Payroll

mutual
/-- The depth of nesting and the names of an operation at `depth`, checked from left to right. -/
def Operation.check (scope : Scope) (depth : Nat) : Operation → Except PayError Unit
  | .literal _ => .ok ()
  | .reference name => do
    let _ ← scope.resolve name
    return ()
  | .apply _ parameters => do
    scope.checkDepth depth
    checkAll scope depth parameters
def Parameter.check (scope : Scope) (depth : Nat) : Parameter → Except PayError Unit
  | .literal _ => .ok ()
  | .reference name => do
    let _ ← scope.resolve name
    return ()
  | .step _ operation => operation.check scope (depth + 1)
def checkAll (scope : Scope) (depth : Nat) : List Parameter → Except PayError Unit
  | [] => .ok ()
  | p :: rest => do
    p.check scope depth
    checkAll scope depth rest
end

mutual
def Operation.value (scope : Scope) : Operation → Except Halt Decimal
  | .literal value => .ok value
  | .reference name => Halt.ofError (scope.resolve name)
  | .apply op parameters => do
    Halt.ofError (op.checkCount parameters.length)
    op.applyTo scope.stepId (← valuesOf scope parameters)
def Parameter.value (scope : Scope) : Parameter → Except Halt Decimal
  | .literal value => .ok value
  | .reference name => Halt.ofError (scope.resolve name)
  | .step _ operation => operation.value scope
def valuesOf (scope : Scope) : List Parameter → Except Halt (List Decimal)
  | [] => .ok []
  | p :: rest => do
    let value ← p.value scope
    let values ← valuesOf scope rest
    return value :: values
end

def Step.value (limit : Nat) (b : Bindings) (s : Step) : Except Halt Decimal := do
  let scope : Scope := { bindings := b, stepId := s.id, limit }
  Halt.ofError (s.operation.check scope 0)
  s.operation.value scope

namespace Formula

def runDirect (limit : Nat) (b : Bindings) : List Step → Option Halt × Bindings
  | [] => (none, b)
  | s :: rest =>
    match s.value limit b with
    | .error halt => (some halt, b)
    | .ok value => runDirect limit (b.bind s.result value) rest

def direct (limit : Nat) (f : Formula) (b : Bindings) : Except Halt Decimal × Bindings :=
  match runDirect limit b f.steps with
  | (some halt, b) => (.error halt, b)
  | (none, b) =>
    match b.get? f.output with
    | some value => (.ok value, b)
    | none => (.error (.error (.outputMissing f.output)), b)

end Formula

end Payroll
