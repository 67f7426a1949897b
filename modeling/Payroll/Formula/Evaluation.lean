import Payroll.Formula.Application
import Payroll.Formula.Key
import Payroll.Formula.Trace
import Payroll.Settings.Basic

/-!
# Evaluation

Steps run in order and each binds its result. All parameters of an operator are evaluated before it
is applied, those of a conditional too. Values of operators are kept in a memo that lives as long as
one evaluation.
-/

set_option autoImplicit false

namespace Payroll

/-- Values of operators by their keys, and how often one was found. -/
structure Memo where
  entries : List (String × Decimal) := []
  hits : Nat := 0

namespace Memo

def find? (m : Memo) (key : Option String) : Option Decimal :=
  key.bind fun key => m.entries.lookup key

def remember (m : Memo) (key : Option String) (value : Decimal) : Memo :=
  match key with
  | some key => { m with entries := (key, value) :: m.entries }
  | none => m

end Memo

/-- A computation that uses and extends a memo. The memo outlives a halt. -/
abbrev Memoised := ExceptT Halt (StateM Memo)

namespace Memoised

def ofError {α : Type} : Except PayError α → Memoised α
  | .ok a => pure a
  | .error e => throw (.error e)

/-- The value of an operator: a remembered one, or one computed from its parameters' values. -/
def applied (stepId : String) (op : Operator) (count : Nat) (key : Option String)
    (values : Memoised (List Decimal)) : Memoised Decimal := do
  ofError (op.checkCount count)
  let memo ← get
  match memo.find? key with
  | some value =>
    set { memo with hits := memo.hits + 1 }
    return value
  | none =>
    let value ← liftM (op.applyTo stepId (← values))
    modify (·.remember key value)
    return value

end Memoised

open Memoised

mutual
def Operation.eval (scope : Scope) : Operation → Memoised Decimal
  | .literal value => pure value
  | .reference name => ofError (scope.resolve name)
  | .apply op parameters => do
    let tree ← ofError (keyTree scope op parameters)
    applied scope.stepId op parameters.length tree.key (evalAll scope parameters tree.nested)
def Parameter.eval (scope : Scope) : Parameter → Option KeyTree → Memoised Decimal
  | .literal value, _ => pure value
  | .reference name, _ => ofError (scope.resolve name)
  | .step _ (.apply op parameters), some tree =>
    applied scope.stepId op parameters.length tree.key (evalAll scope parameters tree.nested)
  | .step _ operation, _ => operation.eval scope
def evalAll (scope : Scope) : List Parameter → List (Option KeyTree) → Memoised (List Decimal)
  | p :: ps, k :: ks => do
    let value ← p.eval scope k
    let values ← evalAll scope ps ks
    return value :: values
  | _, _ => pure []
end

namespace Trace

def reference (b : Bindings) (name : String) : Json :=
  match b.get? name with
  | some value => .object [("variable", .string name), ("value", .string value.toText)]
  | none => .object [("variable", .string name)]

def literal (value : Decimal) : Json := .object [("literal", .string value.toText)]

def kindOf : Operation → String
  | .literal _ => "literal"
  | .reference _ => "reference"
  | .apply op _ => op.tag

def parameter (b : Bindings) : Parameter → Json
  | .literal value => literal value
  | .reference name => reference b name
  | .step heading operation =>
    .object [("expression", .string heading.id), ("operator", .string (kindOf operation))]

def inputsOf (b : Bindings) : Operation → Json
  | .literal value => .array [literal value]
  | .reference name => .array [reference b name]
  | .apply _ parameters => .list (parameter b) parameters

end Trace

structure Progress where
  bindings : Bindings
  memo : Memo := {}
  /-- The steps that ran, last first. -/
  entries : List Trace.Entry := []

namespace Progress

def runSteps (limit : Nat) (number : Nat) (p : Progress) : List Step → Option Halt × Progress
  | [] => (none, p)
  | step :: rest =>
    let scope : Scope := { bindings := p.bindings, stepId := step.id, limit }
    let (outcome, memo) := (step.operation.eval scope).run.run p.memo
    match outcome with
    | .error halt => (some halt, { p with memo })
    | .ok value =>
      let entry : Trace.Entry :=
        { number, stepId := step.id, stepName := step.name
          inputs := Trace.inputsOf p.bindings step.operation
          result := value, target := step.result }
      runSteps limit (number + 1)
        { bindings := p.bindings.bind step.result value, memo, entries := entry :: p.entries } rest

end Progress

/-- What an evaluation answers. Without success the result is zero, and the trace holds the steps
before the one that failed. -/
structure Evaluation where
  result : Decimal
  bindings : Bindings
  trace : Trace
  error : Option PayError := none

namespace Evaluation

def succeeded (e : Evaluation) : Bool := e.error.isNone

def valueOrZero (e : Evaluation) (name : String) : Decimal := e.bindings.valueOrZero name

def ofProgress (p : Progress) (result : Decimal) (error : Option PayError) : Evaluation :=
  { result, bindings := p.bindings, error
    trace := { entries := p.entries.reverse, hits := p.memo.hits } }

end Evaluation

namespace Formula

def evaluate (settings : FormulaSettings) (f : Formula) (b : Bindings) : Except Abort Evaluation :=
  match Progress.runSteps settings.maxNestingDepth 1 { bindings := b } f.steps with
  | (some (.abort cause), _) => .error cause
  | (some (.error cause), p) => .ok (.ofProgress p .zero (some cause))
  | (none, p) =>
    match p.bindings.get? f.output with
    | some result => .ok (.ofProgress p result none)
    | none => .ok (.ofProgress p .zero (some (.outputMissing f.output)))

def run (settings : FormulaSettings) (f : Formula) (b : Bindings) : Except Halt Evaluation :=
  match f.evaluate settings b with
  | .error cause => .error (.abort cause)
  | .ok e =>
    match e.error with
    | some cause => .error (.error cause)
    | none => .ok e

def preview (settings : FormulaSettings) (f : Formula) (sales : Decimal) : Except Halt Decimal :=
  (f.run settings (f.previewBindings sales)).map (·.result)

end Formula

end Payroll
