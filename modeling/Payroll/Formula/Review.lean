import Payroll.Formula.Json
import Payroll.Formula.Review.Cycles
import Payroll.Settings.Basic

/-!
# Reviews

A review looks at a formula before it is used, without running it. Every step has an identifier of
its own, a name and a result, and a step produces the output; nothing is nested too deep, refers to
what is not there or to itself; and what looks suspicious is reported too.
-/

set_option autoImplicit false

namespace Payroll

namespace Step

/-- What a step is called in messages; a step without identifier by its place, from one. -/
def label (s : Step) (place : Nat) : String := if s.id.isEmpty then "#" ++ toString place else s.id

def missingFields (s : Step) (place : Nat) : List Defect :=
  [("id", s.id), ("name", s.name), ("result", s.result)].filterMap fun (field, value) =>
    if Text.isVoid value then some (.missingField (s.label place) field) else none

end Step

namespace Formula

def stepShape (seen : List String) (place : Nat) : List Step → List Defect
  | [] => []
  | s :: rest =>
    let repeated := if !s.id.isEmpty && seen.contains s.id then [Defect.duplicateId s.id] else []
    s.missingFields place ++ repeated ++ stepShape (s.id :: seen) (place + 1) rest

def outputShape (f : Formula) : List Defect :=
  if f.output.isEmpty then [.noOutput]
  else if f.outputStep?.isNone then [.outputNotProduced f.output]
  else []

def shapeDefects (f : Formula) : List Defect :=
  (if f.steps.isEmpty then [Defect.noSteps] else []) ++ stepShape [] 1 f.steps ++ f.outputShape

def unusedVariables (f : Formula) : List Concern :=
  let used := f.steps.flatMap (·.operation.references)
  f.declared.filterMap fun v =>
    if used.contains v.name || v.name = f.output then none else some (.unusedVariable v.name)

def sizeConcerns (f : Formula) (limit : Nat) : List Concern :=
  if limit < f.steps.length then [.manySteps f.steps.length limit] else []

def defects (f : Formula) (settings : FormulaSettings) : List Defect :=
  f.shapeDefects ++ f.stepDefects settings.maxNestingDepth ++ f.cycleDefects

def concerns (f : Formula) (settings : FormulaSettings) : List Concern :=
  f.stepConcerns settings.maxNestingDepth ++ f.unusedVariables
    ++ f.sizeConcerns settings.maxStepsWarning

def review (settings : FormulaSettings) (f : Formula) : Report :=
  .ofFindings (f.defects settings) (f.concerns settings)

/-- The review of a plan's formula. A configuration that is no formula is a defect by itself. -/
def reviewPlan (settings : FormulaSettings) (plan : Plan) : Report :=
  match ofPlan plan with
  | .ok f => f.review settings
  | .error cause => .ofFindings [.unreadable cause] []

end Formula

end Payroll
