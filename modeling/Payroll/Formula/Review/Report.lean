import Payroll.Error
import Payroll.Formula.Basic
import Payroll.Json.Record

/-!
# Reports

What a review of a formula finds: defects, which keep a formula from being used, and concerns, which
do not. A report is the readable form of both.
-/

set_option autoImplicit false

namespace Payroll

-- Powers are those of core, whatever other instances there are.
attribute [local instance (2000)] instPowNat

namespace Report

inductive ErrorKind where
  | grammar
  | binding
  | step
  | structural
  | logic
deriving DecidableEq

inductive WarningKind where
  | performance
  | logic
  | potentialError
deriving DecidableEq

namespace ErrorKind

def all : List ErrorKind := [grammar, binding, step, structural, logic]

def tag : ErrorKind → String
  | grammar => "syntax"
  | binding => "variable"
  | step => "step"
  | structural => "structure"
  | logic => "logic"

def ofJson? (j : Json) : Option ErrorKind := j.word?.bind fun word => all.find? (·.tag = word)

end ErrorKind

namespace WarningKind

def all : List WarningKind := [performance, logic, potentialError]

def tag : WarningKind → String
  | performance => "performance"
  | logic => "logic"
  | potentialError => "potential_error"

def ofJson? (j : Json) : Option WarningKind := j.word?.bind fun word => all.find? (·.tag = word)

end WarningKind

structure Finding (Kind : Type) where
  kind : Kind
  message : String
  stepId : Option String := none
  name : Option String := none
  /-- The position among the parameters of an operator, from zero. -/
  position : Option Nat := none
deriving DecidableEq

namespace Finding

variable {Kind : Type}

def toJson (tag : Kind → String) (f : Finding Kind) : Json :=
  let text (key : String) (value : Option String) :=
    (value.map fun s => (key, Json.string s)).toList
  let position := (f.position.map fun n => ("parameterIndex", Json.natural n)).toList
  .object
    (("type", .string (tag f.kind)) :: ("message", .string f.message)
      :: text "stepId" f.stepId ++ text "variable" f.name ++ position)

def ofJson? (kind? : Json → Option Kind) (j : Json) : Option (Finding Kind) := do
  let row ← j.row? 5
  some { kind := ← row.required? 0 ["type"] kind?
         message := ← row.required? 1 ["message"] Json.string?
         stepId := ← row.optional? 2 ["stepId"] Json.string?
         name := ← row.optional? 3 ["variable"] Json.string?
         position := ← row.optional? 4 ["parameterIndex"] (Json.naturalBelow? (2 ^ (64 : Nat))) }

end Finding

end Report

structure Report where
  isValid : Bool
  errors : List (Report.Finding Report.ErrorKind)
  warnings : List (Report.Finding Report.WarningKind)

namespace Report

def hasError (r : Report) (kind : ErrorKind) : Bool := r.errors.any (·.kind = kind)

def hasWarning (r : Report) (kind : WarningKind) : Bool := r.warnings.any (·.kind = kind)

def toJson (r : Report) : Json :=
  .object
    [("isValid", .bool r.isValid), ("errors", .list (Finding.toJson ErrorKind.tag) r.errors),
      ("warnings", .list (Finding.toJson WarningKind.tag) r.warnings)]

def ofJson? (j : Json) : Option Report := do
  let row ← j.row? 3
  some { isValid := ← row.required? 0 ["isValid"] Json.bool?
         errors := ← row.required? 1 ["errors"] (Json.list? (Finding.ofJson? ErrorKind.ofJson?))
         warnings := ← row.required? 2 ["warnings"]
           (Json.list? (Finding.ofJson? WarningKind.ofJson?)) }

end Report

inductive Defect where
  | noSteps
  | missingField (label field : String)
  | duplicateId (id : String)
  | noOutput
  | outputNotProduced (name : String)
  | nestingTooDeep (stepId : String) (limit : Nat)
  | unsupportedOperator (stepId tag : String)
  | arity (stepId tag expected : String) (count : Nat)
  | divisionByZero (stepId : String)
  | undefinedVariable (stepId name : String) (position : Option Nat)
  /-- The path leads from its first name back to it. -/
  | circular (stepId : Option String) (path : List String)
  | unreadable (cause : PayError)
deriving DecidableEq

namespace Defect

open Report

def finding : Defect → Finding ErrorKind
  | noSteps => { kind := .structural, message := "Formula must have at least one step" }
  | missingField label field =>
    { kind := .step, message := "Step " ++ label ++ " is missing a " ++ field
      stepId := some label }
  | duplicateId id =>
    { kind := .step, message := "Duplicate step id '" ++ id ++ "'", stepId := some id }
  | noOutput => { kind := .structural, message := "Formula has no output variable" }
  | outputNotProduced name =>
    { kind := .structural, name := some name
      message := "Output variable '" ++ name ++ "' is not produced by any step" }
  | nestingTooDeep stepId limit =>
    { kind := .structural, stepId := some stepId
      message := (PayError.nestingTooDeep stepId limit).message }
  | unsupportedOperator stepId tag =>
    { kind := .grammar, stepId := some stepId, message := "Unsupported operator '" ++ tag ++ "'" }
  | arity stepId tag expected count =>
    { kind := .grammar, stepId := some stepId
      message := (PayError.arity tag expected count).message }
  | divisionByZero stepId =>
    { kind := .logic, stepId := some stepId, position := some 1
      message := (PayError.divisionByZero stepId).message }
  | undefinedVariable stepId name position =>
    { kind := .binding, stepId := some stepId, name := some name, position
      message := (PayError.undefinedVariable name stepId).message }
  | circular stepId path =>
    { kind := .structural, stepId, name := path.head?
      message := "Circular dependency detected: " ++ " → ".intercalate path }
  | unreadable cause => { kind := .grammar, message := cause.message }

end Defect

/-- What may be unintended, or may fail with some inputs. -/
inductive Concern where
  | uncertainDivisor (stepId name : String)
  | unusedVariable (name : String)
  | manySteps (count limit : Nat)
deriving DecidableEq

namespace Concern

open Report

def finding : Concern → Finding WarningKind
  | uncertainDivisor stepId name =>
    { kind := .potentialError, stepId := some stepId, name := some name, position := some 1
      message := "Divisor '" ++ name ++ "' may be zero at runtime" }
  | unusedVariable name =>
    { kind := .logic, name := some name
      message := "Variable '" ++ name ++ "' is declared but never used" }
  | manySteps count limit =>
    { kind := .performance
      message := "Formula has " ++ toString count ++ " steps, more than the recommended "
        ++ toString limit }

end Concern

/-- The report on what was found; a formula without defects is valid. -/
def Report.ofFindings (defects : List Defect) (concerns : List Concern) : Report :=
  { isValid := defects.isEmpty
    errors := defects.map Defect.finding
    warnings := concerns.map Concern.finding }

end Payroll
