import Payroll.Decimal.Basic
import Payroll.Formula.Operator

/-!
# Formulas

A formula declares variables and computes steps in order. A step applies operators to numbers, names
and nested steps, and binds its value to a name; the value of the output name is the formula's
answer.
-/

set_option autoImplicit false

namespace Payroll

inductive Source where
  | constant
  | property (path : String)
  | sales
deriving DecidableEq

structure Variable where
  name : String
  description : String := ""
  /-- The value of a constant, and of a missing property. -/
  default : Decimal := .zero
  source : Source := .constant
deriving DecidableEq

/-- What a step is called. A nested step may leave all of it empty. -/
structure Heading where
  id : String := ""
  name : String := ""
  description : Option String := none
  result : String := ""
deriving DecidableEq

mutual
inductive Operation where
  | literal (value : Decimal)
  | reference (name : String)
  | apply (operator : Operator) (parameters : List Parameter)
inductive Parameter where
  | literal (value : Decimal)
  | reference (name : String)
  | step (heading : Heading) (operation : Operation)
end

structure Step extends Heading where
  operation : Operation

structure Formula where
  declared : List Variable := []
  steps : List Step := []
  output : String := ""

namespace Formula

def outputStep? (f : Formula) : Option Step := f.steps.find? (·.result = f.output)

end Formula

mutual
/-- The names that an operation refers to, at any depth, from left to right. -/
def Operation.references : Operation → List String
  | .literal _ => []
  | .reference name => [name]
  | .apply _ parameters => referencesOf parameters
def Parameter.references : Parameter → List String
  | .literal _ => []
  | .reference name => [name]
  | .step _ operation => operation.references
def referencesOf : List Parameter → List String
  | [] => []
  | p :: rest => p.references ++ referencesOf rest
end

end Payroll
