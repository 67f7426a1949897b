/-!
# Errors

Why a calculation has no result. An error is reported on the row it belongs to; an abort is an
operation that nothing guards, and it takes the whole calculation with it.
-/

set_option autoImplicit false

namespace Payroll

inductive ConfigFault where
  | notObject
  | noBaseSalary
  | noSalaryBlock
  | noBrackets
  | negativePercentage (threshold : String)
  /-- Its parts do not have the form that the plan's kind asks for. -/
  | malformed
deriving DecidableEq

namespace ConfigFault

def message : ConfigFault → String
  | notObject => "plan config must be an object"
  | noBaseSalary => "missing base_salary in plan config"
  | noSalaryBlock => "missing basic_salary block in plan config"
  | noBrackets => "tiered commission plan has no brackets"
  | negativePercentage threshold =>
    "bracket at threshold " ++ threshold ++ " has a negative percentage"
  | malformed => "<parse error>"

end ConfigFault

inductive PeriodFault where
  | startDate
  | endDate
  | reversed
  | form
  | month
deriving DecidableEq

namespace PeriodFault

def message : PeriodFault → String
  | startDate => "start date is not YYYY-MM-DD"
  | endDate => "end date is not YYYY-MM-DD"
  | reversed => "end date is before start date"
  | form => "expected YYYY-MM or YYYY-MM-DD..YYYY-MM-DD"
  | month => "month is out of range"

end PeriodFault

inductive PayError where
  | configuration (planId : String) (fault : ConfigFault)
  | undefinedVariable (name stepId : String)
  | divisionByZero (stepId : String)
  | unsupportedOperator (tag : String)
  | arity (tag expected : String) (count : Nat)
  | unknownPlanType (tag : String)
  | outputMissing (name : String)
  | nestingTooDeep (stepId : String) (limit : Nat)
  | period (identifier : String) (fault : PeriodFault)
  | overflow (context : String)
  | settingsNotFound (path : String)
  | settingsMalformed (path : String)
deriving DecidableEq

namespace PayError

def message : PayError → String
  | configuration planId fault =>
    "Invalid configuration for plan '" ++ planId ++ "': " ++ fault.message
  | undefinedVariable name stepId =>
    "Undefined variable '" ++ name ++ "' referenced in step '" ++ stepId ++ "'"
  | divisionByZero stepId => "Division by zero in step '" ++ stepId ++ "'"
  | unsupportedOperator tag => "Unsupported operator: " ++ tag
  | arity tag expected count =>
    "Operator '" ++ tag ++ "' expects " ++ expected ++ " parameter(s), got " ++ toString count
  | unknownPlanType tag => "Unknown plan type: " ++ tag
  | outputMissing name => "Output variable '" ++ name ++ "' was not produced by any step"
  | nestingTooDeep stepId limit =>
    "Nesting depth limit of " ++ toString limit ++ " exceeded in step '" ++ stepId ++ "'"
  | period identifier fault => "Invalid period '" ++ identifier ++ "': " ++ fault.message
  | overflow context => "Calculation error: arithmetic overflow in " ++ context
  | settingsNotFound path => "Configuration file not found: " ++ path
  | settingsMalformed path => "Failed to parse configuration file '" ++ path ++ "'"

variable {α : Type}

def guarded (context : String) : Option α → Except PayError α
  | some a => .ok a
  | none => .error (.overflow context)

end PayError

/-- An unguarded operation without a result. -/
inductive Abort where
  | addition
  | subtraction
  | multiplication
  | division
  | missingOperand
  | lifetime
deriving DecidableEq

namespace Abort

def message : Abort → String
  | addition => "Addition overflowed"
  | subtraction => "Subtraction overflowed"
  | multiplication => "Multiplication overflowed"
  | division => "Division overflowed"
  | missingOperand => "Operand missing"
  | lifetime => "time_to_live is longer than 1000 years"

end Abort

inductive Halt where
  | error (cause : PayError)
  | abort (cause : Abort)
deriving DecidableEq

namespace Halt

variable {α : Type}

def ofError (outcome : Except PayError α) : Except Halt α := outcome.mapError error

def guarded (context : String) (result : Option α) : Except Halt α :=
  ofError (PayError.guarded context result)

/-- An operation that nothing guards: without a result it aborts. -/
def unguarded (cause : Abort) : Option α → Except Halt α
  | some a => .ok a
  | none => .error (abort cause)

end Halt

end Payroll
