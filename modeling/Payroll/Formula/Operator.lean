/-!
# Operators

The operators of formulas, their tags, and how many parameters they take.
-/

set_option autoImplicit false

namespace Payroll

inductive Arity where
  | exactly (count : Nat)
  | atLeast (count : Nat)
deriving DecidableEq

namespace Arity

def accepts : Arity → Nat → Bool
  | exactly n, count => count = n
  | atLeast n, count => n ≤ count

def text : Arity → String
  | exactly n => "exactly " ++ toString n
  | atLeast n => "at least " ++ toString n

end Arity

inductive Operator where
  | add
  | subtract
  | multiply
  | divide
  | conditional
  | min
  | max
  | equal
  | notEqual
  | greaterThan
  | lessThan
  | greaterThanOrEqual
  | lessThanOrEqual
  | and
  | or
  | not
  | percent
  | round
  | abs
  /-- A tag that names none of the others. -/
  | unsupported (tag : String)
deriving DecidableEq

namespace Operator

def tag : Operator → String
  | add => "add"
  | subtract => "subtract"
  | multiply => "multiply"
  | divide => "divide"
  | conditional => "if"
  | min => "min"
  | max => "max"
  | equal => "equal"
  | notEqual => "notEqual"
  | greaterThan => "greaterThan"
  | lessThan => "lessThan"
  | greaterThanOrEqual => "greaterThanOrEqual"
  | lessThanOrEqual => "lessThanOrEqual"
  | and => "and"
  | or => "or"
  | not => "not"
  | percent => "percent"
  | round => "round"
  | abs => "abs"
  | unsupported tag => tag

/-- The operator of a tag; the conditional has two tags. -/
def ofTag (tag : String) : Operator :=
  match tag with
  | "add" => add
  | "subtract" => subtract
  | "multiply" => multiply
  | "divide" => divide
  | "if" => conditional
  | "conditional" => conditional
  | "min" => min
  | "max" => max
  | "equal" => equal
  | "notEqual" => notEqual
  | "greaterThan" => greaterThan
  | "lessThan" => lessThan
  | "greaterThanOrEqual" => greaterThanOrEqual
  | "lessThanOrEqual" => lessThanOrEqual
  | "and" => and
  | "or" => or
  | "not" => not
  | "percent" => percent
  | "round" => round
  | "abs" => abs
  | _ => unsupported tag

def arity? : Operator → Option Arity
  | add | subtract | multiply | min | max => some (.atLeast 1)
  | and | or => some (.atLeast 2)
  | divide | equal | notEqual | greaterThan | lessThan | greaterThanOrEqual | lessThanOrEqual =>
    some (.exactly 2)
  | conditional => some (.exactly 3)
  | not | percent | round | abs => some (.exactly 1)
  | unsupported _ => none

/-- Operators that start from a neutral value, and so take any number of parameters in a run. -/
def folds : Operator → Bool
  | add | subtract | multiply => true
  | _ => false

end Operator

end Payroll
