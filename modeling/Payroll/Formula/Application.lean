import Payroll.Decimal.Arithmetic
import Payroll.Error
import Payroll.Formula.Operator

/-!
# Applying operators

The value of an operator on values. Truth is one and everything but zero counts as true.
-/

set_option autoImplicit false

namespace Payroll.Operator

/-- Refuses unsupported operators and wrong numbers of parameters, which the operators that fold
never have. -/
def checkCount (op : Operator) (count : Nat) : Except PayError Unit :=
  match op.arity? with
  | none => .error (.unsupportedOperator op.tag)
  | some arity =>
    if op.folds || arity.accepts count then .ok () else .error (.arity op.tag arity.text count)

def truth (b : Bool) : Decimal := if b then .one else .zero

def sum (op : Operator) (values : List Decimal) : Except Halt Decimal :=
  values.foldlM (fun total v => Halt.guarded op.tag (total.add? v)) .zero

def product (op : Operator) (values : List Decimal) : Except Halt Decimal :=
  values.foldlM (fun total v => Halt.guarded op.tag (total.mul? v)) .one

def missing : Except Halt Decimal := .error (.abort .missingOperand)

def applyTo (op : Operator) (stepId : String) (values : List Decimal) : Except Halt Decimal :=
  match op with
  | add => op.sum values
  | subtract =>
    match values with
    | [] => .ok .zero
    | a :: rest => do
      let taken ← op.sum rest
      Halt.guarded op.tag (a.sub? taken)
  | multiply => op.product values
  | divide =>
    match values with
    | a :: b :: _ =>
      if b.isZero then .error (.error (.divisionByZero stepId)) else Halt.guarded op.tag (a.div? b)
    | _ => missing
  | conditional =>
    match values with
    | c :: a :: b :: _ => .ok (if c.isZero then b else a)
    | _ => missing
  | min => .ok (Decimal.minimum values)
  | max => .ok (Decimal.maximum values)
  | equal => compare values Decimal.same
  | notEqual => compare values fun a b => !a.same b
  | greaterThan => compare values fun a b => b.lt a
  | lessThan => compare values Decimal.lt
  | greaterThanOrEqual => compare values fun a b => b.le a
  | lessThanOrEqual => compare values Decimal.le
  | and => .ok (truth (values.all (!·.isZero)))
  | or => .ok (truth (values.any (!·.isZero)))
  | not => single values fun a => .ok (truth a.isZero)
  | percent => single values fun a => Halt.unguarded .division (a.div? .hundred)
  | round => single values fun a => .ok a.roundUnits
  | abs => single values fun a => .ok a.abs
  | unsupported tag => .error (.error (.unsupportedOperator tag))
where
  compare (values : List Decimal) (test : Decimal → Decimal → Bool) : Except Halt Decimal :=
    match values with
    | a :: b :: _ => .ok (truth (test a b))
    | _ => missing
  single (values : List Decimal) (f : Decimal → Except Halt Decimal) : Except Halt Decimal :=
    match values with
    | a :: _ => f a
    | _ => missing

end Payroll.Operator
