import Payroll.Formula.Evaluation
import Payroll.Formula.Json
import Payroll.Pay.Salaried

/-!
# Formula plans

The answer of the formula is the total. Base salary, commission and target bonus are read from the
names that formulas use for them.
-/

set_option autoImplicit false

namespace Payroll.Pay

open Halt

def baseName : String := "baseSalary"
def commissionName : String := "commission"
def targetBonusName : String := "targetBonus"

def lineUnlessZero (kind : Payslip.LineKind) (amount : Decimal) (description : String) :
    List Payslip.Line :=
  if amount.isZero then [] else [{ kind, amount, description }]

def evaluationEarnings (f : Formula) (e : Evaluation) : Earnings :=
  let base := e.valueOrZero baseName
  let commission := e.valueOrZero commissionName
  let targetBonus := e.valueOrZero targetBonusName
  { base, commission, targetBonus
    lines := lineUnlessZero .baseSalary base "Base salary"
      ++ lineUnlessZero .commission commission "Commission"
      ++ lineUnlessZero .targetBonus targetBonus "Target bonus"
      ++ [{ kind := .formulaOutput, amount := e.result
            description := "Formula output '" ++ f.output ++ "'" }] }

/-- A formula that fails has a failed payslip with its trace. -/
def formulaic (settings : FormulaSettings) (r : Request) : Except Halt Payslip := do
  let f ← ofError (Formula.ofPlan r.plan)
  let bindings ← ofError (f.requestBindings r)
  let evaluation ← (f.evaluate settings bindings).mapError .abort
  match evaluation.error with
  | some cause => return (Payslip.failure r cause.message).withTrace evaluation.trace
  | none =>
    let payslip ← ofError (Payslip.assemble r (evaluationEarnings f evaluation))
    return (payslip.withTotal evaluation.result).withTrace evaluation.trace

end Payroll.Pay
