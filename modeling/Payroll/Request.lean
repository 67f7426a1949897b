import Payroll.Employee
import Payroll.Plan.Basic
import Payroll.Transaction

/-!
# Requests

One employee, the plan that pays them, and their sales and transactions of a period.
-/

set_option autoImplicit false

namespace Payroll

structure Request where
  employee : Employee
  plan : Plan
  sales : Decimal := .zero
  bonuses : List Transaction := []
  deductions : List Transaction := []
  loans : List Transaction := []
  period : String

namespace Request

def bonusTotal (r : Request) : Except PayError Decimal := Transaction.total r.bonuses

def deductionsTotal (r : Request) : Except PayError Decimal := Transaction.total r.deductions

def loansTotal (r : Request) : Except PayError Decimal := Transaction.total r.loans

def toJson (r : Request) : Json :=
  .object
    [("employee", r.employee.toJson), ("plan", r.plan.toJson), ("salesAmount", r.sales.toJson),
      ("bonuses", .list Transaction.toJson r.bonuses),
      ("deductions", .list Transaction.toJson r.deductions),
      ("loans", .list Transaction.toJson r.loans), ("period", .string r.period)]

def ofJson? (j : Json) : Option Request := do
  let row ← j.row? 7
  let transactions := Json.list? Transaction.ofJson?
  some { employee := ← row.required? 0 ["employee"] Employee.ofJson?
         plan := ← row.required? 1 ["plan"] Plan.ofJson?
         sales := ← row.default? 2 ["salesAmount"] .zero Decimal.ofJson?
         bonuses := ← row.default? 3 ["bonuses"] [] transactions
         deductions := ← row.default? 4 ["deductions"] [] transactions
         loans := ← row.default? 5 ["loans"] [] transactions
         period := ← row.required? 6 ["period"] Json.string? }

end Request

end Payroll
