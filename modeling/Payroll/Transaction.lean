import Payroll.Calendar.Period
import Payroll.Decimal.Text

/-!
# Transactions

Bonuses, deductions and loan repayments of employees. Amounts are positive as a rule; the list that
a transaction stands in says whether it is paid or withheld.
-/

set_option autoImplicit false

namespace Payroll

structure Transaction where
  id : String
  employeeId : String
  amount : Decimal
  date : Date
  description : String := ""
deriving DecidableEq

namespace Transaction

/-- The text on the payslip: the description, or the identifier where there is none. -/
def caption (t : Transaction) : String := if t.description.isEmpty then t.id else t.description

def total (ts : List Transaction) : Except PayError Decimal :=
  ts.foldlM (fun sum t => PayError.guarded "transaction total" (sum.add? t.amount)) .zero

def select (ts : List Transaction) (employeeId : String) (period : Period) : List Transaction :=
  ts.filter fun t => t.employeeId = employeeId && period.contains t.date

def toJson (t : Transaction) : Json :=
  .object
    [("id", .string t.id), ("employeeId", .string t.employeeId), ("amount", t.amount.toJson),
      ("date", t.date.toJson), ("description", .string t.description)]

def ofJson? (j : Json) : Option Transaction := do
  let row ← j.row? 5
  some { id := ← row.required? 0 ["id"] Json.string?
         employeeId := ← row.required? 1 ["employeeId"] Json.string?
         amount := ← row.required? 2 ["amount"] Decimal.ofJson?
         date := ← row.required? 3 ["date"] Date.ofJson?
         description := ← row.default? 4 ["description"] "" Json.string? }

end Transaction

end Payroll
