import Payroll.Formula.Trace
import Payroll.Request

/-!
# Payslips

The answer to a request: the amounts, a line for each of them, and the total. A request that fails
has a payslip too, with zero amounts and the reason.
-/

set_option autoImplicit false

namespace Payroll

namespace Payslip

inductive LineKind where
  | baseSalary
  | commission
  /-- One bracket's share of a commission. -/
  | commissionTier
  | targetBonus
  | bonus
  | deduction
  | loan
  | formulaOutput
deriving DecidableEq

namespace LineKind

def all : List LineKind :=
  [baseSalary, commission, commissionTier, targetBonus, bonus, deduction, loan, formulaOutput]

def tag : LineKind → String
  | baseSalary => "base_salary"
  | commission => "commission"
  | commissionTier => "commission_tier"
  | targetBonus => "target_bonus"
  | bonus => "bonus"
  | deduction => "deduction"
  | loan => "loan"
  | formulaOutput => "formula_output"

def ofJson? (j : Json) : Option LineKind := j.word?.bind fun word => all.find? (·.tag = word)

end LineKind

/-- Deductions and loans have positive amounts; the kind says that they are withheld. -/
structure Line where
  kind : LineKind
  amount : Decimal
  description : String
deriving DecidableEq

namespace Line

def toJson (l : Line) : Json :=
  .object
    [("type", .string l.kind.tag), ("amount", l.amount.toJson),
      ("description", .string l.description)]

def ofJson? (j : Json) : Option Line := do
  let row ← j.row? 3
  some { kind := ← row.required? 0 ["type"] LineKind.ofJson?
         amount := ← row.required? 1 ["amount"] Decimal.ofJson?
         description := ← row.required? 2 ["description"] Json.string? }

def ofTransaction (kind : LineKind) (t : Transaction) : Line :=
  { kind, amount := t.amount, description := t.caption }

end Line

end Payslip

structure Earnings where
  base : Decimal := .zero
  commission : Decimal := .zero
  targetBonus : Decimal := .zero
  lines : List Payslip.Line := []

structure Payslip where
  employeeId : String
  period : String
  planType : String := ""
  planName : String := ""
  base : Decimal := .zero
  commission : Decimal := .zero
  targetBonus : Decimal := .zero
  bonusTotal : Decimal := .zero
  deductionsTotal : Decimal := .zero
  loansTotal : Decimal := .zero
  total : Decimal := .zero
  lines : List Payslip.Line := []
  succeeded : Bool := false
  error : Option String := none
  trace : Option Trace := none

namespace Payslip

/-- Base, commission, target bonus and bonuses, less deductions and loans, in that order. -/
def net? (e : Earnings) (bonuses deductions loans : Decimal) : Option Decimal := do
  let sum ← e.base.add? e.commission
  let sum ← sum.add? e.targetBonus
  let sum ← sum.add? bonuses
  let sum ← sum.sub? deductions
  sum.sub? loans

def assemble (r : Request) (e : Earnings) : Except PayError Payslip := do
  let bonuses ← r.bonusTotal
  let deductions ← r.deductionsTotal
  let loans ← r.loansTotal
  match net? e bonuses deductions loans with
  | none => .error (.overflow "net total")
  | some total =>
    .ok
      { employeeId := r.employee.id, period := r.period
        planType := r.plan.type, planName := r.plan.name
        base := e.base, commission := e.commission, targetBonus := e.targetBonus
        bonusTotal := bonuses, deductionsTotal := deductions, loansTotal := loans, total
        lines := e.lines ++ r.bonuses.map (Line.ofTransaction .bonus)
          ++ r.deductions.map (Line.ofTransaction .deduction)
          ++ r.loans.map (Line.ofTransaction .loan)
        succeeded := true }

def failure (r : Request) (message : String) : Payslip :=
  { employeeId := r.employee.id, period := r.period
    planType := r.plan.type, planName := r.plan.name, error := some message }

def noPlan (employeeId period : String) : Payslip :=
  { employeeId, period, error := some "No compensation plan assigned" }

def withTotal (p : Payslip) (total : Decimal) : Payslip := { p with total }

def withTrace (p : Payslip) (trace : Trace) : Payslip := { p with trace := some trace }

def toJson (p : Payslip) : Json :=
  .object
    ([("employeeId", .string p.employeeId), ("period", .string p.period),
      ("planType", .string p.planType), ("planName", .string p.planName),
      ("baseSalary", p.base.toJson), ("commission", p.commission.toJson),
      ("targetBonus", p.targetBonus.toJson), ("bonusTotal", p.bonusTotal.toJson),
      ("deductionsTotal", p.deductionsTotal.toJson), ("loansTotal", p.loansTotal.toJson),
      ("total", p.total.toJson), ("details", .list Line.toJson p.lines),
      ("success", .bool p.succeeded)]
      ++ (p.error.map fun text => ("error", Json.string text)).toList
      ++ (p.trace.map fun trace => ("trace", trace.toJson)).toList)

def ofJson? (j : Json) : Option Payslip := do
  let row ← j.row? 15
  some { employeeId := ← row.required? 0 ["employeeId"] Json.string?
         period := ← row.required? 1 ["period"] Json.string?
         planType := ← row.required? 2 ["planType"] Json.string?
         planName := ← row.required? 3 ["planName"] Json.string?
         base := ← row.required? 4 ["baseSalary"] Decimal.ofJson?
         commission := ← row.required? 5 ["commission"] Decimal.ofJson?
         targetBonus := ← row.required? 6 ["targetBonus"] Decimal.ofJson?
         bonusTotal := ← row.required? 7 ["bonusTotal"] Decimal.ofJson?
         deductionsTotal := ← row.required? 8 ["deductionsTotal"] Decimal.ofJson?
         loansTotal := ← row.required? 9 ["loansTotal"] Decimal.ofJson?
         total := ← row.required? 10 ["total"] Decimal.ofJson?
         lines := ← row.required? 11 ["details"] (Json.list? Line.ofJson?)
         succeeded := ← row.required? 12 ["success"] Json.bool?
         error := ← row.optional? 13 ["error"] Json.string?
         trace := ← row.optional? 14 ["trace"] Trace.ofJson? }

end Payslip

end Payroll
