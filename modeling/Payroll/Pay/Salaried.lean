import Payroll.Payslip
import Payroll.Plan.Salary

/-!
# Fixed and commission plans

Both pay a base salary, a commission on the sales above a threshold and the bonus of the highest
tier that sales reach. They differ in how the commission is rounded, in whether sales at the
threshold count as below it, and in their wording.
-/

set_option autoImplicit false

namespace Payroll

namespace Pay

open Halt

/-- A rate above one is a percentage. -/
def fraction (rate : Decimal) : Except Halt Decimal :=
  if rate.le .one then .ok rate else unguarded .division (rate.div? .hundred)

def percentText (rate : Decimal) : Except Halt String := do
  let percentage ← unguarded .multiplication ((← fraction rate).mul? .hundred)
  return percentage.normalize.toText

/-- The tier with the highest threshold that sales reach; of equal thresholds the last. -/
def reachedTier? (tiers : List BonusTier) (sales : Decimal) : Option BonusTier :=
  (tiers.filter (·.threshold.le sales)).foldl
    (fun best tier =>
      match best with
      | none => some tier
      | some b => if b.threshold.le tier.threshold then some tier else some b)
    none

def baseLine (amount : Decimal) : Payslip.Line :=
  { kind := .baseSalary, amount, description := "Base salary" }

def targetLine (threshold amount : Decimal) : Payslip.Line :=
  { kind := .targetBonus, amount
    description := "Target bonus for sales at or above " ++ threshold.toText }

def tierBonus (tiers : List BonusTier) (sales : Decimal) : Decimal × List Payslip.Line :=
  match reachedTier? tiers sales with
  | some tier =>
    if tier.bonus.isZero then (.zero, []) else (tier.bonus, [targetLine tier.threshold tier.bonus])
  | none => (.zero, [])

structure CommissionRule where
  /-- Whether these sales earn nothing by the threshold. -/
  below : (sales threshold : Decimal) → Bool
  round : Decimal → Decimal
  context : String
  description : (percent : String) → (terms : CommissionTerms) → (sales : Decimal) →
    Except Halt String

/-- Above the threshold, to cents. -/
def CommissionRule.fixed : CommissionRule where
  below sales threshold := sales.le threshold
  round := Decimal.roundCents
  context := "fixed plan commission"
  description percent terms _ :=
    .ok ("Commission at " ++ percent ++ "% on sales above " ++ terms.threshold.toText)

/-- From the threshold on, to whole units. -/
def CommissionRule.sales : CommissionRule where
  below sales threshold := sales.lt threshold
  round := Decimal.roundUnits
  context := "commission"
  description percent terms sales := do
    let above ← unguarded .subtraction (sales.sub? terms.threshold)
    return "Commission at " ++ percent ++ "% on " ++ above.toText ++ " above threshold "
      ++ terms.threshold.toText

def CommissionRule.amount (rule : CommissionRule) (terms : CommissionTerms) (sales : Decimal) :
    Except Halt Decimal := do
  let rate ← fraction terms.rate
  if rule.below sales terms.threshold || rate.le .zero then return .zero
  let above ← unguarded .subtraction (sales.sub? terms.threshold)
  let commission ← guarded rule.context (above.mul? rate)
  return rule.round commission

def CommissionRule.earned (rule : CommissionRule) (terms : CommissionTerms) (sales : Decimal) :
    Except Halt (Decimal × List Payslip.Line) := do
  let amount ← rule.amount terms sales
  if amount.isZero then return (amount, [])
  let description ← rule.description (← percentText terms.rate) terms sales
  return (amount, [{ kind := .commission, amount, description }])

def CommissionRule.earnings (rule : CommissionRule) (terms : SalaryTerms) (sales : Decimal) :
    Except Halt Earnings := do
  let (commission, commissionLines) ←
    match terms.commission with
    | some commission => rule.earned commission sales
    | none => pure (.zero, [])
  let (targetBonus, bonusLines) := tierBonus terms.tiers sales
  return { base := terms.base, commission, targetBonus
           lines := baseLine terms.base :: commissionLines ++ bonusLines }

def salaried (rule : CommissionRule) (r : Request) : Except Halt Payslip := do
  let terms ← ofError (SalaryTerms.ofPlan r.plan)
  let earnings ← rule.earnings terms r.sales
  ofError (Payslip.assemble r earnings)

end Pay

end Payroll
