import Payroll.Pay.Salaried
import Payroll.Plan.Brackets

/-!
# Bracket plans

Sales are allocated to brackets from zero upward. Sales above the last threshold are allocated once
more, at the last bracket's percentage.
-/

set_option autoImplicit false

namespace Payroll

structure Allocation where
  name : String
  allocated : Decimal
  percentage : Decimal
  contribution : Decimal
deriving DecidableEq

namespace Allocation

open Halt

def make (name : String) (allocated percentage : Decimal) : Except Halt Allocation := do
  let product ← guarded "tiered commission" (allocated.mul? percentage)
  let contribution ← unguarded .division (product.div? .hundred)
  return { name, allocated, percentage, contribution }

def line (a : Allocation) : Payslip.Line :=
  { kind := .commissionTier, amount := a.contribution
    description := a.name ++ ": " ++ a.allocated.toText ++ " at "
      ++ a.percentage.normalize.toText ++ "%" }

/-- Allocates sales above `lower` to brackets from number `place` on. The answer has the
allocations and the lower end of what is left. -/
def within (sales : Decimal) (lower : Decimal) (place : Nat) :
    List Bracket → Except Halt (List Allocation × Decimal)
  | [] => return ([], lower)
  | bracket :: rest => do
    if sales.le lower then return ([], lower)
    let slice ← unguarded .subtraction ((Decimal.min sales bracket.threshold).sub? lower)
    let here ←
      if slice.le .zero then pure []
      else do
        let name := bracket.name.getD ("Bracket " ++ toString place)
        pure [← make name slice bracket.percentage]
    let (others, lower) ← within sales (Decimal.max lower bracket.threshold) (place + 1) rest
    return (here ++ others, lower)

def above (sales lower : Decimal) (last : Bracket) : Except Halt (List Allocation) := do
  if sales.le lower then return []
  let rest ← unguarded .subtraction (sales.sub? lower)
  let name :=
    match last.name with
    | some name => name ++ " (above " ++ lower.toText ++ ")"
    | none => "Above " ++ lower.toText
  return [← make name rest last.percentage]

def allocate (brackets : List Bracket) (sales : Decimal) : Except Halt (List Allocation) := do
  let (inside, lower) ← within sales .zero 1 brackets
  match brackets.getLast? with
  | some last => return inside ++ (← above sales lower last)
  | none => return inside

def sum (allocations : List Allocation) : Except Halt Decimal :=
  allocations.foldlM (fun total a => unguarded .addition (total.add? a.contribution)) .zero

end Allocation

namespace Pay

open Halt

/-- A target bonus that sales reach has a line even if it is zero. -/
def targetBonus (bonus : Option TargetBonus) (sales : Decimal) : Decimal × List Payslip.Line :=
  match bonus with
  | some bonus =>
    if bonus.threshold.le sales then (bonus.amount, [targetLine bonus.threshold bonus.amount])
    else (.zero, [])
  | none => (.zero, [])

def bracketEarnings (terms : BracketTerms) (sales : Decimal) : Except Halt Earnings := do
  let allocations ←
    if sales.lt terms.threshold then pure [] else Allocation.allocate terms.brackets sales
  let commission := (← Allocation.sum allocations).roundCents
  let (targetBonus, bonusLines) := targetBonus terms.targetBonus sales
  return { base := terms.base, commission, targetBonus
           lines := baseLine terms.base :: allocations.map Allocation.line ++ bonusLines }

def bracketed (r : Request) : Except Halt Payslip := do
  let terms ← ofError (BracketTerms.ofPlan r.plan)
  let earnings ← bracketEarnings terms r.sales
  ofError (Payslip.assemble r earnings)

end Pay

end Payroll
