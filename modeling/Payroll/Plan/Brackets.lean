import Payroll.Decimal.Text
import Payroll.Error
import Payroll.Plan.Basic

/-!
# Bracket plans

A commission with brackets: each bracket's percentage applies to the sales between the bracket below
and its own threshold.
-/

set_option autoImplicit false

namespace Payroll

structure Bracket where
  threshold : Decimal
  percentage : Decimal
  name : Option String := none
deriving DecidableEq

namespace Bracket

def ofJson? (j : Json) : Option Bracket := do
  let row ← j.row? 3
  some { threshold := ← row.required? 0 ["threshold"] Decimal.ofJson?
         percentage := ← row.required? 1 ["percentage", "pct", "rate"] Decimal.ofJson?
         name := ← row.optional? 2 ["name"] Json.string? }

def toJson (b : Bracket) : Json :=
  .object
    [("threshold", b.threshold.toJson), ("percentage", b.percentage.toJson),
      ("name", .optional .string b.name)]

def sorted (brackets : List Bracket) : List Bracket :=
  brackets.mergeSort fun a b => a.threshold.le b.threshold

end Bracket

/-- An amount that sales at or above the threshold earn. -/
structure TargetBonus where
  threshold : Decimal
  amount : Decimal
deriving DecidableEq

namespace TargetBonus

def ofJson? (j : Json) : Option TargetBonus := do
  let row ← j.row? 2
  some { threshold := ← row.required? 0 ["threshold"] Decimal.ofJson?
         amount := ← row.required? 1 ["amount", "bonus"] Decimal.ofJson? }

def toJson (b : TargetBonus) : Json :=
  .object [("threshold", b.threshold.toJson), ("amount", b.amount.toJson)]

end TargetBonus

structure BracketTerms where
  base : Decimal := .zero
  /-- Sales below this earn no commission. -/
  threshold : Decimal := .zero
  brackets : List Bracket
  targetBonus : Option TargetBonus := none
deriving DecidableEq

namespace BracketTerms

def ofJson? (j : Json) : Option BracketTerms := do
  let row ← j.row? 4
  some { base := ← row.default? 0 ["base_salary", "baseSalary"] .zero Decimal.ofJson?
         threshold := ← row.default? 1 ["commission_threshold", "commissionThreshold"] .zero
           Decimal.ofJson?
         brackets := ← row.required? 2 ["brackets", "tiers"] (Json.list? Bracket.ofJson?)
         targetBonus := ← row.optional? 3 ["target_bonus", "targetBonus"] TargetBonus.ofJson? }

def toJson (t : BracketTerms) : Json :=
  .object
    [("base_salary", t.base.toJson), ("commission_threshold", t.threshold.toJson),
      ("brackets", .list Bracket.toJson t.brackets),
      ("target_bonus", .optional TargetBonus.toJson t.targetBonus)]

/-- There is at least one bracket, no percentage is negative, and the brackets ascend. -/
def ofConfig (config : Json) : Except ConfigFault BracketTerms :=
  match ofJson? config with
  | none => .error .malformed
  | some terms =>
    if terms.brackets.isEmpty then .error .noBrackets
    else
      match terms.brackets.find? fun b => b.percentage.lt .zero with
      | some bracket => .error (.negativePercentage bracket.threshold.toText)
      | none => .ok { terms with brackets := Bracket.sorted terms.brackets }

def ofPlan (plan : Plan) : Except PayError BracketTerms :=
  (ofConfig plan.config).mapError (.configuration plan.id)

end BracketTerms

end Payroll
