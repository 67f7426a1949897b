import Payroll.Decimal.Text
import Payroll.Error
import Payroll.Plan.Basic

/-!
# Salary terms

What fixed and commission plans agree on: a base salary, a table of bonuses for reaching sales, and
perhaps a commission. A configuration gives them either as a list of blocks or as fields of one
object.
-/

set_option autoImplicit false

namespace Payroll

structure BonusTier where
  threshold : Decimal
  bonus : Decimal
deriving DecidableEq

namespace BonusTier

def ofRow? (row : Json.Row) : Option BonusTier := do
  some { threshold := ← row.required? 0 ["threshold"] Decimal.ofJson?
         bonus := ← row.required? 1 ["bonus", "amount"] Decimal.ofJson? }

def ofJson? (j : Json) : Option BonusTier := (j.row? 2).bind ofRow?

def toJson (t : BonusTier) : Json :=
  .object [("threshold", t.threshold.toJson), ("bonus", t.bonus.toJson)]

/-- In ascending order of thresholds; equal ones keep their order. -/
def sorted (tiers : List BonusTier) : List BonusTier :=
  tiers.mergeSort fun a b => a.threshold.le b.threshold

end BonusTier

structure CommissionTerms where
  /-- A fraction, or above one a percentage. -/
  rate : Decimal
  threshold : Decimal := .zero
deriving DecidableEq

namespace CommissionTerms

def ofRow? (row : Json.Row) : Option CommissionTerms := do
  some { rate := ← row.required? 0 ["rate"] Decimal.ofJson?
         threshold := ← row.default? 1 ["threshold"] .zero Decimal.ofJson? }

def ofJson? (j : Json) : Option CommissionTerms := (j.row? 2).bind ofRow?

def toJson (t : CommissionTerms) : Json :=
  .object [("rate", t.rate.toJson), ("threshold", t.threshold.toJson)]

end CommissionTerms

/-- One block of a configuration. Blocks of other types have no effect. -/
inductive Block where
  | salary (amount : Decimal) (tiers : List BonusTier)
  | commission (terms : CommissionTerms)
  | other

namespace Block

def ofJson? (j : Json) : Option Block := do
  let (tag, row) ← j.tagged?
  if tag = "basic_salary" then
    if row.fits 2 then
      some (.salary
        (← row.required? 0 ["amount", "base_salary", "baseSalary"] Decimal.ofJson?)
        (← row.default? 1 ["tiered_bonus", "tieredBonus", "bonus_tiers"] []
          (Json.list? BonusTier.ofJson?)))
    else none
  else if tag = "commission" then
    if row.fits 2 then some (.commission (← CommissionTerms.ofRow? row)) else none
  else if row.fits 0 then some .other
  else none

def firstSalary? : List Block → Option (Decimal × List BonusTier)
  | [] => none
  | .salary amount tiers :: _ => some (amount, tiers)
  | _ :: rest => firstSalary? rest

def firstCommission? : List Block → Option CommissionTerms
  | [] => none
  | .commission terms :: _ => some terms
  | _ :: rest => firstCommission? rest

end Block

structure SalaryTerms where
  base : Decimal
  /-- In ascending order of thresholds. -/
  tiers : List BonusTier := []
  commission : Option CommissionTerms := none
deriving DecidableEq

namespace SalaryTerms

def ofBlocks (blocks : List Block) : Except ConfigFault SalaryTerms :=
  match Block.firstSalary? blocks with
  | some (base, tiers) =>
    .ok { base, tiers := BonusTier.sorted tiers, commission := Block.firstCommission? blocks }
  | none => .error .noSalaryBlock

structure Fields where
  base : Option Decimal
  rate : Option Decimal
  threshold : Option Decimal
  tiers : List BonusTier

def Fields.ofRow? (row : Json.Row) : Option Fields := do
  some { base := ← row.optional? 0 ["base_salary", "baseSalary", "basic_salary"] Decimal.ofJson?
         rate := ← row.optional? 1 ["commission_rate", "commissionRate"] Decimal.ofJson?
         threshold := ← row.optional? 2 ["commission_threshold", "commissionThreshold"]
           Decimal.ofJson?
         tiers := ← row.default? 3 ["bonus_tiers", "bonusTiers", "tiered_bonus"] []
           (Json.list? BonusTier.ofJson?) }

def ofFields (fields : Fields) : Except ConfigFault SalaryTerms :=
  match fields.base with
  | some base =>
    .ok
      { base, tiers := BonusTier.sorted fields.tiers
        commission := fields.rate.map fun rate =>
          { rate, threshold := fields.threshold.getD .zero } }
  | none => .error .noBaseSalary

/-- A configuration with a field `blocks` is a list of blocks; any other is a record of fields. -/
def ofConfig : Json → Except ConfigFault SalaryTerms
  | .object fields =>
    let row := Json.Row.named fields
    if (fields.lookup "blocks").isSome then
      match row.required? 0 ["blocks"] (Json.list? Block.ofJson?) with
      | some blocks => ofBlocks blocks
      | none => .error .malformed
    else
      match Fields.ofRow? row with
      | some fields => ofFields fields
      | none => .error .malformed
  | _ => .error .notObject

def ofPlan (plan : Plan) : Except PayError SalaryTerms :=
  (ofConfig plan.config).mapError (.configuration plan.id)

def toJson (t : SalaryTerms) : Json :=
  .object
    [("base_salary", t.base.toJson), ("bonus_tiers", .list BonusTier.toJson t.tiers),
      ("commission", .optional CommissionTerms.toJson t.commission)]

end SalaryTerms

end Payroll
