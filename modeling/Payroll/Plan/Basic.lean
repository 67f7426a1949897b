import Payroll.Json.Record

/-!
# Compensation plans

A plan names the way its employees are paid by a tag. Its configuration stays as it is written; each
way of paying reads the form that it needs.
-/

set_option autoImplicit false

namespace Payroll

inductive PlanKind where
  | fixed
  | commission
  | tieredCommission
  | formulaBased
deriving DecidableEq

namespace PlanKind

def tag : PlanKind → String
  | fixed => "fixed"
  | commission => "commission"
  | tieredCommission => "tiered_commission"
  | formulaBased => "formula_based"

def all : List PlanKind := [fixed, commission, tieredCommission, formulaBased]

def ofTag? (tag : String) : Option PlanKind := all.find? (·.tag = tag)

def toJson (kind : PlanKind) : Json := .string kind.tag

def ofJson? (j : Json) : Option PlanKind := j.word?.bind ofTag?

end PlanKind

structure Plan where
  id : String
  /-- The tag that says how the plan pays. -/
  type : String
  name : String
  config : Json := .null

namespace Plan

def toJson (p : Plan) : Json :=
  .object
    [("id", .string p.id), ("type", .string p.type), ("name", .string p.name), ("config", p.config)]

def ofJson? (j : Json) : Option Plan := do
  let row ← j.row? 4
  some { id := ← row.required? 0 ["id"] Json.string?
         type := ← row.required? 1 ["type"] Json.string?
         name := ← row.required? 2 ["name"] Json.string?
         config := ← row.default? 3 ["config"] .null some }

end Plan

end Payroll
