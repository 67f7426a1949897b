import Payroll.Calculator
import Payroll.Text.Quoted

/-!
# Registries

A registry finds the calculator for the tag of a plan. Several tags may share one calculator, and
then they share its store.
-/

set_option autoImplicit false

namespace Payroll

structure Registry where
  calculators : List Calculator := []
  /-- Each tag with the place of its calculator. -/
  tags : List (String × Nat) := []

namespace Registry

def point (tags : List (String × Nat)) (tag : String) (place : Nat) : List (String × Nat) :=
  (tag, place) :: tags.filter (·.1 ≠ tag)

def registerAll (g : Registry) (tags : List String) (c : Calculator) : Registry :=
  { calculators := g.calculators ++ [c]
    tags := tags.foldl (fun known tag => point known tag g.calculators.length) g.tags }

def register (g : Registry) (tag : String) (c : Calculator) : Registry := g.registerAll [tag] c

def addAlias (g : Registry) (tag target : String) : Except PayError Registry :=
  match g.tags.lookup target with
  | some place => .ok { g with tags := point g.tags tag place }
  | none => .error (.unknownPlanType target)

def fixedTags : List String := ["fixed", "fixed_salary", "salary"]

def commissionTags : List String :=
  ["commission", "sales_commission", "commission_based", "basic_commission"]

def tieredTags : List String := ["tiered_commission", "tiered", "progressive_commission"]

def formulaTags : List String := ["formula", "formula_based", "custom_formula"]

def standard (settings : Settings) : Except Abort Registry := do
  let make (kind : PlanKind) := Calculator.make kind (some settings.cache) settings.formula
  let empty : Registry := {}
  return (((empty.registerAll fixedTags (← make .fixed)).registerAll commissionTags
    (← make .commission)).registerAll tieredTags (← make .tieredCommission)).registerAll formulaTags
    (← make .formulaBased)

def place? (g : Registry) (tag : String) : Option Nat := g.tags.lookup tag

def calculator (g : Registry) (tag : String) : Except PayError Calculator :=
  match (g.place? tag).bind (g.calculators[·]?) with
  | some c => .ok c
  | none => .error (.unknownPlanType tag)

def contains (g : Registry) (tag : String) : Bool := (g.place? tag).isSome

def tagList (g : Registry) : List String :=
  (g.tags.map Prod.fst).mergeSort fun a b => decide (a ≤ b)

def shared (g : Registry) (a b : String) : Except PayError Bool := do
  let _ ← g.calculator a
  let _ ← g.calculator b
  return g.place? a = g.place? b

def describe (g : Registry) : String :=
  "CalculatorRegistry \x7b tags: [" ++ ", ".intercalate (g.tagList.map Text.quoted) ++ "] \x7d"

def update (g : Registry) (tag : String) (f : Calculator → Calculator) : Registry :=
  match g.place? tag with
  | some place => { g with calculators := g.calculators.modify place f }
  | none => g

/-- The payslip of a request by its plan's calculator. A tag without calculator fails. -/
def calculate (g : Registry) (r : Request) : Except Abort Payslip × Registry :=
  match g.calculator r.plan.type with
  | .error cause => (.ok (.failure r cause.message), g)
  | .ok c =>
    let (outcome, c') := c.calculate r
    (outcome, g.update r.plan.type fun _ => c')

/-- The payslips of requests in order. A failed one does not stop the others; an abort does, and
what was stored before it stays. -/
def calculateAll (g : Registry) : List Request → Except Abort (List Payslip) × Registry
  | [] => (.ok [], g)
  | r :: rest =>
    match g.calculate r with
    | (.error cause, g) => (.error cause, g)
    | (.ok payslip, g) =>
      match calculateAll g rest with
      | (.ok payslips, g) => (.ok (payslip :: payslips), g)
      | (.error cause, g) => (.error cause, g)

def compute (g : Registry) (tag : String) (r : Request) : Except Halt Payslip := do
  let c ← (g.calculator tag).mapError .error
  c.compute r

def key (g : Registry) (tag : String) (r : Request) : Except PayError ResultCache.Key := do
  let c ← g.calculator tag
  return c.key r

def stats (g : Registry) (tag : String) : Except PayError (Option ResultCache.Stats) := do
  let c ← g.calculator tag
  return c.cache.map (·.stats)

def clear (g : Registry) (tag : String) : Registry :=
  g.update tag fun c => { c with cache := c.cache.map (·.clear) }

def invalidate (g : Registry) (tag : String) (r : Request) : Registry :=
  g.update tag fun c => { c with cache := c.cache.map (·.invalidate (c.key r)) }

end Registry

end Payroll
