import Payroll.Pay.Bracketed
import Payroll.Pay.Formulaic
import Payroll.ResultCache

/-!
# Calculators

A calculator pays one kind of plan. It may keep successful payslips in a store and answer from it; a
formula depends on the employee's properties, so its payslips are not kept.
-/

set_option autoImplicit false

namespace Payroll

structure Calculator where
  kind : PlanKind
  formula : FormulaSettings := {}
  cache : Option ResultCache := none

namespace Calculator

def make (kind : PlanKind) (cache : Option CacheSettings) (formula : FormulaSettings) :
    Except Abort Calculator :=
  match cache with
  | some settings =>
    if settings.enabled && kind ≠ .formulaBased then do
      return { kind, formula, cache := some (← ResultCache.ofSettings settings) }
    else .ok { kind, formula }
  | none => .ok { kind, formula }

def compute (c : Calculator) (r : Request) : Except Halt Payslip :=
  match c.kind with
  | .fixed => Pay.salaried .fixed r
  | .commission => Pay.salaried .sales r
  | .tieredCommission => Pay.bracketed r
  | .formulaBased => Pay.formulaic c.formula r

/-- Bracket plans are stored by employee and period alone. -/
def key (c : Calculator) (r : Request) : ResultCache.Key :=
  match c.kind with
  | .tieredCommission => .narrow r
  | _ => .ofRequest r

def answer (c : Calculator) (r : Request) : Except Abort Payslip :=
  match c.compute r with
  | .ok payslip => .ok payslip
  | .error (.error cause) => .ok (.failure r cause.message)
  | .error (.abort cause) => .error cause

/-- The stored payslip, or a new one, which is stored if it succeeded. An abort leaves only the
count of the lookup behind. -/
def calculate (c : Calculator) (r : Request) : Except Abort Payslip × Calculator :=
  match c.cache with
  | none => (c.answer r, c)
  | some cache =>
    match cache.get (c.key r) with
    | (some payslip, cache) => (.ok payslip, { c with cache := some cache })
    | (none, cache) =>
      match c.answer r with
      | .ok payslip => (.ok payslip, { c with cache := some (cache.insert (c.key r) payslip) })
      | .error cause => (.error cause, { c with cache := some cache })

end Calculator

end Payroll
