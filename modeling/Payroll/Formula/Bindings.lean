import Payroll.Decimal.Text
import Payroll.Error
import Payroll.Formula.Basic
import Payroll.Request
import Payroll.Text.Basic

/-!
# Bindings

The names that a formula may refer to, and their values. A name that is not bound but reads as an
amount stands for that amount.
-/

set_option autoImplicit false

namespace Payroll

/-- Each name occurs once. -/
abbrev Bindings := List (String × Decimal)

namespace Bindings

def get? (b : Bindings) (name : String) : Option Decimal := b.lookup name

def bind (b : Bindings) (name : String) (value : Decimal) : Bindings :=
  match b with
  | [] => [(name, value)]
  | (n, v) :: rest => if n = name then (n, value) :: rest else (n, v) :: bind rest name value

theorem get?_bind (b : Bindings) (name other : String) (value : Decimal) :
    (b.bind name value).get? other = if other = name then some value else b.get? other := by
  induction b with
  | nil =>
    by_cases h : other = name
    · simp [bind, get?, h]
    · simp [bind, get?, List.lookup_cons, beq_false_of_ne h, h]
  | cons head rest ih =>
    obtain ⟨n, v⟩ := head
    simp only [get?] at ih
    by_cases hn : n = name
    · subst hn
      by_cases h : other = n
      · simp [bind, get?, h]
      · simp [bind, get?, List.lookup_cons, beq_false_of_ne h, h]
    · by_cases h : other = n
      · subst h
        simp [bind, get?, hn]
      · simp [bind, get?, List.lookup_cons, hn, beq_false_of_ne h, ih]

def bindAll (b : Bindings) (more : List (String × Decimal)) : Bindings :=
  more.foldl (fun b (name, value) => b.bind name value) b

def valueOrZero (b : Bindings) (name : String) : Decimal := (b.get? name).getD .zero

/-- The value of a reference: what the name is bound to, or the amount that it reads as. -/
def resolve? (b : Bindings) (name : String) : Option Decimal :=
  match b.get? name with
  | some value => some value
  | none => Decimal.ofAmount? (Text.trim name)

def toJson (b : Bindings) : Json := .object (b.map fun (name, value) => (name, value.toJson))

def salesAmount : String := "salesAmount"
def bonusTotal : String := "bonusTotal"
def deductionsTotal : String := "deductionsTotal"
def loansTotal : String := "loansTotal"

def seeds : List String := [salesAmount, bonusTotal, deductionsTotal, loansTotal]

def seeded (sales bonuses deductions loans : Decimal) : Bindings :=
  [(salesAmount, sales), (bonusTotal, bonuses), (deductionsTotal, deductions), (loansTotal, loans)]

end Bindings

namespace Variable

def valueIn (v : Variable) (r : Request) : Decimal :=
  match v.source with
  | .constant => v.default
  | .sales => r.sales
  | .property path => (r.employee.attribute? path).getD v.default

def valueAt (v : Variable) (sales : Decimal) : Decimal :=
  match v.source with
  | .sales => sales
  | _ => v.default

end Variable

namespace Formula

/-- The bindings for a request. Variables hide the names that are bound before them. -/
def requestBindings (f : Formula) (r : Request) : Except PayError Bindings := do
  let seeded := Bindings.seeded r.sales (← r.bonusTotal) (← r.deductionsTotal) (← r.loansTotal)
  return seeded.bindAll (f.declared.map fun v => (v.name, v.valueIn r))

def defaultBindings (f : Formula) : Bindings :=
  Bindings.bindAll [] (f.declared.map fun v => (v.name, v.default))

def previewBindings (f : Formula) (sales : Decimal) : Bindings :=
  (Bindings.seeded sales .zero .zero .zero).bindAll
    (f.declared.map fun v => (v.name, v.valueAt sales))

end Formula

end Payroll
