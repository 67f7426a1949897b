import Payroll.Decimal.Text
import Payroll.Json.Record
import Payroll.Text.Basic

/-!
# Employees

What a request says about the employee: an identifier, perhaps a name, and any other properties,
which formulas read by path.
-/

set_option autoImplicit false

namespace Payroll

structure Employee where
  id : String
  name : Option String := none
  attributes : List (String × Json) := []

namespace Employee

open Text

/-- The amount that a property stands for. Numbers are read as JSON writes them, texts without the
white space around them. -/
def amount? : Json → Option Decimal
  | .number n => Decimal.ofAmount? (String.ofList n.chars)
  | .string s => Decimal.ofAmount? (trim s)
  | _ => none

def descend? : List String → Json → Option Json
  | [], j => some j
  | name :: rest, j => (j.field? name).bind (descend? rest)

def pathNames (path : String) : List String :=
  (path.toList.splitOn '.').map String.ofList

def attribute? (e : Employee) (path : String) : Option Decimal :=
  (descend? (pathNames path) (.object e.attributes)).bind amount?

def ofJson? : Json → Option Employee
  | .object fields => do
    let row := Json.Row.named fields
    some { id := ← row.required? 0 ["id"] Json.string?
           name := ← row.optional? 1 ["name"] Json.string?
           attributes := fields.filter fun field => field.1 != "id" && field.1 != "name" }
  | _ => none

def toJson (e : Employee) : Json :=
  let name := (e.name.map fun name => ("name", Json.string name)).toList
  .ofFields (("id", .string e.id) :: name ++ e.attributes)

end Employee

end Payroll
