import Payroll.Decimal.Text
import Payroll.Error
import Payroll.Formula.Basic
import Payroll.Json.Record
import Payroll.Plan.Basic

/-!
# Formulas in JSON

Literals and references share the form of a string: a text that reads as an amount is a literal,
any other text a reference. An operator is a record, and so is a nested step.
-/

set_option autoImplicit false

namespace Payroll

namespace Source

def toJson : Source → Json
  | constant => .object [("type", .string "constant")]
  | property path => .object [("type", .string "employeeAttribute"), ("path", .string path)]
  | sales => .object [("type", .string "salesAmount")]

def ofJson? (j : Json) : Option Source := do
  let (tag, row) ← j.tagged?
  match tag with
  | "constant" => if row.fits 0 then some constant else none
  | "employeeAttribute" =>
    if row.fits 1 then (row.required? 0 ["path"] Json.string?).map property else none
  | "salesAmount" => if row.fits 0 then some sales else none
  | _ => none

end Source

namespace Variable

def toJson (v : Variable) : Json :=
  .object
    [("name", .string v.name), ("description", .string v.description),
      ("defaultValue", v.default.toJson), ("source", v.source.toJson)]

def ofJson? (j : Json) : Option Variable := do
  let row ← j.row? 4
  some { name := ← row.required? 0 ["name"] Json.string?
         description := ← row.default? 1 ["description"] "" Json.string?
         default := ← row.default? 2 ["defaultValue"] .zero Decimal.ofJson?
         source := ← row.default? 3 ["source"] .constant Source.ofJson? }

end Variable

namespace Heading

def fields (h : Heading) (operation : Json) : List (String × Json) :=
  let description := (h.description.map fun text => ("description", Json.string text)).toList
  ("id", .string h.id) :: ("name", .string h.name) :: description
    ++ [("operation", operation), ("result", .string h.result)]

def ofRow? (row : Json.Row) : Option Heading := do
  some { id := ← row.default? 0 ["id"] "" Json.string?
         name := ← row.default? 1 ["name"] "" Json.string?
         description := ← row.optional? 2 ["description"] Json.string?
         result := ← row.default? 4 ["result"] "" Json.string? }

end Heading

mutual
def Operation.toJson : Operation → Json
  | .literal value => value.toJson
  | .reference name => .string name
  | .apply operator parameters =>
    .object [("type", .string operator.tag), ("parameters", .array (jsonOfParameters parameters))]
def Parameter.toJson : Parameter → Json
  | .literal value => value.toJson
  | .reference name => .string name
  | .step heading operation => .object (heading.fields operation.toJson)
def jsonOfParameters : List Parameter → List Json
  | [] => []
  | p :: rest => p.toJson :: jsonOfParameters rest
end

def Step.toJson (s : Step) : Json := .object (s.fields s.operation.toJson)

def Formula.toJson (f : Formula) : Json :=
  .object
    [("variables", .list Variable.toJson f.declared), ("steps", .list Step.toJson f.steps),
      ("outputVariable", .string f.output)]

mutual
/-- `depth` bounds the nesting that is followed; the height of a value is always enough. -/
def Operation.ofJsonWithin? : Nat → Json → Option Operation
  | 0, _ => none
  | depth + 1, j =>
    match Decimal.ofJson? j with
    | some value => some (.literal value)
    | none =>
      match j with
      | .string name => some (.reference name)
      | _ => do
        let row ← j.row? 2
        let tag ← row.required? 0 ["type"] Json.string?
        let parameters ← row.default? 1 ["parameters"] []
          (Json.list? (Parameter.ofJsonWithin? depth))
        some (.apply (.ofTag tag) parameters)
def Parameter.ofJsonWithin? : Nat → Json → Option Parameter
  | 0, _ => none
  | depth + 1, j =>
    match Decimal.ofJson? j with
    | some value => some (.literal value)
    | none =>
      match j with
      | .string name => some (.reference name)
      | _ => do
        let row ← j.row? 5
        let heading ← Heading.ofRow? row
        let operation ← row.required? 3 ["operation"] (Operation.ofJsonWithin? depth)
        some (.step heading operation)
end

namespace Operation

def ofJson? (j : Json) : Option Operation := ofJsonWithin? (j.height + 1) j

end Operation

namespace Parameter

def ofJson? (j : Json) : Option Parameter := ofJsonWithin? (j.height + 1) j

end Parameter

namespace Step

def ofJson? (j : Json) : Option Step := do
  let row ← j.row? 5
  let heading ← Heading.ofRow? row
  let operation ← row.required? 3 ["operation"] Operation.ofJson?
  some { heading with operation }

end Step

namespace Formula

def ofJson? (j : Json) : Option Formula := do
  let row ← j.row? 3
  some { declared := ← row.default? 0 ["variables"] [] (Json.list? Variable.ofJson?)
         steps := ← row.default? 1 ["steps"] [] (Json.list? Step.ofJson?)
         output := ← row.default? 2 ["outputVariable"] "" Json.string? }

/-- The formula of a plan is its configuration, or the field `formula` of it. -/
def ofPlan (plan : Plan) : Except PayError Formula :=
  match ofJson? ((plan.config.field? "formula").getD plan.config) with
  | some formula => .ok formula
  | none => .error (.configuration plan.id .malformed)

end Formula

end Payroll
