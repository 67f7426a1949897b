import Payroll.Decimal.Text
import Payroll.Json.Record
import Payroll.Text.Uuid

/-!
# Traces

A record of the steps of a formula that ran, with what went in and what came out. An evaluation has
no clock and draws no identifier; whoever records it fills them in.
-/

set_option autoImplicit false

namespace Payroll

-- Powers are those of core, whatever other instances there are.
attribute [local instance (2000)] instPowNat

namespace Trace

structure Entry where
  number : Nat
  stepId : String
  stepName : String
  inputs : Json
  result : Decimal
  target : String
  durationUs : Nat := 0

namespace Entry

def toJson (e : Entry) : Json :=
  .object
    [("stepNumber", .natural e.number), ("stepId", .string e.stepId),
      ("stepName", .string e.stepName), ("inputs", e.inputs), ("result", e.result.toJson),
      ("variable", .string e.target), ("durationUs", .natural e.durationUs)]

def ofJson? (j : Json) : Option Entry := do
  let row ← j.row? 7
  some { number := ← row.required? 0 ["stepNumber"] (Json.naturalBelow? (2 ^ (32 : Nat)))
         stepId := ← row.required? 1 ["stepId"] Json.string?
         stepName := ← row.required? 2 ["stepName"] Json.string?
         inputs := ← row.required? 3 ["inputs"] some
         result := ← row.required? 4 ["result"] Decimal.ofJson?
         target := ← row.required? 5 ["variable"] Json.string?
         durationUs := ← row.required? 6 ["durationUs"] (Json.naturalBelow? (2 ^ (64 : Nat))) }

end Entry

end Trace

structure Trace where
  evaluationId : Uuid := .nil
  entries : List Trace.Entry := []
  /-- How often an operator's value was taken from the memo. -/
  hits : Nat := 0
  durationUs : Nat := 0

namespace Trace

def toJson (t : Trace) : Json :=
  .object
    [("evaluationId", t.evaluationId.toJson), ("steps", .list Entry.toJson t.entries),
      ("cacheHits", .natural t.hits), ("durationUs", .natural t.durationUs)]

def ofJson? (j : Json) : Option Trace := do
  let row ← j.row? 4
  some { evaluationId := ← row.required? 0 ["evaluationId"] Uuid.ofJson?
         entries := ← row.required? 1 ["steps"] (Json.list? Entry.ofJson?)
         hits := ← row.required? 2 ["cacheHits"] (Json.naturalBelow? (2 ^ (32 : Nat)))
         durationUs := ← row.required? 3 ["durationUs"] (Json.naturalBelow? (2 ^ (64 : Nat))) }

end Trace

end Payroll
