import Payroll.Calendar.Date
import Payroll.Error
import Payroll.Json.Record

/-!
# Pay periods

A period is named by a month, `2026-02`, or by its first and last day, `2026-02-10..2026-02-20`.
-/

set_option autoImplicit false

namespace Payroll

open Calendar Text

/-- All days from `first` to `last`, both included. -/
structure Period where
  first : Date
  last : Date
deriving DecidableEq

namespace Period

def contains (p : Period) (d : Date) : Bool := p.first.le d && d.le p.last

def toText (p : Period) : String := p.first.toText ++ ".." ++ p.last.toText

def splitRange? : List Char → Option (List Char × List Char)
  | '.' :: '.' :: rest => some ([], rest)
  | c :: rest => (splitRange? rest).map fun (before, behind) => (c :: before, behind)
  | [] => none

def ofRange (start finish : List Char) : Except PeriodFault Period :=
  match Date.ofChars? (trimmed start) with
  | none => .error .startDate
  | some first =>
    match Date.ofChars? (trimmed finish) with
    | none => .error .endDate
    | some last => if first.le last then .ok ⟨first, last⟩ else .error .reversed

/-- The whole month that starts on `first`, up to the day before the next month. The next month has
to exist too. -/
def ofMonth (first : Date) : Except PeriodFault Period :=
  match first.nextMonth?.bind Date.previous? with
  | some last => .ok ⟨first, last⟩
  | none => .error .month

def ofChars (cs : List Char) : Except PeriodFault Period :=
  match splitRange? cs with
  | some (start, finish) => ofRange start finish
  | none =>
    match Date.ofChars? (cs ++ ['-', '0', '1']) with
    | some first => ofMonth first
    | none => .error .form

def ofText (name : String) : Except PayError Period :=
  let cs := trimmed name.toList
  (ofChars cs).mapError (.period (String.ofList cs))

def toJson (p : Period) : Json :=
  .object [("start_date", p.first.toJson), ("end_date", p.last.toJson)]

def ofJson? (j : Json) : Option Period := do
  let row ← j.row? 2
  some { first := ← row.required? 0 ["start_date"] Date.ofJson?
         last := ← row.required? 1 ["end_date"] Date.ofJson? }

end Period

end Payroll
