import Payroll.Json.Basic

/-!
# Records

A record is written as an object, each field under one of its spellings, or as an array of its
fields in order. An object may have other fields besides; an array may end early, but may not be
longer than the record.
-/

set_option autoImplicit false

namespace Payroll.Json

inductive Row where
  | named (fields : List (String × Json))
  | listed (items : List Json)

inductive Cell where
  | given (value : Json)
  | unnamed
  | cut

def row? (width : Nat) : Json → Option Row
  | object fields => some (.named fields)
  | array items => if items.length ≤ width then some (.listed items) else none
  | _ => none

namespace Row

/-- The cell of the field at `index` with these spellings. A field may not be given twice. -/
def cell? (row : Row) (index : Nat) (spellings : List String) : Option Cell :=
  match row with
  | named fields =>
    match fields.filter (fun field => spellings.contains field.1) with
    | [] => some .unnamed
    | [field] => some (.given field.2)
    | _ => none
  | listed items => some ((items[index]?).elim .cut .given)

variable {α : Type}

def required? (row : Row) (index : Nat) (spellings : List String) (decode : Json → Option α) :
    Option α :=
  match row.cell? index spellings with
  | some (.given value) => decode value
  | _ => none

def default? (row : Row) (index : Nat) (spellings : List String) (absent : α)
    (decode : Json → Option α) : Option α :=
  match row.cell? index spellings with
  | some (.given value) => decode value
  | some _ => some absent
  | none => none

/-- A field that may be null, and may be left out of an object but not of an array. -/
def nullable? (row : Row) (index : Nat) (spellings : List String) (decode : Json → Option α) :
    Option (Option α) :=
  match row.cell? index spellings with
  | some (.given value) => value.optional? decode
  | some .unnamed => some none
  | _ => none

def optional? (row : Row) (index : Nat) (spellings : List String) (decode : Json → Option α) :
    Option (Option α) :=
  row.default? index spellings none (Json.optional? decode)

end Row

/-- A tagged record: an object with a string field `type`, or an array that starts with that string.
The row holds the other fields. -/
def tagged? : Json → Option (String × Row)
  | object fields =>
    match fields.lookup "type" with
    | some (string tag) => some (tag, .named (fields.filter (·.1 != "type")))
    | _ => none
  | array (string tag :: items) => some (tag, .listed items)
  | _ => none

def Row.fits (width : Nat) : Row → Bool
  | named _ => true
  | listed items => items.length ≤ width

def word? : Json → Option String
  | string s => some s
  | object [(s, null)] => some s
  | _ => none

end Payroll.Json
