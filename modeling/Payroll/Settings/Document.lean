import Payroll.Error
import Payroll.Settings.Basic
import Payroll.Yaml.Node

/-!
# Settings documents

A settings file is a YAML document with a mapping of sections, and settings are read from its JSON
value. Plain scalars may be truth values and numbers; all other scalars are texts. Sections and
settings that the file leaves out have their defaults, and so has everything in a blank file.
-/

set_option autoImplicit false

namespace Payroll

namespace Yaml

/-- An unsigned whole number: in decimal notation without zeros before it, or in another base behind
the mark of the base. A plus may stand before it. -/
def unsigned? (cs : List Char) : Option Nat :=
  match (if cs.head? = some '+' then cs.tail else cs) with
  | '0' :: 'x' :: digits => Text.naturalIn? 16 digits
  | '0' :: 'o' :: digits => Text.naturalIn? 8 digits
  | '0' :: 'b' :: digits => Text.naturalIn? 2 digits
  | ['0'] => some 0
  | '0' :: _ => none
  | digits => Text.natural? digits

def plainValue (text : String) : Json :=
  if text.isEmpty then .object []
  else if ["true", "True", "TRUE"].contains text then .bool true
  else if ["false", "False", "FALSE"].contains text then .bool false
  else
    match unsigned? text.toList with
    | some n => .number (.whole n)
    | none => .string text

namespace Node

mutual
/-- A mapping with a key that is no scalar has no fields; null stands for it. -/
def toJson : Node → Json
  | scalar plain text => if plain then plainValue text else .string text
  | sequence items => .array (jsonOfItems items)
  | mapping entries => (fieldsOf? entries).elim .null .object
def jsonOfItems : List Node → List Json
  | [] => []
  | item :: rest => item.toJson :: jsonOfItems rest
def fieldsOf? : List (Node × Node) → Option (List (String × Json))
  | [] => some []
  | (scalar _ key, value) :: rest => (fieldsOf? rest).map ((key, value.toJson) :: ·)
  | _ :: _ => none
end

end Node

end Yaml

namespace Settings

def ofText? (text : String) : Option Settings :=
  if Text.isVoid text then some {}
  else (Yaml.Node.ofText? text).bind fun root => ofJson? root.toJson

def load (path : String) : Option String → Except PayError Settings
  | none => .error (.settingsNotFound path)
  | some text =>
    match ofText? text with
    | some settings => .ok settings
    | none => .error (.settingsMalformed path)

end Settings

end Payroll
