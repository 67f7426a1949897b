import Payroll.Json.Basic

/-!
# Writing JSON text

Compact text. Only quotes, backslashes and control characters are escaped in strings.
-/

set_option autoImplicit false

namespace Payroll.Json

namespace Printer

open Text

def hex4 (n : Nat) : List Char :=
  let digits := Nat.toDigits 16 n
  List.replicate (4 - digits.length) '0' ++ digits

def escaped (c : Char) : List Char :=
  if c = '"' then ['\\', '"']
  else if c = '\\' then ['\\', '\\']
  else if c.toNat < 0x20 then '\\' :: 'u' :: hex4 c.toNat
  else [c]

def string (s : String) : String :=
  String.ofList ('"' :: s.toList.flatMap escaped ++ ['"'])

end Printer

mutual
def toText : Json → String
  | null => "null"
  | bool b => if b then "true" else "false"
  | number n => String.ofList n.chars
  | string s => Printer.string s
  | array items => "[" ++ ",".intercalate (itemTexts items) ++ "]"
  | object fields => "\x7b" ++ ",".intercalate (fieldTexts fields) ++ "\x7d"
def itemTexts : List Json → List String
  | [] => []
  | j :: rest => j.toText :: itemTexts rest
def fieldTexts : List (String × Json) → List String
  | [] => []
  | (key, j) :: rest => (Printer.string key ++ ":" ++ j.toText) :: fieldTexts rest
end

end Payroll.Json
