import Payroll.Json.Basic
import Payroll.Json.Binary64

/-!
# Reading JSON text

Each reader takes the characters from where it stands and returns what it has read and the
characters behind it. Every value takes at least one character, so the length of the text bounds the
number of steps. How deeply arrays and objects may be nested is bounded besides.
-/

set_option autoImplicit false

namespace Payroll.Json

-- Powers are those of core, whatever other instances there are.
attribute [local instance (2000)] instPowNat

namespace Reader

open Text

def isSpace (c : Char) : Bool := c = ' ' || c = '\t' || c = '\n' || c = '\r'

def skipSpaces (cs : List Char) : List Char := cs.dropWhile isSpace

def unit? : List Char → Option (Nat × List Char)
  | a :: b :: c :: d :: rest => do
    let a ← hexDigit? a
    let b ← hexDigit? b
    let c ← hexDigit? c
    let d ← hexDigit? d
    some (((a * 16 + b) * 16 + c) * 16 + d, rest)
  | _ => none

/-- A code point from one or two 16-bit units; a lone surrogate is none. -/
def codePoint? (cs : List Char) : Option (Char × List Char) := do
  let (high, rest) ← unit? cs
  if 0xD800 ≤ high ∧ high < 0xDC00 then
    match rest with
    | '\\' :: 'u' :: rest =>
      let (low, rest) ← unit? rest
      if 0xDC00 ≤ low ∧ low < 0xE000 then
        some (Char.ofNat (0x10000 + (high - 0xD800) * 0x400 + (low - 0xDC00)), rest)
      else none
    | _ => none
  else if 0xDC00 ≤ high ∧ high < 0xE000 then none
  else some (Char.ofNat high, rest)

def escape? : List Char → Option (Char × List Char)
  | '"' :: rest => some ('"', rest)
  | '\\' :: rest => some ('\\', rest)
  | '/' :: rest => some ('/', rest)
  | 'b' :: rest => some ('\x08', rest)
  | 'f' :: rest => some ('\x0c', rest)
  | 'n' :: rest => some ('\n', rest)
  | 'r' :: rest => some ('\r', rest)
  | 't' :: rest => some ('\t', rest)
  | 'u' :: rest => codePoint? rest
  | _ => none

/-- The rest of a string, up to and without the closing quote. `read` holds the characters before,
last first. -/
def stringTail? : Nat → List Char → List Char → Option (String × List Char)
  | 0, _, _ => none
  | fuel + 1, read, cs =>
    match cs with
    | [] => none
    | '"' :: rest => some (String.ofList read.reverse, rest)
    | '\\' :: rest =>
      match escape? rest with
      | some (c, rest) => stringTail? fuel (c :: read) rest
      | none => none
    | c :: rest => if c.toNat < 0x20 then none else stringTail? fuel (c :: read) rest

def digits? (cs : List Char) : Option (List Char × List Char) :=
  match cs.span Char.isDigit with
  | ([], _) => none
  | (digits, rest) => some (digits, rest)

def isMark (c : Char) : Bool := c = 'e' || c = 'E'

def exponent? : List Char → Option (Option Int × List Char)
  | c :: '-' :: rest =>
    if isMark c then (digits? rest).map fun (ds, rest) =>
      (some (-(Nat.ofDigitChars 10 ds 0 : Int)), rest)
    else some (none, c :: '-' :: rest)
  | c :: '+' :: rest =>
    if isMark c then (digits? rest).map fun (ds, rest) =>
      (some (Nat.ofDigitChars 10 ds 0 : Int), rest)
    else some (none, c :: '+' :: rest)
  | c :: rest =>
    if isMark c then (digits? rest).map fun (ds, rest) =>
      (some (Nat.ofDigitChars 10 ds 0 : Int), rest)
    else some (none, c :: rest)
  | [] => some (none, [])

def fraction? : List Char → Option (List Char × List Char)
  | '.' :: rest => digits? rest
  | cs => some ([], cs)

def isLeadingZero : List Char → Bool
  | '0' :: _ :: _ => true
  | _ => false

/-- A whole number within 64 bits is exact, any other number a double. A minus zero is a double, for
no whole number has that sign. -/
def numberOf? (negative : Bool) (whole fraction : List Char) (exponent : Option Int) :
    Option Number :=
  let digits := Nat.ofDigitChars 10 (whole ++ fraction) 0
  let value : Int := if negative then -(digits : Int) else digits
  let exact := fraction.isEmpty && exponent.isNone && !(negative && digits = 0)
  if exact && decide (-(2 : Int) ^ (63 : Nat) ≤ value) && decide (value < 2 ^ (64 : Nat)) then
    some (.whole value)
  else
    (Binary64.shortestOf? digits (exponent.getD 0 - fraction.length)).map fun (digits, exponent) =>
      .real negative digits exponent

def unsigned? (negative : Bool) (cs : List Char) : Option (Number × List Char) := do
  let (whole, rest) ← digits? cs
  if isLeadingZero whole then none
  else
    let (fraction, rest) ← fraction? rest
    let (exponent, rest) ← exponent? rest
    let number ← numberOf? negative whole fraction exponent
    some (number, rest)

def number? : List Char → Option (Number × List Char)
  | '-' :: rest => unsigned? true rest
  | cs => unsigned? false cs

def after? (word : List Char) (cs : List Char) : Option (List Char) :=
  if word.isPrefixOf cs then some (cs.drop word.length) else none

def name? (cs : List Char) : Option (String × List Char) :=
  match skipSpaces cs with
  | '"' :: rest =>
    match stringTail? rest.length [] rest with
    | some (key, rest) => (after? [':'] (skipSpaces rest)).map fun rest => (key, rest)
    | none => none
  | _ => none

mutual
/-- A value, perhaps behind white space, that holds at most `room` arrays and objects inside one
another. -/
def value? : (fuel room : Nat) → List Char → Option (Json × List Char)
  | 0, _, _ => none
  | fuel + 1, room, cs =>
    match skipSpaces cs with
    | 'n' :: rest => (after? ['u', 'l', 'l'] rest).map fun rest => (null, rest)
    | 't' :: rest => (after? ['r', 'u', 'e'] rest).map fun rest => (bool true, rest)
    | 'f' :: rest => (after? ['a', 'l', 's', 'e'] rest).map fun rest => (bool false, rest)
    | '"' :: rest => (stringTail? rest.length [] rest).map fun (s, rest) => (string s, rest)
    | '[' :: rest =>
      match room, skipSpaces rest with
      | 0, _ => none
      | _, ']' :: rest => some (array [], rest)
      | room + 1, rest => (items? fuel room rest).map fun (items, rest) => (array items, rest)
    | '\x7b' :: rest =>
      match room, skipSpaces rest with
      | 0, _ => none
      | _, '\x7d' :: rest => some (object [], rest)
      | room + 1, rest =>
        (members? fuel room rest).map fun (fields, rest) => (ofFields fields, rest)
    | cs => (number? cs).map fun (n, rest) => (number n, rest)

def items? : (fuel room : Nat) → List Char → Option (List Json × List Char)
  | 0, _, _ => none
  | fuel + 1, room, cs =>
    match value? fuel room cs with
    | none => none
    | some (first, rest) =>
      match skipSpaces rest with
      | ']' :: rest => some ([first], rest)
      | ',' :: rest => (items? fuel room rest).map fun (items, rest) => (first :: items, rest)
      | _ => none

def members? : (fuel room : Nat) → List Char → Option (List (String × Json) × List Char)
  | 0, _, _ => none
  | fuel + 1, room, cs =>
    match name? cs with
    | none => none
    | some (key, rest) =>
      match value? fuel room rest with
      | none => none
      | some (first, rest) =>
        match skipSpaces rest with
        | '\x7d' :: rest => some ([(key, first)], rest)
        | ',' :: rest =>
          (members? fuel room rest).map fun (fields, rest) => ((key, first) :: fields, rest)
        | _ => none
end

end Reader

def deepest : Nat := 127

def ofText? (text : String) : Option Json :=
  let cs := text.toList
  match Reader.value? (cs.length + 1) deepest cs with
  | some (j, rest) => if (Reader.skipSpaces rest).isEmpty then some j else none
  | none => none

end Payroll.Json
