import Payroll.Decimal.Arithmetic
import Payroll.Json.Basic

/-!
# Decimal text

Writing a decimal with all its digits, and reading one. A reader of amounts takes more than a writer
produces: signs, `_` between digits, a point without digits on one side, digits beyond the
precision, and exponents. In JSON amounts are written as strings, so that no digit is lost, and
numbers are read too.
-/

set_option autoImplicit false

namespace Payroll.Decimal

-- Powers are those of core, whatever other instances there are.
attribute [local instance (2000)] instPowNat

open Text

def toChars (a : Decimal) : List Char :=
  let digits := padded (a.scale + 1) a.magnitude
  let whole := digits.length - a.scale
  let unsigned :=
    if a.scale = 0 then digits else digits.take whole ++ '.' :: digits.drop whole
  if a.negative then '-' :: unsigned else unsigned

def toText (a : Decimal) : String := String.ofList a.toChars

/-- Takes a digit that no longer fits as a reason to round the magnitude `m` up or not. A
magnitude that rounds up to `2 ^ 96` gives up a digit after the point. -/
def roundOff? (m scale digit : Nat) : Option (Nat × Nat) :=
  if digit < 5 then some (m, scale)
  else if m + 1 < capacity then some (m + 1, scale)
  else if scale = 0 then none
  else some ((m + 5) / 10, scale - 1)

/-- Below this a magnitude takes one more digit within 64 bits. -/
def narrowBound : Nat := (2 ^ (64 : Nat) - 1) / 10 - 255

def isFiller (cs : List Char) : Bool := cs.all fun c => c.isDigit || c = '_'

/-- Reads the rest of an unsigned number behind the magnitude `m` with `scale` digits after the
point. `point` and `started` tell whether a point and a digit have been read. The first digit that
does not fit rounds, but behind a narrow magnitude a `_` there ends the number. -/
def readDigits? (point started : Bool) (m scale : Nat) : List Char → Option (Nat × Nat)
  | [] => if started then some (m, scale) else none
  | c :: rest =>
    match digit? c with
    | some d =>
      let scale' := if point then scale + 1 else scale
      if m * 10 + d < capacity ∧ scale' ≤ maxScale then
        if scale' = maxScale ∧ m < narrowBound ∧ rest.head? = some '_' then
          if isFiller rest then some (m * 10 + d, scale') else none
        else readDigits? point true (m * 10 + d) scale' rest
      else if point && isFiller rest then roundOff? m scale d
      else none
    | none =>
      if c = '.' ∧ point = false then readDigits? true started m scale rest
      else if c = '_' ∧ started = true then readDigits? point started m scale rest
      else none

def splitSign : List Char → Bool × List Char
  | '-' :: rest => (true, rest)
  | '+' :: rest => (false, rest)
  | cs => (false, cs)

def ofChars? (cs : List Char) : Option Decimal :=
  let (negative, unsigned) := splitSign cs
  match readDigits? false false 0 0 unsigned with
  | none => none
  | some (m, scale) => ofParts? (if negative then -(m : Int) else m) scale

def ofText? (s : String) : Option Decimal := ofChars? s.toList

def withScale? (a : Decimal) (scale : Nat) : Option Decimal :=
  if h : scale ≤ 28 then some { a with scale, scale_le := h } else none

/-- Moves the point of `a` by `exponent` digits to the left. A result with more than 28 digits after
the point is first rounded to them, and keeps its sign even as a zero. -/
def shiftLeft? (a : Decimal) (exponent : Nat) : Option Decimal :=
  if maxScale < exponent then none
  else if a.scale + exponent ≤ maxScale then a.withScale? (a.scale + exponent)
  else (a.shorten (maxScale - exponent)).withScale? maxScale

def shiftRight? (a : Decimal) (exponent : Nat) : Option Decimal :=
  if exponent ≤ a.scale then a.withScale? (a.scale - exponent)
  else if maxScale < exponent then none
  else if a.isZero then some zero
  else (fit? (a.coefficient * 10 ^ exponent) a.scale).map normalize

def isExponentMark (c : Char) : Bool := c = 'e' || c = 'E'

def exponent? : List Char → Option Nat
  | '+' :: rest => natural? rest
  | cs => natural? cs

def ofScientific? (cs : List Char) : Option Decimal :=
  match ofChars? (cs.takeWhile (!isExponentMark ·)), cs.dropWhile (!isExponentMark ·) with
  | some base, _ :: '-' :: digits => (exponent? digits).bind base.shiftLeft?
  | some base, _ :: digits => (exponent? digits).bind base.shiftRight?
  | _, _ => none

/-- Fields, properties, and the names that formulas refer to are all read this way, in a run and in
a review: the reader of amounts knows both notations by itself. A property that it does not read is
tried in scientific notation once more, and that reads no other text. -/
def ofAmount? (s : String) : Option Decimal :=
  match ofText? s with
  | some d => some d
  | none => ofScientific? s.toList

def toJson (a : Decimal) : Json := .string a.toText

def ofJson? : Json → Option Decimal
  | .string s => ofAmount? s
  | .number n => ofChars? n.plainText
  | _ => none

end Payroll.Decimal
