import Payroll.Text.Basic

/-!
# JSON values

Whole numbers that fit 64 bits, signed or not, are exact. Every other number is a double, held by
the fewest decimal digits that stand for it.
-/

set_option autoImplicit false

namespace Payroll

inductive Json.Number where
  | whole (value : Int)
  /-- Plus or minus `digits * 10 ^ exponent`; the digits do not end in a zero. -/
  | real (negative : Bool) (digits : Nat) (exponent : Int)
deriving DecidableEq

inductive Json where
  | null
  | bool (value : Bool)
  | number (value : Json.Number)
  | string (value : String)
  | array (items : List Json)
  | object (fields : List (String × Json))

namespace Json

instance : Inhabited Json := ⟨null⟩

def natural (n : Nat) : Json := number (.whole n)

def strings (items : List String) : Json := array (items.map string)

def optional {α : Type} (encode : α → Json) : Option α → Json
  | none => null
  | some a => encode a

def list {α : Type} (encode : α → Json) (items : List α) : Json := array (items.map encode)

def string? : Json → Option String
  | string s => some s
  | _ => none

def bool? : Json → Option Bool
  | bool b => some b
  | _ => none

/-- A whole number that is not negative and below `bound`. -/
def naturalBelow? (bound : Nat) : Json → Option Nat
  | number (.whole n) => if 0 ≤ n ∧ n.toNat < bound then some n.toNat else none
  | _ => none

def list? {α : Type} (decode : Json → Option α) : Json → Option (List α)
  | array items => items.mapM decode
  | _ => none

def optional? {α : Type} (decode : Json → Option α) : Json → Option (Option α)
  | null => some none
  | j => (decode j).map some

def setField (key : String) (value : Json) : List (String × Json) → List (String × Json)
  | [] => [(key, value)]
  | (k, v) :: rest => if k = key then (k, value) :: rest else (k, v) :: setField key value rest

/-- The object with these fields, where a later field replaces an earlier one of its name. -/
def ofFields (fields : List (String × Json)) : Json :=
  object (fields.foldl (fun seen (key, value) => setField key value seen) [])

def field? (key : String) : Json → Option Json
  | object fields => fields.lookup key
  | _ => none

mutual
def height : Json → Nat
  | array items => heightOfItems items + 1
  | object fields => heightOfFields fields + 1
  | _ => 0
def heightOfItems : List Json → Nat
  | [] => 0
  | j :: rest => max j.height (heightOfItems rest)
def heightOfFields : List (String × Json) → Nat
  | [] => 0
  | (_, j) :: rest => max j.height (heightOfFields rest)
end

namespace Number

open Text

def positional (digits : Nat) (exponent : Int) : List Char :=
  if 0 ≤ exponent then Nat.toDigits 10 digits ++ List.replicate exponent.toNat '0'
  else
    let places := (-exponent).toNat
    let chars := padded (places + 1) digits
    chars.take (chars.length - places) ++ '.' :: chars.drop (chars.length - places)

def withSign (negative : Bool) (cs : List Char) : List Char :=
  if negative then '-' :: cs else cs

def plainText : Number → List Char
  | whole n => withSign (decide (n < 0)) (Nat.toDigits 10 n.natAbs)
  | real negative digits exponent => withSign negative (positional digits exponent)

/-- One digit before the point, and an exponent. -/
def scientific (digits : List Char) (exponent : Int) : List Char :=
  let power := withSign (decide (exponent < 0)) (Nat.toDigits 10 exponent.natAbs)
  match digits with
  | [] => []
  | [d] => d :: 'e' :: power
  | d :: rest => d :: '.' :: rest ++ 'e' :: power

/-- A double is written with a point, from `0.00001` up to sixteen digits before the point, and with
an exponent beyond. -/
def chars : Number → List Char
  | whole n => plainText (whole n)
  | real negative digits exponent =>
    let shown := Nat.toDigits 10 digits
    let point := exponent + shown.length
    withSign negative <|
      if digits = 0 then ['0', '.', '0']
      else if 0 ≤ exponent ∧ point ≤ 16 then positional digits exponent ++ ['.', '0']
      else if -5 < point ∧ point ≤ 16 then positional digits exponent
      else scientific shown (point - 1)

end Number

end Json

end Payroll
