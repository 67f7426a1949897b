import Payroll.Json.Basic

/-!
# UUIDs

128-bit identifiers, written as 32 hexadecimal digits in five groups.
-/

set_option autoImplicit false

namespace Payroll

-- Powers are those of core, whatever other instances there are.
attribute [local instance (2000)] instPowNat

structure Uuid where
  value : Nat
  value_lt : value < 2 ^ (128 : Nat)
deriving DecidableEq

namespace Uuid

def nil : Uuid := ⟨0, by decide⟩

def ofNat? (n : Nat) : Option Uuid := if h : n < 2 ^ (128 : Nat) then some ⟨n, h⟩ else none

def grouped? (cs : List Char) : Option Uuid :=
  let groups := cs.splitOn '-'
  if groups.map List.length = [8, 4, 4, 4, 12] then
    (Text.naturalIn? 16 groups.flatten).bind ofNat?
  else none

/-- Reads the grouped form, bare, in braces or behind `urn:uuid:` in any letter case, and 32 digits
in a row. -/
def ofChars? (cs : List Char) : Option Uuid :=
  let urn := "urn:uuid:".toList
  if cs.length = 32 then (Text.naturalIn? 16 cs).bind ofNat?
  else if cs.head? = some '\x7b' ∧ cs.getLast? = some '\x7d' then grouped? cs.tail.dropLast
  else if urn.isPrefixOf (cs.map Char.toLower) then grouped? (cs.drop urn.length)
  else grouped? cs

def toChars (u : Uuid) : List Char :=
  let digits := Nat.toDigits 16 u.value
  let all := List.replicate (32 - digits.length) '0' ++ digits
  all.take 8 ++ '-' :: (all.drop 8).take 4 ++ '-' :: (all.drop 12).take 4
    ++ '-' :: (all.drop 16).take 4 ++ '-' :: all.drop 20

def toJson (u : Uuid) : Json := .string (String.ofList u.toChars)

def ofJson? (j : Json) : Option Uuid := j.string?.bind fun s => ofChars? s.toList

end Uuid

end Payroll
