import Payroll.Text.Basic
import Payroll.Json.Basic

/-!
# Dates

Dates of the Gregorian calendar, their order, and their text: the year has four digits, and more
than four digits or a negative year come with a sign.
-/

set_option autoImplicit false

namespace Payroll

namespace Calendar

def isLeap (year : Int) : Bool :=
  year % 4 = 0 && (year % 100 ≠ 0 || year % 400 = 0)

def daysInMonth (year : Int) (month : Nat) : Nat :=
  if month = 2 then (if isLeap year then 29 else 28)
  else if month = 4 ∨ month = 6 ∨ month = 9 ∨ month = 11 then 30
  else 31

def firstYear : Int := -262143
def lastYear : Int := 262142

end Calendar

open Calendar

structure Date where
  year : Int
  month : Nat
  day : Nat
  year_mem : firstYear ≤ year ∧ year ≤ lastYear
  month_mem : 1 ≤ month ∧ month ≤ 12
  day_mem : 1 ≤ day ∧ day ≤ daysInMonth year month
deriving DecidableEq

namespace Date

def ofParts? (year : Int) (month day : Nat) : Option Date :=
  if hy : firstYear ≤ year ∧ year ≤ lastYear then
    if hm : 1 ≤ month ∧ month ≤ 12 then
      if hd : 1 ≤ day ∧ day ≤ daysInMonth year month then some ⟨year, month, day, hy, hm, hd⟩
      else none
    else none
  else none

def le (a b : Date) : Bool :=
  a.year < b.year ||
    (a.year = b.year && (a.month < b.month || (a.month = b.month && a.day ≤ b.day)))

def nextMonth? (d : Date) : Option Date :=
  if d.month = 12 then ofParts? (d.year + 1) 1 1 else ofParts? d.year (d.month + 1) 1

def previous? (d : Date) : Option Date :=
  if 1 < d.day then ofParts? d.year d.month (d.day - 1)
  else if 1 < d.month then ofParts? d.year (d.month - 1) (daysInMonth d.year (d.month - 1))
  else ofParts? (d.year - 1) 12 (daysInMonth (d.year - 1) 12)

open Text

def yearChars (year : Int) : List Char :=
  if 0 ≤ year ∧ year ≤ 9999 then padded 4 year.natAbs
  else (if year < 0 then '-' else '+') :: padded 4 year.natAbs

def toChars (d : Date) : List Char :=
  yearChars d.year ++ '-' :: padded 2 d.month ++ '-' :: padded 2 d.day

def toText (d : Date) : String := String.ofList d.toChars

/-- All digits at the front; there is at least one. -/
def digits? (cs : List Char) : Option (Nat × List Char) :=
  let digits := cs.takeWhile Char.isDigit
  (natural? digits).map fun n => (n, cs.dropWhile Char.isDigit)

def digitsWithin? (width : Nat) (cs : List Char) : Option (Nat × List Char) :=
  let digits := (cs.take width).takeWhile Char.isDigit
  (natural? digits).map fun n => (n, cs.drop digits.length)

/-- A year of up to four digits, or a signed one of any length. -/
def year? (cs : List Char) : Option (Int × List Char) :=
  match skipBlanks cs with
  | '-' :: rest => (digits? rest).map fun (n, rest) => (-(n : Int), rest)
  | '+' :: rest => (digits? rest).map fun (n, rest) => ((n : Int), rest)
  | cs => (digitsWithin? 4 cs).map fun (n, rest) => ((n : Int), rest)

def part? (cs : List Char) : Option (Nat × List Char) := digitsWithin? 2 (skipBlanks cs)

def dash? : List Char → Option (List Char)
  | '-' :: rest => some rest
  | _ => none

/-- Reads a date. White space may stand before a number; `gap` takes what else may stand before a
dash and at the end. -/
def read? (gap : List Char → List Char) (cs : List Char) : Option Date := do
  let (year, cs) ← year? cs
  let (month, cs) ← part? (← dash? (gap cs))
  let (day, cs) ← part? (← dash? (gap cs))
  if (gap cs).isEmpty then ofParts? year month day else none

def ofSpaced? (cs : List Char) : Option Date := read? skipBlanks cs

def ofChars? (cs : List Char) : Option Date := read? id cs

def toJson (d : Date) : Json := .string d.toText

def ofJson? (j : Json) : Option Date := j.string?.bind fun s => ofSpaced? s.toList

end Date

end Payroll
