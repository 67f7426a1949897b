import Payroll.Decimal.Rounding

/-!
# Decimal arithmetic

Sums, differences and products are exact and then fitted: of the exact result the fewest digits are
dropped that leave a decimal. Quotients are developed digit by digit. An operation whose result
is too large has no value.
-/

set_option autoImplicit false

namespace Payroll.Decimal

-- Powers are those of core, whatever other instances there are.
attribute [local instance (2000)] instPowNat

open Rounding

/-- `coefficient / 10 ^ scale` with the fewest digits dropped from its end, halves to even. -/
def fit? (coefficient : Int) (scale : Nat) : Option Decimal :=
  (List.range (scale + 1)).findSome? fun k =>
    ofParts? (signed (halfEven · (10 ^ k)) coefficient) (scale - k)

def add? (a b : Decimal) : Option Decimal :=
  if a.isZero then some b
  else if b.isZero then some a
  else
    let scale := Nat.max a.scale b.scale
    fit? (a.atScale scale + b.atScale scale) scale

/-- The sum with the negated amount, but a zero keeps the sign it has. -/
def sub? (a b : Decimal) : Option Decimal := add? a (if b.isZero then b else -b)

def shortCapacity : Nat := 2 ^ (32 : Nat)

/-- Products of two short coefficients with more than 47 digits after the point count as zero. Where
a product rounds to zero, it keeps its sign unless both coefficients are short. -/
def mul? (a b : Decimal) : Option Decimal :=
  if a.isZero || b.isZero then some zero
  else
    let short := decide (a.magnitude < shortCapacity) && decide (b.magnitude < shortCapacity)
    if short && decide (47 < a.scale + b.scale) then some zero
    else
      (fit? ((a.magnitude * b.magnitude : Nat) : Int) (a.scale + b.scale)).map fun product =>
        { product with negative := (a.negative != b.negative) && !(short && product.isZero) }

namespace LongDivision

/-- Drops the last digit of a quotient that has outgrown 96 bits. `sticky` tells that the quotient
was not exact, so that a five is more than a half. -/
def carry? (q : Nat) (scale : Int) (sticky : Bool) : Option (Nat × Int) :=
  if scale ≤ 0 then none
  else
    let v := q / 10
    let last := q % 10
    some (if last > 5 ∨ (last = 5 ∧ (sticky = true ∨ v % 2 = 1)) then v + 1 else v, scale - 1)

/-- How many digits the next step develops: at most nine, no more than the scale allows, and only
as many as leave the quotient below 96 bits. -/
def stepSize (q : Nat) (scale : Int) : Nat :=
  ((List.range 10).reverse.find? fun k : Nat =>
    decide (scale + k ≤ 28) && decide (q * 10 ^ k < capacity)).getD 0

def close? (q r d : Nat) (scale : Int) : Option (Nat × Int) :=
  let up := if 2 * r > d ∨ (2 * r = d ∧ q % 2 = 1) then q + 1 else q
  if up < capacity then some (up, scale) else carry? up scale true

/-- Develops `q + r / d` at `scale`, which may be negative at first. The answer tells besides
whether the division left a remainder on the way. Every step but the last raises the scale, so
`29 - scale` steps are enough. -/
def develop? (d : Nat) : Nat → Nat → Nat → Int → Bool → Option (Nat × Int × Bool)
  | 0, _, _, _, _ => none
  | steps + 1, q, r, scale, inexact =>
    if r = 0 then
      if 0 ≤ scale then some (q, scale, inexact)
      else
        let k := Nat.min 9 (-scale).toNat
        if q * 10 ^ k < capacity then develop? d steps (q * 10 ^ k) 0 (scale + k) inexact else none
    else
      let k := stepSize q scale
      if scale < 28 ∧ k < 9 ∧ scale + k < 0 then none
      else if k = 0 then (close? q r d scale).map fun (q, scale) => (q, scale, true)
      else
        let q' := q * 10 ^ k + r * 10 ^ k / d
        let r' := r * 10 ^ k % d
        if q' < capacity then develop? d steps q' r' (scale + k) true
        else (carry? q' (scale + k) (decide (r' ≠ 0))).map fun (q, scale) => (q, scale, true)

def dropZeros (k : Nat) : Nat × Nat → Nat × Nat
  | (q, scale) => if k ≤ scale ∧ q % 10 ^ k = 0 then (q / 10 ^ k, scale - k) else (q, scale)

def dropEights : Nat → Nat × Nat → Nat × Nat
  | 0, part => part
  | times + 1, (q, scale) =>
    if q % 2 ^ (32 : Nat) = 0 ∧ 8 ≤ scale ∧ q % 10 ^ (8 : Nat) = 0 then
      dropEights times (q / 10 ^ (8 : Nat), scale - 8)
    else (q, scale)

def tidy (q scale : Nat) : Nat × Nat :=
  dropZeros 1 (dropZeros 2 (dropZeros 4 (dropEights 3 (q, scale))))

end LongDivision

open LongDivision in
def magnitudeQuotient? (a b : Decimal) : Option (Nat × Nat) :=
  let start := (a.scale : Int) - b.scale
  let q := a.magnitude / b.magnitude
  let r := a.magnitude % b.magnitude
  match develop? b.magnitude (29 - start).toNat q r start false with
  | none => none
  | some (q, scale, true) => some (tidy q scale.toNat)
  | some (q, scale, false) => some (q, scale.toNat)

def div? (a b : Decimal) : Option Decimal :=
  if b.isZero then none
  else if a.isZero then some zero
  else
    match magnitudeQuotient? a b with
    | none => none
    | some (q, scale) => ofParts? (if a.negative = b.negative then q else -(q : Int)) scale

end Payroll.Decimal
