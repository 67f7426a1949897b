import Payroll.Decimal.Rounding

/-!
# Binary64

The doubles that stand for positive fractions, and the shortest digits that stand for a double. All
comparisons are exact, between natural numbers.
-/

set_option autoImplicit false

namespace Payroll.Binary64

-- Powers are those of core, whatever other instances there are.
attribute [local instance (2000)] instPowNat

def inUnits (n d : Nat) (exponent : Int) : Nat :=
  if 0 ≤ exponent then Rounding.halfEven n (d * 2 ^ exponent.toNat)
  else Rounding.halfEven (n * 2 ^ (-exponent).toNat) d

def magnitude (n d : Nat) : Int :=
  let e : Int := (Nat.log2 n : Int) - Nat.log2 d
  let below : Bool :=
    if 0 ≤ e then n < d * 2 ^ e.toNat else n * 2 ^ (-e).toNat < d
  if below then e - 1 else e

/-- The double nearest to `n / d` as a significand below `2 ^ 53` over a power of two, or nothing
if it is beyond the largest one. -/
def nearest? (n d : Nat) : Option (Nat × Int) :=
  if n = 0 then some (0, -1074)
  else
    let exponent := max (magnitude n d - 52) (-1074)
    let m := inUnits n d exponent
    let (m, exponent) :=
      if m = 2 ^ (53 : Nat) then (2 ^ (52 : Nat), exponent + 1) else (m, exponent)
    if exponent ≤ 971 then some (m, exponent) else none

def compareUnits (c : Nat) (k : Int) (u : Nat) (e : Int) : Ordering :=
  compare (c * 10 ^ k.toNat * 2 ^ (-e).toNat) (u * 2 ^ e.toNat * 10 ^ (-k).toNat)

def readsBack (m : Nat) (e : Int) (c : Nat) (k : Int) : Bool :=
  let low := if m = 2 ^ (52 : Nat) ∧ -1074 < e then 4 * m - 1 else 4 * m - 2
  let above := compareUnits c k low (e - 2)
  let below := compareUnits c k (4 * m + 2) (e - 2)
  if m % 2 = 0 then above != .lt && below != .gt else above == .gt && below == .lt

def leading (m : Nat) (e : Int) : Int :=
  let scaled := m * 2 ^ e.toNat * 10 ^ (400 : Nat) / 2 ^ (-e).toNat
  (Nat.toDigits 10 scaled).length - 401

/-- The multiple of `10 ^ k` next to `m * 2 ^ e` on either side that reads back, the nearer one if
both do. -/
def onGrid? (m : Nat) (e k : Int) : Option Nat :=
  let floor := m * 2 ^ e.toNat * 10 ^ (-k).toNat / (2 ^ (-e).toNat * 10 ^ k.toNat)
  match readsBack m e floor k, readsBack m e (floor + 1) k with
  | true, true =>
    some (if compareUnits (2 * floor + 1) k (2 * m) e == .lt then floor + 1 else floor)
  | true, false => some floor
  | false, true => some (floor + 1)
  | false, false => none

def withoutZeros (n : Nat) (k : Int) : Nat → Nat × Int
  | 0 => (n, k)
  | count + 1 => if n % 10 = 0 then withoutZeros (n / 10) (k + 1) count else (n, k)

/-- The fewest digits that read back as the double `m * 2 ^ e`, and the exponent of the last one.
Seventeen digits are always enough. -/
def shortest (m : Nat) (e : Int) : Nat × Int :=
  if m = 0 then (0, 0)
  else
    let top := leading m e
    let found := (List.range 17).findSome? fun n : Nat =>
      (onGrid? m e (top - n)).map fun c => (c, top - n)
    match found with
    | some (c, k) => withoutZeros c k 17
    | none => (0, 0)

def shortestOf? (digits : Nat) (exponent : Int) : Option (Nat × Int) :=
  let size := (Nat.toDigits 10 digits).length + exponent
  if digits = 0 ∨ size < -400 then some (0, 0)
  else if 400 < size then none
  else
    (nearest? (digits * 10 ^ exponent.toNat) (10 ^ (-exponent).toNat)).map fun (m, e) =>
      shortest m e

end Payroll.Binary64
