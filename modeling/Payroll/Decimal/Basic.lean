/-!
# Decimals

An amount is a sign, a magnitude below `2 ^ 96` and a power of ten up to `10 ^ 28`. The scale is
part of the amount (`3.5` and `3.50` print differently) and so is the sign of a zero, but amounts
are compared by value.
-/

set_option autoImplicit false

namespace Payroll

-- Powers are those of core, whatever other instances there are.
attribute [local instance (2000)] instPowNat

/-- The magnitude fits 96 bits. A zero may be negative, which shows only where it is written. -/
structure Decimal where
  negative : Bool
  magnitude : Nat
  scale : Nat
  magnitude_lt : magnitude < 2 ^ (96 : Nat)
  scale_le : scale ≤ 28
deriving DecidableEq

namespace Decimal

def capacity : Nat := 2 ^ (96 : Nat)

def maxScale : Nat := 28

def coefficient (a : Decimal) : Int := if a.negative then -(a.magnitude : Int) else a.magnitude

theorem natAbs_coefficient (a : Decimal) : a.coefficient.natAbs = a.magnitude := by
  unfold coefficient
  split <;> omega

theorem ext {a b : Decimal} (hn : a.negative = b.negative) (hm : a.magnitude = b.magnitude)
    (hs : a.scale = b.scale) : a = b := by
  cases a
  cases b
  simp_all

/-- The decimal with these parts, if both are in range. A zero has no sign. -/
def ofParts? (coefficient : Int) (scale : Nat) : Option Decimal :=
  if h : coefficient.natAbs < 2 ^ (96 : Nat) ∧ scale ≤ 28 then
    some ⟨decide (coefficient < 0), coefficient.natAbs, scale, h.1, h.2⟩
  else none

theorem ofParts?_eq_some_iff {c : Int} {s : Nat} {d : Decimal} :
    ofParts? c s = some d ↔
      d.coefficient = c ∧ d.scale = s ∧ (d.magnitude = 0 → d.negative = false) := by
  constructor
  · intro h
    unfold ofParts? at h
    split at h
    · cases h
      by_cases hc : c < 0
      · refine ⟨?_, rfl, ?_⟩
        · simp only [coefficient, hc, decide_true, if_true]
          omega
        · intro h0
          dsimp only at h0
          omega
      · refine ⟨?_, rfl, ?_⟩
        · simp only [coefficient, hc, decide_false, Bool.false_eq_true, if_false]
          omega
        · intro _
          exact decide_eq_false hc
    · cases h
  · rintro ⟨rfl, rfl, hz⟩
    have hm := natAbs_coefficient d
    unfold ofParts?
    rw [dif_pos ⟨by rw [hm]; exact d.magnitude_lt, d.scale_le⟩]
    refine congrArg some (ext ?_ hm rfl)
    cases hn : d.negative
    · simp [coefficient, hn]
    · have : d.magnitude ≠ 0 := fun h => by simp [hz h] at hn
      simp [coefficient, hn]
      omega

def zero : Decimal := ⟨false, 0, 0, by decide, by decide⟩
def one : Decimal := ⟨false, 1, 0, by decide, by decide⟩
def hundred : Decimal := ⟨false, 100, 0, by decide, by decide⟩

instance : Inhabited Decimal := ⟨zero⟩

def isZero (a : Decimal) : Bool := a.magnitude = 0

def neg (a : Decimal) : Decimal := { a with negative := !a.negative }

def abs (a : Decimal) : Decimal := { a with negative := false }

instance : Neg Decimal := ⟨neg⟩

/-- The coefficient after writing the decimal with `scale` digits after the point, for a `scale`
not below its own. -/
def atScale (a : Decimal) (scale : Nat) : Int :=
  a.coefficient * 10 ^ (scale - a.scale)

def value (a : Decimal) : Rat := mkRat a.coefficient (10 ^ a.scale)

def le (a b : Decimal) : Bool :=
  a.coefficient * 10 ^ b.scale ≤ b.coefficient * 10 ^ a.scale

def lt (a b : Decimal) : Bool := !le b a

def same (a b : Decimal) : Bool :=
  a.coefficient * 10 ^ b.scale = b.coefficient * 10 ^ a.scale

def min (a b : Decimal) : Decimal := if le a b then a else b

def max (a b : Decimal) : Decimal := if le b a then a else b

/-- The smallest of some values; of equal ones the first. -/
def minimum : List Decimal → Decimal
  | [] => zero
  | a :: rest => rest.foldl min a

/-- The largest of some values; of equal ones the last. -/
def maximum : List Decimal → Decimal
  | [] => zero
  | a :: rest => rest.foldl (fun best b => if le best b then b else best) a

def stripZeros (magnitude : Nat) : Nat → Nat × Nat
  | 0 => (magnitude, 0)
  | scale + 1 =>
    if magnitude % 10 = 0 then stripZeros (magnitude / 10) scale else (magnitude, scale + 1)

theorem stripZeros_le (m s : Nat) : (stripZeros m s).1 ≤ m := by
  induction s generalizing m with
  | zero => exact Nat.le_refl _
  | succ s ih =>
    unfold stripZeros
    split
    · exact Nat.le_trans (ih _) (Nat.div_le_self m 10)
    · exact Nat.le_refl _

theorem stripZeros_scale_le (m s : Nat) : (stripZeros m s).2 ≤ s := by
  induction s generalizing m with
  | zero => exact Nat.le_refl _
  | succ s ih =>
    unfold stripZeros
    split
    · exact Nat.le_trans (ih _) (Nat.le_succ s)
    · exact Nat.le_refl _

/-- The same value with the fewest digits after the point. A zero loses its sign. -/
def normalize (a : Decimal) : Decimal :=
  ⟨a.negative && !a.isZero, (stripZeros a.magnitude a.scale).1, (stripZeros a.magnitude a.scale).2,
    Nat.lt_of_le_of_lt (stripZeros_le _ _) a.magnitude_lt,
    Nat.le_trans (stripZeros_scale_le _ _) a.scale_le⟩

end Decimal

end Payroll
