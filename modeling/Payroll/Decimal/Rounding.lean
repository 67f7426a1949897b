import Payroll.Decimal.Basic

/-!
# Rounding

Rounding a quotient of natural numbers to a whole number, and dropping digits of a decimal. Signs do
not matter: a negative amount is rounded like its magnitude.
-/

set_option autoImplicit false

namespace Payroll

-- Powers are those of core, whatever other instances there are.
attribute [local instance (2000)] instPowNat

namespace Rounding

def halfEven (n d : Nat) : Nat :=
  let q := n / d
  let r := n % d
  if 2 * r > d ∨ (2 * r = d ∧ q % 2 = 1) then q + 1 else q

def halfUp (n d : Nat) : Nat :=
  let q := n / d
  let r := n % d
  if 2 * r ≥ d then q + 1 else q

def signed (round : Nat → Nat) (n : Int) : Int :=
  if n < 0 then -(round n.natAbs : Int) else round n.natAbs

theorem halfUp_le (n : Nat) {d : Nat} (h : 2 ≤ d) : halfUp n d ≤ n ∨ n = 0 ∧ halfUp n d = 0 := by
  unfold halfUp
  have hm := Nat.div_add_mod n d
  have hr := Nat.mod_lt n (by omega : 0 < d)
  have hq : 2 * (n / d) ≤ d * (n / d) := Nat.mul_le_mul_right _ h
  by_cases h0 : n / d = 0
  · dsimp only
    split <;> omega
  · dsimp only
    split <;> omega

end Rounding

namespace Decimal

open Rounding

theorem halfUp_pow_le (n k : Nat) (h : 0 < k) : halfUp n (10 ^ k) ≤ n := by
  have h10 : 2 ≤ 10 ^ k :=
    Nat.le_trans (by decide : 2 ≤ 10 ^ (1 : Nat)) (Nat.pow_le_pow_right (by decide) h)
  rcases halfUp_le n h10 with h | ⟨hn, h⟩ <;> omega

/-- Drops digits behind `places` digits after the point, halves away from zero. The sign stays. -/
def shorten (a : Decimal) (places : Nat) : Decimal :=
  if h : places < a.scale then
    { a with
      magnitude := halfUp a.magnitude (10 ^ (a.scale - places))
      scale := places
      magnitude_lt := Nat.lt_of_le_of_lt (halfUp_pow_le _ _ (by omega)) a.magnitude_lt
      scale_le := by have := a.scale_le; omega }
  else a

/-- Rounds to at most `places` digits after the point, halves away from zero. An amount that becomes
zero loses its sign; a zero keeps it. -/
def roundPlaces (a : Decimal) (places : Nat) : Decimal :=
  let rounded := a.shorten places
  if rounded.isZero && !a.isZero then rounded.abs else rounded

def roundCents (a : Decimal) : Decimal := a.roundPlaces 2

def roundUnits (a : Decimal) : Decimal := a.roundPlaces 0

end Decimal

end Payroll
