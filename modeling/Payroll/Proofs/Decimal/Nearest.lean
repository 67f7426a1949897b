import Mathlib.Data.Nat.Find
import Mathlib.Data.Rat.Floor
import Mathlib.Tactic.FieldSimp
import Mathlib.Tactic.Linarith
import Mathlib.Tactic.Positivity
import Mathlib.Tactic.Ring
import Payroll.Decimal.Arithmetic

/-!
# Nearest decimals

The number that 96 bits leave of a rational: as many digits after the point as fit, the last one
rounded with halves to even. Which decimals a number was computed from plays no part in it, so an
operation that is known to answer the nearest decimal answers by value.
-/

set_option autoImplicit false

namespace Payroll

namespace Rounding

/-- The nearest integer; a half goes to the even neighbour. -/
def toEven (x : ℚ) : ℤ :=
  let n := ⌊x⌋
  if x - n < 1 / 2 then n
  else if 1 / 2 < x - n then n + 1
  else if n % 2 = 0 then n else n + 1

def IsNearest (x : ℚ) (n : ℤ) : Prop :=
  |x - n| < 1 / 2 ∨ |x - n| = 1 / 2 ∧ n % 2 = 0

theorem isNearest_of_le {x : ℚ} {m : ℤ} (hm : m ≤ x)
    (h : x - m < 1 / 2 ∨ x - m = 1 / 2 ∧ m % 2 = 0) : IsNearest x m := by
  unfold IsNearest
  rwa [abs_of_nonneg (sub_nonneg.mpr hm)]

theorem isNearest_succ_of_le {x : ℚ} {m : ℤ} (hm : x ≤ m + 1)
    (h : 1 / 2 < x - m ∨ x - m = 1 / 2 ∧ m % 2 = 1) : IsNearest x (m + 1) := by
  have hdist : |x - ((m + 1 : ℤ) : ℚ)| = 1 - (x - m) := by
    push_cast
    rw [abs_of_nonpos (by linarith)]
    ring
  unfold IsNearest
  rw [hdist]
  rcases h with h | ⟨h, hodd⟩
  · exact .inl (by linarith)
  · exact .inr ⟨by linarith, by omega⟩

theorem toEven_isNearest (x : ℚ) : IsNearest x (toEven x) := by
  have hlow := Int.floor_le x
  have hhigh := (Int.lt_floor_add_one x).le
  unfold toEven
  dsimp only
  split
  next h => exact isNearest_of_le hlow (.inl h)
  next h =>
    split
    next h' => exact isNearest_succ_of_le hhigh (.inl h')
    next h' =>
      have hhalf : x - ⌊x⌋ = 1 / 2 := le_antisymm (not_lt.mp h') (not_lt.mp h)
      split
      next heven => exact isNearest_of_le hlow (.inr ⟨hhalf, heven⟩)
      next hodd => exact isNearest_succ_of_le hhigh (.inr ⟨hhalf, by omega⟩)

theorem IsNearest.dist_le {x : ℚ} {n : ℤ} (h : IsNearest x n) : |x - n| ≤ 1 / 2 := by
  rcases h with h | ⟨h, _⟩
  · exact le_of_lt h
  · exact le_of_eq h

/-- Two nearest integers are neighbours at the distance of a half, and only one of them is even. -/
theorem IsNearest.not_succ {x : ℚ} {n : ℤ} (h : IsNearest x n) : ¬IsNearest x (n + 1) := by
  intro hsucc
  have hlow := abs_le.mp h.dist_le
  have hhigh := abs_le.mp hsucc.dist_le
  push_cast at hhigh
  have hhalf : x - n = 1 / 2 := by linarith
  rcases h with h | ⟨_, heven⟩
  · rw [hhalf] at h
    norm_num at h
  · rcases hsucc with hsucc | ⟨_, heven'⟩
    · rw [show x - ((n + 1 : ℤ) : ℚ) = -(1 / 2) by push_cast; linarith] at hsucc
      norm_num at hsucc
    · omega

theorem IsNearest.unique {x : ℚ} {m n : ℤ} (hm : IsNearest x m) (hn : IsNearest x n) : m = n := by
  have hmx := abs_le.mp hm.dist_le
  have hnx := abs_le.mp hn.dist_le
  have hle : ((m - n : ℤ) : ℚ) ≤ 1 := by push_cast; linarith
  have hge : (-1 : ℚ) ≤ ((m - n : ℤ) : ℚ) := by push_cast; linarith
  have hle' : m - n ≤ 1 := by exact_mod_cast hle
  have hge' : -1 ≤ m - n := by exact_mod_cast hge
  by_contra hne
  rcases (by omega : m = n + 1 ∨ n = m + 1) with rfl | rfl
  · exact hn.not_succ hm
  · exact hm.not_succ hn

theorem toEven_eq {x : ℚ} {n : ℤ} (h : IsNearest x n) : toEven x = n :=
  (toEven_isNearest x).unique h

@[simp] theorem toEven_intCast (n : ℤ) : toEven n = n := by
  refine toEven_eq (Or.inl ?_)
  rw [sub_self]
  norm_num

@[simp] theorem toEven_natCast (n : ℕ) : toEven n = n := by
  have h := toEven_intCast n
  rwa [Int.cast_natCast] at h

theorem toEven_neg (x : ℚ) : toEven (-x) = -toEven x := by
  refine toEven_eq ?_
  have habs : |(-x) - ((-toEven x : ℤ) : ℚ)| = |x - toEven x| := by
    rw [← abs_neg]
    congr 1
    push_cast
    ring
  rcases toEven_isNearest x with h | ⟨h, heven⟩
  · exact Or.inl (by rw [habs]; exact h)
  · exact Or.inr ⟨by rw [habs]; exact h, by omega⟩

theorem toEven_mono {x y : ℚ} (h : x ≤ y) : toEven x ≤ toEven y := by
  by_contra hlt
  have hx := abs_le.mp (toEven_isNearest x).dist_le
  have hy := abs_le.mp (toEven_isNearest y).dist_le
  have hstep : ((toEven y + 1 : ℤ) : ℚ) ≤ toEven x := by exact_mod_cast (by omega)
  push_cast at hstep
  -- The two numbers meet halfway between the two integers, so they are equal.
  have heq : x = y := by linarith
  rw [heq] at hlt
  exact hlt (le_refl _)

theorem toEven_nonneg {x : ℚ} (h : 0 ≤ x) : 0 ≤ toEven x := by
  have := toEven_mono h
  rwa [← Int.cast_zero, toEven_intCast] at this

theorem toEven_abs (x : ℚ) : toEven |x| = |toEven x| := by
  rcases le_total 0 x with h | h
  · rw [abs_of_nonneg h, abs_of_nonneg (toEven_nonneg h)]
  · have hneg := toEven_nonneg (neg_nonneg.mpr h)
    rw [toEven_neg] at hneg
    rw [abs_of_nonpos h, toEven_neg, abs_of_nonpos (by omega)]

theorem natAbs_toEven_le {x y : ℚ} (h : |x| ≤ |y|) : (toEven x).natAbs ≤ (toEven y).natAbs := by
  have hmono := toEven_mono h
  rw [toEven_abs, toEven_abs, Int.abs_eq_natAbs, Int.abs_eq_natAbs] at hmono
  exact_mod_cast hmono

section
variable (n : ℕ) {k d : ℕ} (hd : 0 < d)
include hd

theorem natCast_div_eq : (n : ℚ) / d = (n / d : ℕ) + ((n % d : ℕ) : ℚ) / d := by
  have hdq : (d : ℚ) ≠ 0 := by exact_mod_cast hd.ne'
  have h : (n : ℚ) = d * (n / d : ℕ) + (n % d : ℕ) := by exact_mod_cast (Nat.div_add_mod n d).symm
  nth_rewrite 1 [h]
  field_simp

theorem div_lt_half_iff : (k : ℚ) / d < 1 / 2 ↔ 2 * k < d := by
  rw [div_lt_div_iff₀ (by exact_mod_cast hd) two_pos, one_mul, mul_comm]
  norm_cast

theorem half_lt_div_iff : 1 / 2 < (k : ℚ) / d ↔ d < 2 * k := by
  rw [div_lt_div_iff₀ two_pos (by exact_mod_cast hd), one_mul, mul_comm]
  norm_cast

theorem div_eq_half_iff : (k : ℚ) / d = 1 / 2 ↔ 2 * k = d := by
  rw [div_eq_div_iff (by exact_mod_cast hd.ne') two_ne_zero, one_mul, mul_comm]
  norm_cast

/-- The rounding of quotients of natural numbers is the rounding of rationals. -/
theorem halfEven_eq_toEven : ((halfEven n d : ℕ) : ℤ) = toEven ((n : ℚ) / d) := by
  have hsplit := natCast_div_eq n hd
  have hdiff : (n : ℚ) / d - ((n / d : ℕ) : ℤ) = ((n % d : ℕ) : ℚ) / d := by
    rw [hsplit, Int.cast_natCast, add_sub_cancel_left]
  symm
  apply toEven_eq
  unfold halfEven
  dsimp only
  split
  next hup =>
    rw [Nat.cast_add_one]
    refine isNearest_succ_of_le ?_ ?_
    · have hlast : ((n % d : ℕ) : ℚ) / d ≤ 1 := by
        rw [div_le_one (by exact_mod_cast hd)]
        exact_mod_cast (Nat.mod_lt n hd).le
      rw [hsplit, Int.cast_natCast]
      exact add_le_add_right hlast _
    · rw [hdiff, half_lt_div_iff hd, div_eq_half_iff hd]
      exact hup.imp id fun h => ⟨h.1, by omega⟩
  next hdown =>
    refine isNearest_of_le ?_ ?_
    · rw [hsplit, Int.cast_natCast]
      exact le_add_of_nonneg_right (by positivity)
    · rw [hdiff, div_lt_half_iff hd, div_eq_half_iff hd]
      omega

end

end Rounding

namespace Decimal

open Rounding

/-- Whether a rational, rounded to so many digits after the point, fits 96 bits. -/
def Fits (x : ℚ) (places : ℕ) : Prop := (toEven (x * 10 ^ places)).natAbs < capacity

instance (x : ℚ) : DecidablePred (Fits x) :=
  fun places => inferInstanceAs (Decidable ((toEven (x * 10 ^ places)).natAbs < capacity))

/-- A number that no decimal is next to. -/
def TooLarge (x : ℚ) : Prop := (2 : ℚ) ^ 96 - 1 / 2 ≤ |x|

/-- What 96 bits leave of a rational; nothing of one that is too large. -/
def nearest? (x : ℚ) : Option ℚ :=
  let places := Nat.findGreatest (Fits x) maxScale
  if Fits x places then some ((toEven (x * 10 ^ places) : ℚ) / 10 ^ places) else none

section
variable {x : ℚ} {s t : ℕ}

theorem Fits.of_le (h : Fits x t) (hst : s ≤ t) : Fits x s := by
  refine lt_of_le_of_lt (natAbs_toEven_le ?_) h
  rw [abs_mul, abs_mul]
  refine mul_le_mul_of_nonneg_left ?_ (abs_nonneg x)
  rw [abs_of_pos (by positivity), abs_of_pos (by positivity)]
  exact pow_le_pow_right₀ (by norm_num) hst

theorem fits_of_mul_eq {n : ℤ} (h : x * 10 ^ t = n) (hn : n.natAbs < capacity) : Fits x t := by
  unfold Fits
  rwa [h, toEven_intCast]

theorem not_fits_of_le {m : ℕ} (hm : capacity ≤ m) (h : (m : ℚ) ≤ x * 10 ^ t) : ¬ Fits x t := by
  intro hfit
  have hmono := toEven_mono h
  rw [toEven_natCast] at hmono
  unfold Fits at hfit
  omega

theorem nearest?_eq_some (ht : t ≤ maxScale) (hfit : Fits x t)
    (hlast : t = maxScale ∨ ¬ Fits x (t + 1)) :
    nearest? x = some ((toEven (x * 10 ^ t) : ℚ) / 10 ^ t) := by
  have hplaces : Nat.findGreatest (Fits x) maxScale = t := by
    refine Nat.findGreatest_eq_iff.mpr ⟨ht, fun _ => hfit, ?_⟩
    intro u htu hu hfits
    rcases hlast with rfl | hnot
    · omega
    · exact hnot (hfits.of_le htu)
  unfold nearest?
  rw [hplaces, if_pos hfit]

theorem nearest?_eq_none_iff : nearest? x = none ↔ ¬ Fits x 0 := by
  unfold nearest?
  dsimp only
  constructor
  · intro h hfit
    have hspec := Nat.findGreatest_spec (P := Fits x) (Nat.zero_le maxScale) hfit
    rw [if_pos hspec] at h
    cases h
  · intro h
    exact if_neg fun hfit => h (hfit.of_le (Nat.zero_le _))

/-- Halfway between the largest magnitude and the capacity, numbers begin to be too large. -/
theorem nearest?_eq_none_iff_tooLarge : nearest? x = none ↔ TooLarge x := by
  rw [nearest?_eq_none_iff]
  unfold Fits TooLarge
  rw [pow_zero, mul_one, not_lt]
  have hcap : ((capacity : ℕ) : ℤ) = toEven ((2 : ℚ) ^ 96 - 1 / 2) := by
    refine (toEven_eq (Or.inr ⟨?_, by decide⟩)).symm
    norm_num [capacity]
  have habs : ((toEven x).natAbs : ℤ) = toEven |x| := by
    rw [toEven_abs, Int.abs_eq_natAbs]
  constructor
  · intro h
    by_contra hlt
    have hdist := abs_le.mp (toEven_isNearest |x|).dist_le
    have hle : ((capacity : ℕ) : ℚ) ≤ toEven |x| := by
      rw [← habs]
      exact_mod_cast h
    norm_num [capacity] at hle hlt
    linarith
  · intro h
    have hmono := toEven_mono h
    rw [← hcap, ← habs] at hmono
    exact_mod_cast hmono

theorem not_tooLarge (h : |x| ≤ 2 ^ 96 - 1) : ¬TooLarge x := by
  intro hlarge
  unfold TooLarge at hlarge
  linarith

theorem nearest?_ne_none (h : |x| ≤ 2 ^ 96 - 1) : nearest? x ≠ none :=
  mt nearest?_eq_none_iff_tooLarge.mp (not_tooLarge h)

theorem abs_sub_le_of_nearest? {y : ℚ} (h : nearest? x = some y) : |y - x| ≤ 1 / 2 := by
  unfold nearest? at h
  dsimp only at h
  split at h
  · cases h
    generalize Nat.findGreatest (Fits x) maxScale = t
    have hpow : (1 : ℚ) ≤ 10 ^ t := one_le_pow₀ (by norm_num)
    have hdist := (toEven_isNearest (x * 10 ^ t)).dist_le
    have heq : (toEven (x * 10 ^ t) : ℚ) / 10 ^ t - x =
        -(x * 10 ^ t - toEven (x * 10 ^ t)) / 10 ^ t := by
      field_simp
      ring
    rw [heq, abs_div, abs_neg, abs_of_pos (by positivity : (0 : ℚ) < 10 ^ t)]
    exact (div_le_self (abs_nonneg _) hpow).trans hdist
  · cases h

theorem nearest?_of_mul_eq {n : ℤ} (ht : t ≤ maxScale) (h : x * 10 ^ t = n)
    (hn : n.natAbs < capacity) : nearest? x = some x := by
  have hfit := fits_of_mul_eq h hn
  have hle : t ≤ Nat.findGreatest (Fits x) maxScale := Nat.le_findGreatest ht hfit
  have hspec := Nat.findGreatest_spec (P := Fits x) ht hfit
  unfold nearest?
  dsimp only
  rw [if_pos hspec]
  -- Behind the last digit the product with a power of ten stays whole.
  obtain ⟨k, hk⟩ := Nat.exists_eq_add_of_le hle
  rw [hk]
  have hwhole : x * 10 ^ (t + k) = ((n * 10 ^ k : ℤ) : ℚ) := by
    rw [pow_add, ← mul_assoc, h]
    push_cast
    rfl
  rw [hwhole, toEven_intCast, ← hwhole]
  congr 1
  field_simp

theorem pos_and_le_one_of_nearest? {y : ℚ} (hlow : 1 ≤ x * 10 ^ 28) (hhigh : x ≤ 1)
    (h : nearest? x = some y) : 0 < y ∧ y ≤ 1 := by
  have hone : toEven 1 = 1 := by exact_mod_cast toEven_natCast 1
  have hten : toEven (10 ^ 28) = 10 ^ 28 := by exact_mod_cast toEven_natCast (10 ^ 28)
  have hdigitsLow := toEven_mono hlow
  have hdigitsHigh := toEven_mono (show x * 10 ^ 28 ≤ 10 ^ 28 by linarith)
  rw [hone] at hdigitsLow
  rw [hten] at hdigitsHigh
  have hfits : Fits x 28 := by
    unfold Fits capacity
    omega
  rw [nearest?_eq_some (le_refl 28) hfits (.inl rfl)] at h
  cases h
  have hlowCast : (1 : ℚ) ≤ toEven (x * 10 ^ 28) := by exact_mod_cast hdigitsLow
  have hhighCast : (toEven (x * 10 ^ 28) : ℚ) ≤ 10 ^ 28 := by exact_mod_cast hdigitsHigh
  constructor
  · positivity
  · rw [div_le_one (by positivity)]
    exact hhighCast

theorem nearest?_neg (x : ℚ) : nearest? (-x) = (nearest? x).map (-·) := by
  have hfits (t : ℕ) : Fits (-x) t ↔ Fits x t := by
    unfold Fits
    rw [neg_mul, toEven_neg, Int.natAbs_neg]
  have hplaces : Nat.findGreatest (Fits (-x)) maxScale = Nat.findGreatest (Fits x) maxScale := by
    congr 1
    funext t
    exact propext (hfits t)
  unfold nearest?
  dsimp only
  rw [hplaces]
  by_cases h : Fits x (Nat.findGreatest (Fits x) maxScale)
  · rw [if_pos h, if_pos ((hfits _).mpr h), Option.map_some, neg_mul, toEven_neg]
    push_cast
    rw [neg_div]
  · rw [if_neg h, if_neg (mt (hfits _).mp h), Option.map_none]

end

end Decimal

end Payroll
