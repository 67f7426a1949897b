import Payroll.Proofs.Decimal.Quotient

/-!
# Larger amounts

What 96 bits leave of a number grows with it, though fewer places fit a larger number: where a place
is lost, the larger number has outgrown whatever fits with that place. So sums, differences and
products, hundredths and roundings to places keep the order of their operands.
-/

set_option autoImplicit false

namespace Payroll.Decimal

open Rounding

section
variable {x y a b : ℚ}

/-- What is left of a number, at the last of the places that fit. -/
theorem nearest?_spec (h : nearest? x = some a) :
    ∃ t, t ≤ maxScale ∧ Fits x t ∧ (∀ u, t < u → u ≤ maxScale → ¬Fits x u) ∧
      a * 10 ^ t = toEven (x * 10 ^ t) := by
  unfold nearest? at h
  dsimp only at h
  split at h
  · next hfit =>
    cases h
    refine ⟨_, Nat.findGreatest_le maxScale, hfit, fun u => Nat.findGreatest_is_greatest, ?_⟩
    field_simp
  · cases h

/-- A number that does not fit with one more place is, rounded, at least a tenth of the capacity. -/
theorem capacity_le_of_not_fits {t : ℕ} (hx : 0 ≤ x) (h : ¬Fits x (t + 1)) :
    (capacity : ℚ) ≤ 10 * toEven (x * 10 ^ t) := by
  have hnonneg : 0 ≤ toEven (x * 10 ^ (t + 1)) := toEven_nonneg (by positivity)
  have hcapacity : (capacity : ℤ) ≤ toEven (x * 10 ^ (t + 1)) := by
    unfold Fits at h
    omega
  have hcapacity : (capacity : ℚ) ≤ toEven (x * 10 ^ (t + 1)) := by exact_mod_cast hcapacity
  have hlong := abs_le.mp (toEven_isNearest (x * 10 ^ (t + 1))).dist_le
  have hshort := abs_le.mp (toEven_isNearest (x * 10 ^ t)).dist_le
  rw [pow_succ, ← mul_assoc] at hcapacity hlong
  -- Both roundings together miss less than what the capacity is above a multiple of ten.
  have hmissed : 2 * (capacity : ℚ) - 11 ≤ 20 * toEven (x * 10 ^ t) := by linarith
  have hmissed : 2 * (capacity : ℤ) - 11 ≤ 20 * toEven (x * 10 ^ t) := by exact_mod_cast hmissed
  have hten : (capacity : ℤ) ≤ 10 * toEven (x * 10 ^ t) := by
    unfold capacity at hmissed ⊢
    omega
  exact_mod_cast hten

theorem le_of_nearest?_of_nonneg (hx : 0 ≤ x) (hxy : x ≤ y) (ha : nearest? x = some a)
    (hb : nearest? y = some b) : a ≤ b := by
  obtain ⟨t, ht, hfit, hlast, ha⟩ := nearest?_spec ha
  obtain ⟨u, hu, hfit', hlast', hb⟩ := nearest?_spec hb
  have hmono (s : ℕ) : toEven (x * 10 ^ s) ≤ toEven (y * 10 ^ s) := by
    apply toEven_mono
    gcongr
  rcases lt_trichotomy t u with htu | rfl | hut
  · have hfits : Fits x u := by
      have hnonneg : 0 ≤ toEven (x * 10 ^ u) := toEven_nonneg (by positivity)
      have hle := hmono u
      unfold Fits at hfit' ⊢
      omega
    exact absurd hfits (hlast u htu hu)
  · refine le_of_mul_le_mul_right ?_ (by positivity : (0 : ℚ) < 10 ^ t)
    rw [ha, hb]
    exact_mod_cast hmono t
  · -- The smaller number is below the capacity at a place that the larger one has lost.
    have hsmall : a * 10 ^ t ≤ capacity := by
      rw [ha]
      unfold Fits at hfit
      exact_mod_cast (by omega : toEven (x * 10 ^ t) ≤ capacity)
    have hlarge : (capacity : ℚ) ≤ b * 10 ^ (u + 1) := by
      have h := capacity_le_of_not_fits (hx.trans hxy) (hlast' (u + 1) (by omega) (by omega))
      rw [← hb] at h
      rw [pow_succ]
      linarith
    have hpow : (10 : ℚ) ^ (u + 1) ≤ 10 ^ t := pow_le_pow_right₀ (by norm_num) hut
    have hnonneg : 0 ≤ b :=
      nonneg_of_mul_nonneg_left ((Nat.cast_nonneg capacity).trans hlarge) (by positivity)
    refine le_of_mul_le_mul_right ?_ (by positivity : (0 : ℚ) < 10 ^ t)
    calc a * 10 ^ t ≤ capacity := hsmall
      _ ≤ b * 10 ^ (u + 1) := hlarge
      _ ≤ b * 10 ^ t := by gcongr

theorem nearest?_zero : nearest? 0 = some 0 := by
  have h := nearest?_value zero
  rwa [value_zero] at h

theorem nearest?_mono (hxy : x ≤ y) (ha : nearest? x = some a) (hb : nearest? y = some b) :
    a ≤ b := by
  rcases le_total 0 x with hx | hx
  · exact le_of_nearest?_of_nonneg hx hxy ha hb
  · -- A number below zero is the mirror image of one above.
    have ha' : nearest? (-x) = some (-a) := by
      rw [nearest?_neg, ha]
      rfl
    rcases le_total 0 y with hy | hy
    · have hnonpos := le_of_nearest?_of_nonneg le_rfl (neg_nonneg.mpr hx) nearest?_zero ha'
      have hnonneg := le_of_nearest?_of_nonneg le_rfl hy nearest?_zero hb
      linarith
    · have hb' : nearest? (-y) = some (-b) := by
        rw [nearest?_neg, hb]
        rfl
      have hle := le_of_nearest?_of_nonneg (neg_nonneg.mpr hy) (neg_le_neg hxy) hb' ha'
      linarith

theorem nearest?_nonneg (hx : 0 ≤ x) (ha : nearest? x = some a) : 0 ≤ a :=
  nearest?_mono hx nearest?_zero ha

theorem toAway_mono (hxy : x ≤ y) : toAway x ≤ toAway y := by
  unfold toAway
  split
  · next hx =>
    have hneg : 0 ≤ ⌊-x + 1 / 2⌋ := Int.floor_nonneg.mpr (by linarith)
    split
    · exact neg_le_neg (Int.floor_mono (by linarith))
    · next hy =>
      have hpos : 0 ≤ ⌊y + 1 / 2⌋ := Int.floor_nonneg.mpr (by linarith)
      linarith
  · rw [if_neg (by linarith)]
    exact Int.floor_mono (by linarith)

end

section
variable {a a' b b' c c' : Decimal}

theorem add?_mono (ha : a.value ≤ a'.value) (hb : b.value ≤ b'.value) (hc : a.add? b = some c)
    (hc' : a'.add? b' = some c') : c.value ≤ c'.value :=
  nearest?_mono (add_le_add ha hb) (nearest?_of_eq_some (value_add? a b) hc)
    (nearest?_of_eq_some (value_add? a' b') hc')

theorem le_add? (hb : 0 ≤ b.value) (hc : a.add? b = some c) : a.value ≤ c.value :=
  nearest?_mono (le_add_of_nonneg_right hb) (nearest?_value a)
    (nearest?_of_eq_some (value_add? a b) hc)

theorem sub?_mono (ha : a.value ≤ a'.value) (hc : a.sub? b = some c) (hc' : a'.sub? b = some c') :
    c.value ≤ c'.value :=
  nearest?_mono (sub_le_sub_right ha _) (nearest?_of_eq_some (value_sub? a b) hc)
    (nearest?_of_eq_some (value_sub? a' b) hc')

theorem sub?_nonneg (ha : b.value ≤ a.value) (hc : a.sub? b = some c) : 0 ≤ c.value :=
  nearest?_nonneg (sub_nonneg.mpr ha) (nearest?_of_eq_some (value_sub? a b) hc)

theorem mul?_mono (ha : a.value ≤ a'.value) (hb : 0 ≤ b.value) (hc : a.mul? b = some c)
    (hc' : a'.mul? b = some c') : c.value ≤ c'.value :=
  nearest?_mono (mul_le_mul_of_nonneg_right ha hb) (nearest?_of_eq_some (value_mul? a b) hc)
    (nearest?_of_eq_some (value_mul? a' b) hc')

theorem mul?_nonneg (ha : 0 ≤ a.value) (hb : 0 ≤ b.value) (hc : a.mul? b = some c) :
    0 ≤ c.value :=
  nearest?_nonneg (mul_nonneg ha hb) (nearest?_of_eq_some (value_mul? a b) hc)

theorem div?_hundred_mono (ha : a.value ≤ a'.value) (hc : a.div? hundred = some c)
    (hc' : a'.div? hundred = some c') : c.value ≤ c'.value :=
  nearest?_mono (by linarith) (nearest?_of_eq_some (value_div?_hundred a) hc)
    (nearest?_of_eq_some (value_div?_hundred a') hc')

theorem div?_hundred_nonneg (ha : 0 ≤ a.value) (hc : a.div? hundred = some c) : 0 ≤ c.value :=
  nearest?_nonneg (by positivity) (nearest?_of_eq_some (value_div?_hundred a) hc)

theorem roundPlaces_mono (places : ℕ) (ha : a.value ≤ a'.value) :
    (a.roundPlaces places).value ≤ (a'.roundPlaces places).value := by
  rw [value_roundPlaces, value_roundPlaces]
  have h : toAway (a.value * 10 ^ places) ≤ toAway (a'.value * 10 ^ places) := by
    apply toAway_mono
    gcongr
  gcongr

theorem roundPlaces_of_value_eq_zero (places : ℕ) (ha : a.value = 0) :
    (a.roundPlaces places).value = 0 := by
  have hzero : toAway 0 = 0 := by exact_mod_cast toAway_intCast 0
  rw [value_roundPlaces, ha, zero_mul, hzero]
  simp

theorem roundPlaces_nonneg (places : ℕ) (ha : 0 ≤ a.value) : 0 ≤ (a.roundPlaces places).value := by
  rw [← roundPlaces_of_value_eq_zero places value_zero]
  apply roundPlaces_mono
  rw [value_zero]
  exact ha

end

end Payroll.Decimal
