import Payroll.Proofs.Decimal.Arithmetic

/-!
# Quotients

Long division answers the nearest decimal of the exact quotient. What carries the proof is that the
digits developed so far and the remainder always make up the whole quotient, shifted by the scale.
-/

set_option autoImplicit false

namespace Payroll.Decimal

open Rounding

namespace LongDivision

/-- The digits `q` and the remainder `r` over `d` are all of `x`, at a scale. -/
structure Develops (x : ℚ) (d q r : ℕ) (scale : ℤ) : Prop where
  eq : x * 10 ^ scale = q + (r : ℚ) / d
  r_lt : r < d

/-- A quotient and its scale are what is left of `x`; without a quotient nothing is. -/
def Answers (x : ℚ) : Option (ℕ × ℤ) → Prop
  | some (q, scale) =>
    0 ≤ scale ∧ scale ≤ maxScale ∧ q < capacity ∧ nearest? x = some ((q : ℚ) / 10 ^ scale)
  | none => nearest? x = none

section
variable {x : ℚ} {d q r : ℕ} {scale : ℤ}

theorem Develops.le (h : Develops x d q r scale) : (q : ℚ) ≤ x * 10 ^ scale := by
  rw [h.eq]
  exact le_add_of_nonneg_right (by positivity)

theorem Develops.lt (h : Develops x d q r scale) : x * 10 ^ scale < q + 1 := by
  have hd : (0 : ℚ) < d := by exact_mod_cast lt_of_le_of_lt (Nat.zero_le r) h.r_lt
  have hr : (r : ℚ) / d < 1 := by
    rw [div_lt_one hd]
    exact_mod_cast h.r_lt
  rw [h.eq]
  linarith

theorem Develops.not_fits (h : Develops x d q r scale) {t k : ℕ} (ht : scale + k ≤ t)
    (hq : capacity ≤ q * 10 ^ k) : ¬ Fits x t := by
  refine not_fits_of_le hq ?_
  obtain ⟨j, hj⟩ := Int.eq_ofNat_of_zero_le (sub_nonneg.mpr ht)
  have hpow : x * 10 ^ t = x * 10 ^ scale * 10 ^ k * 10 ^ j := by
    rw [mul_assoc, mul_assoc, ← pow_add, ← zpow_natCast, ← zpow_natCast,
      ← zpow_add₀ (by norm_num)]
    congr 2
    push_cast
    omega
  have hq0 : (q : ℚ) * 10 ^ k ≤ x * 10 ^ scale * 10 ^ k :=
    mul_le_mul_of_nonneg_right h.le (by positivity)
  rw [hpow]
  push_cast
  calc (q : ℚ) * 10 ^ k ≤ x * 10 ^ scale * 10 ^ k := hq0
    _ ≤ x * 10 ^ scale * 10 ^ k * 10 ^ j :=
      le_mul_of_one_le_right (le_trans (by positivity) hq0) (one_le_pow₀ (by norm_num))

theorem Develops.answers_none (h : Develops x d q r scale) {k : ℕ} (hk : scale + k ≤ 0)
    (hq : capacity ≤ q * 10 ^ k) : Answers x none :=
  nearest?_eq_none_iff.mpr (h.not_fits hk hq)

theorem Develops.answers_exact (h : Develops x d q 0 scale) (hq : q < capacity) (h0 : 0 ≤ scale)
    (hscale : scale ≤ maxScale) : Answers x (some (q, scale)) := by
  obtain ⟨t, rfl⟩ := Int.eq_ofNat_of_zero_le h0
  have heq : x * 10 ^ t = ((q : ℤ) : ℚ) := by
    have := h.eq
    rw [zpow_natCast] at this
    rw [this]
    norm_num
  refine ⟨h0, hscale, hq, ?_⟩
  rw [nearest?_of_mul_eq (by exact_mod_cast hscale) heq (by simpa using hq), zpow_natCast]
  congr 1
  rw [eq_div_iff (by positivity), heq, Int.cast_natCast]

theorem Develops.step (h : Develops x d q r scale) (k : ℕ) :
    Develops x d (q * 10 ^ k + r * 10 ^ k / d) (r * 10 ^ k % d) (scale + k) := by
  have hd : 0 < d := lt_of_le_of_lt (Nat.zero_le r) h.r_lt
  have hdq : (d : ℚ) ≠ 0 := by exact_mod_cast hd.ne'
  refine ⟨?_, Nat.mod_lt _ hd⟩
  have hdm : (r : ℚ) * 10 ^ k = d * (r * 10 ^ k / d : ℕ) + (r * 10 ^ k % d : ℕ) := by
    exact_mod_cast (Nat.div_add_mod (r * 10 ^ k) d).symm
  rw [zpow_add₀ (by norm_num), zpow_natCast, ← mul_assoc, h.eq, add_mul, div_mul_eq_mul_div, hdm]
  push_cast
  field_simp
  ring

/-- Ten times fewer digits, rounded; `sticky` tells that the digits were not all. -/
def carried (q : ℕ) (sticky : Bool) : ℕ :=
  if q % 10 > 5 ∨ (q % 10 = 5 ∧ (sticky = true ∨ q / 10 % 2 = 1)) then q / 10 + 1 else q / 10

theorem carried_le (q : ℕ) (sticky : Bool) : carried q sticky ≤ q / 10 + 1 := by
  unfold carried
  split <;> omega

theorem toEven_carried {y : ℚ} {sticky : Bool} (hy : q ≤ 10 * y) (hy' : 10 * y < q + 1)
    (hsticky : sticky = true ↔ (q : ℚ) ≠ 10 * y) : toEven y = carried q sticky := by
  have hq : (q : ℚ) = 10 * (q / 10 : ℕ) + (q % 10 : ℕ) := by
    exact_mod_cast (Nat.div_add_mod q 10).symm
  apply toEven_eq
  unfold carried
  split
  next h =>
    have hlast : ((q % 10 : ℕ) : ℚ) + 1 ≤ 10 := by
      exact_mod_cast Nat.mod_lt q (by norm_num)
    rw [Nat.cast_add_one]
    refine isNearest_succ_of_le ?_ ?_ <;> rw [Int.cast_natCast]
    · linarith
    · rcases h with h | ⟨h, hodd⟩
      · have : (6 : ℚ) ≤ (q % 10 : ℕ) := by exact_mod_cast h
        exact Or.inl (by linarith)
      · have h5 : ((q % 10 : ℕ) : ℚ) = 5 := by exact_mod_cast h
        by_cases hexact : (q : ℚ) = 10 * y
        · have hfalse : ¬ sticky = true := fun hs => hsticky.mp hs hexact
          have hodd' : q / 10 % 2 = 1 := by tauto
          exact Or.inr ⟨by linarith, by omega⟩
        · have hlt : (q : ℚ) < 10 * y := lt_of_le_of_ne hy hexact
          exact Or.inl (by linarith)
  next h =>
    have hlast : (0 : ℚ) ≤ (q % 10 : ℕ) := by positivity
    refine isNearest_of_le ?_ ?_ <;> rw [Int.cast_natCast]
    · linarith
    · by_cases h5 : q % 10 = 5
      · have hnot : ¬ (sticky = true ∨ q / 10 % 2 = 1) := fun hs => h (Or.inr ⟨h5, hs⟩)
        have hexact : (q : ℚ) = 10 * y := by
          by_contra hne
          exact hnot (Or.inl (hsticky.mpr hne))
        have h5' : ((q % 10 : ℕ) : ℚ) = 5 := by exact_mod_cast h5
        exact Or.inr ⟨by linarith, by omega⟩
      · have : ((q % 10 : ℕ) : ℚ) ≤ 4 := by exact_mod_cast (by omega : q % 10 ≤ 4)
        exact Or.inl (by linarith)

/-- One digit fewer is right where no place from the scale on fits. -/
theorem answers_carry? {sticky : Bool} (hnot : ∀ t : ℕ, scale ≤ t → ¬ Fits x t)
    (hround : ∀ t : ℕ, scale = t + 1 → toEven (x * 10 ^ t) = carried q sticky)
    (hq : q < 9 * capacity) (hscale : scale ≤ maxScale) :
    Answers x (carry? q scale sticky) := by
  unfold carry?
  split
  next h => exact nearest?_eq_none_iff.mpr (hnot 0 h)
  next h =>
    obtain ⟨t, ht⟩ := Int.eq_ofNat_of_zero_le (by omega : 0 ≤ scale - 1)
    have hs : scale = t + 1 := by omega
    have heven := hround t hs
    have hlt : carried q sticky < capacity := by
      have := carried_le q sticky
      unfold capacity at hq ⊢
      omega
    have hfit : Fits x t := by
      unfold Fits
      rw [heven]
      simpa using hlt
    have hle : t ≤ maxScale := by
      have : (t : ℤ) + 1 ≤ maxScale := by rw [← hs]; exact hscale
      omega
    refine ⟨by omega, by omega, hlt, ?_⟩
    rw [nearest?_eq_some hle hfit (Or.inr (hnot (t + 1) (by push_cast; omega))), heven, ht]
    simp only [Int.cast_natCast]
    rfl

theorem Develops.answers_carry? (h : Develops x d q r scale) (hq : capacity ≤ q)
    (hq' : q < 9 * capacity) (hscale : scale ≤ maxScale) :
    Answers x (carry? q scale (decide (r ≠ 0))) := by
  have hd : (d : ℚ) ≠ 0 := by exact_mod_cast (lt_of_le_of_lt (Nat.zero_le r) h.r_lt).ne'
  refine LongDivision.answers_carry? ?_ ?_ hq' hscale
  · intro t ht
    exact h.not_fits (k := 0) (by simpa using ht) (by simpa using hq)
  · intro t ht
    have hten : x * 10 ^ scale = 10 * (x * 10 ^ t) := by
      rw [ht, zpow_add₀ (by norm_num), zpow_natCast, zpow_one]
      ring
    have hle := h.le
    have hlt := h.lt
    have heq := h.eq
    rw [hten] at hle hlt heq
    refine toEven_carried hle hlt ?_
    rw [decide_eq_true_iff, not_iff_not]
    constructor
    · rintro rfl
      rw [heq, Nat.cast_zero, zero_div, add_zero]
    · intro hexact
      have hzero : (r : ℚ) / d = 0 := by linarith
      exact_mod_cast (div_eq_zero_iff.mp hzero).resolve_right hd

theorem Develops.toEven_eq {t : ℕ} (h : Develops x d q r t) :
    toEven (x * 10 ^ t) = (if 2 * r > d ∨ (2 * r = d ∧ q % 2 = 1) then q + 1 else q : ℕ) := by
  have hd : 0 < d := lt_of_le_of_lt (Nat.zero_le r) h.r_lt
  have heq : x * 10 ^ t = ((q * d + r : ℕ) : ℚ) / d := by
    have hdq : (d : ℚ) ≠ 0 := by exact_mod_cast hd.ne'
    rw [← zpow_natCast, h.eq]
    push_cast
    field_simp
  have hdiv : (q * d + r) / d = q := by
    rw [Nat.mul_comm, Nat.mul_add_div hd, Nat.div_eq_of_lt h.r_lt, Nat.add_zero]
  have hmod : (q * d + r) % d = r := by
    rw [Nat.mul_comm, Nat.mul_add_mod, Nat.mod_eq_of_lt h.r_lt]
  rw [heq, ← halfEven_eq_toEven _ hd]
  unfold halfEven
  simp only [hdiv, hmod]

/-- Digits that round up to the capacity itself, so that one is given up. -/
theorem answers_carry?_capacity {t : ℕ} (hup : toEven (x * 10 ^ t) = capacity)
    (hlt : x * 10 ^ t < capacity) (hscale : (t : ℤ) ≤ maxScale) :
    Answers x (carry? capacity t true) := by
  refine LongDivision.answers_carry? ?_ ?_ (by decide) hscale
  · intro u hu hfit
    have hfits : Fits x t := hfit.of_le (by exact_mod_cast hu)
    unfold Fits at hfits
    rw [hup, Int.natAbs_natCast] at hfits
    exact lt_irrefl _ hfits
  · intro u hu
    have htu : t = u + 1 := by exact_mod_cast hu
    have hdist := abs_le.mp (toEven_isNearest (x * 10 ^ t)).dist_le
    rw [hup] at hdist
    rw [htu, pow_succ, ← mul_assoc] at hdist hlt
    have hcarry : (((carried capacity true : ℕ) : ℤ) : ℚ) = 7922816251426433759354395034 := by
      norm_num [carried, capacity]
    refine Rounding.toEven_eq (Or.inl ?_)
    rw [hcarry, abs_lt]
    norm_num [capacity] at hdist hlt
    constructor <;> linarith

theorem Develops.answers_close? (h : Develops x d q r scale) (hq : q < capacity) (h0 : 0 ≤ scale)
    (hscale : scale ≤ maxScale) (hlast : scale = maxScale ∨ capacity ≤ q * 10) :
    Answers x (close? q r d scale) := by
  obtain ⟨t, rfl⟩ := Int.eq_ofNat_of_zero_le h0
  have hup := h.toEven_eq
  have hnext : t = maxScale ∨ ¬ Fits x (t + 1) := by
    rcases hlast with hmax | hbig
    · exact Or.inl (by exact_mod_cast hmax)
    · exact Or.inr (h.not_fits (k := 1) (by push_cast; rfl) (by simpa using hbig))
  unfold close?
  dsimp only
  generalize hupdef : (if 2 * r > d ∨ (2 * r = d ∧ q % 2 = 1) then q + 1 else q) = up at hup ⊢
  split
  next hlt =>
    have hfit : Fits x t := by
      unfold Fits
      rw [hup]
      simpa using hlt
    refine ⟨h0, hscale, hlt, ?_⟩
    rw [nearest?_eq_some (by exact_mod_cast hscale) hfit hnext, hup, Int.cast_natCast, zpow_natCast]
  next hge =>
    have hle : up ≤ q + 1 := by
      rw [← hupdef]
      split <;> omega
    have hcap : up = capacity := by omega
    have hlt : x * 10 ^ t < capacity := by
      have hbelow := h.lt
      rw [zpow_natCast] at hbelow
      have hqc : ((q + 1 : ℕ) : ℚ) ≤ capacity := by exact_mod_cast hq
      push_cast at hqc
      linarith
    subst hcap
    exact answers_carry?_capacity hup hlt hscale

theorem find?_reverse_range {p : ℕ → Bool} (h0 : p 0 = true) (n : ℕ) :
    ∃ k, (List.range (n + 1)).reverse.find? p = some k ∧ k ≤ n ∧ p k = true ∧
      ∀ j, k < j → j ≤ n → ¬ p j = true := by
  induction n with
  | zero =>
    refine ⟨0, ?_, le_refl _, h0, ?_⟩
    · simp [List.range_succ, h0]
    · intro j hj hj'
      omega
  | succ n ih =>
    rw [List.range_succ, List.reverse_append, List.reverse_singleton, List.singleton_append]
    by_cases hp : p (n + 1) = true
    · refine ⟨n + 1, List.find?_cons_of_pos hp, le_refl _, hp, ?_⟩
      intro j hj hj'
      omega
    · obtain ⟨k, hfind, hk, hpk, hmax⟩ := ih
      refine ⟨k, ?_, by omega, hpk, ?_⟩
      · rw [List.find?_cons_of_neg hp]
        exact hfind
      · intro j hj hj'
        by_cases hjn : j = n + 1
        · rwa [hjn]
        · exact hmax j hj (by omega)

theorem stepSize_spec (hq : q < capacity) (hscale : scale ≤ maxScale) :
    stepSize q scale ≤ 9 ∧ scale + stepSize q scale ≤ maxScale ∧
      q * 10 ^ stepSize q scale < capacity ∧
      (stepSize q scale < 9 →
        maxScale < scale + (stepSize q scale + 1) ∨
          capacity ≤ q * 10 ^ (stepSize q scale + 1)) := by
  have h0 : (decide (scale + (0 : ℕ) ≤ 28) && decide (q * 10 ^ 0 < capacity)) = true := by
    simp only [maxScale] at hscale
    simpa using ⟨hscale, hq⟩
  obtain ⟨k, hfind, hk, hpk, hmax⟩ := find?_reverse_range
    (p := fun k : ℕ => decide (scale + k ≤ 28) && decide (q * 10 ^ k < capacity)) h0 9
  have hsize : stepSize q scale = k := by
    unfold stepSize
    rw [show (10 : ℕ) = 9 + 1 from rfl, hfind]
    rfl
  simp only [Bool.and_eq_true, decide_eq_true_eq] at hpk hmax
  rw [hsize]
  refine ⟨hk, hpk.1, hpk.2, fun hlt => ?_⟩
  have hnext := hmax (k + 1) (by omega) (by omega)
  by_cases hs : scale + ((k + 1 : ℕ) : ℤ) ≤ 28
  · exact Or.inr (not_lt.mp fun h => hnext ⟨hs, h⟩)
  · simp only [maxScale]
    push_cast at hs
    exact Or.inl (by omega)

theorem Develops.digits_lt (h : Develops x d q r scale) {k : ℕ} (hk : k ≤ 9)
    (hq : q * 10 ^ k < capacity) : q * 10 ^ k + r * 10 ^ k / d < 9 * capacity := by
  have hd : 0 < d := lt_of_le_of_lt (Nat.zero_le r) h.r_lt
  have hadd : r * 10 ^ k / d < 10 ^ k := by
    rw [Nat.div_lt_iff_lt_mul hd, Nat.mul_comm]
    exact Nat.mul_lt_mul_of_pos_left h.r_lt (by positivity)
  have hpow : 10 ^ k ≤ 10 ^ 9 := Nat.pow_le_pow_right (by norm_num) hk
  unfold capacity at *
  omega

theorem map_inexact (o : Option (ℕ × ℤ)) :
    (o.map fun (q, scale) => (q, scale, true)).map (fun p => (p.1, p.2.1)) = o := by
  cases o <;> rfl

/-- Without a remainder only zeros are developed, until the scale is not negative. -/
theorem answers_develop?_exact (steps : ℕ) (inexact : Bool) (h : Develops x d q 0 scale)
    (hq : q < capacity) (hscale : scale ≤ maxScale) (hsteps : 29 - scale ≤ steps) :
    Answers x ((develop? d steps q 0 scale inexact).map fun p => (p.1, p.2.1)) := by
  induction steps generalizing q scale with
  | zero =>
    simp only [maxScale] at hscale
    omega
  | succ steps ih =>
    rw [develop?, if_pos rfl]
    split
    next h0 => exact h.answers_exact hq h0 hscale
    next hneg =>
      have hmin : (Nat.min 9 (-scale).toNat : ℤ) ≤ -scale := by
        have hle : Nat.min 9 (-scale).toNat ≤ (-scale).toNat := Nat.min_le_right _ _
        omega
      have hpos : 1 ≤ Nat.min 9 (-scale).toNat := Nat.le_min.mpr ⟨by omega, by omega⟩
      dsimp only
      generalize Nat.min 9 (-scale).toNat = k at hmin hpos
      split
      next hlt =>
        have hstep := h.step k
        rw [Nat.zero_mul, Nat.zero_div, Nat.zero_mod, Nat.add_zero] at hstep
        exact ih hstep hlt (by simp only [maxScale]; omega) (by omega)
      next hge => exact h.answers_none (by omega) (not_lt.mp hge)

/-- Development ends, and its answer is what is left of the quotient. The scale grows with each
step, which bounds their number. -/
theorem answers_develop? (steps : ℕ) (inexact : Bool) (h : Develops x d q r scale)
    (hq : q < capacity) (hscale : scale ≤ maxScale) (hsteps : 29 - scale ≤ steps) :
    Answers x ((develop? d steps q r scale inexact).map fun p => (p.1, p.2.1)) := by
  induction steps generalizing q r scale inexact with
  | zero =>
    simp only [maxScale] at hscale
    omega
  | succ steps ih =>
    by_cases hr : r = 0
    · subst hr
      exact answers_develop?_exact (steps + 1) inexact h hq hscale hsteps
    rw [develop?, if_neg hr]
    obtain ⟨hk9, hle, hfit, hmore⟩ := stepSize_spec hq hscale
    dsimp only
    generalize stepSize q scale = k at hk9 hle hfit hmore
    split
    next hover =>
      rcases hmore hover.2.1 with hlarge | hlarge
      · simp only [maxScale] at hlarge
        omega
      · exact h.answers_none (k := k + 1) (by push_cast; omega) hlarge
    next hnot =>
      split
      next hk0 =>
        subst hk0
        have hlast := (hmore (by norm_num)).imp (fun hlarge => le_antisymm hscale (by omega)) id
        rw [zero_add, pow_one] at hlast
        rw [map_inexact]
        exact h.answers_close? hq (by simp only [maxScale] at hle hlast; omega) hscale hlast
      next hk0 =>
        have hstep := h.step k
        split
        next hlt => exact ih true hstep hlt hle (by omega)
        next hge =>
          rw [map_inexact]
          exact hstep.answers_carry? (not_lt.mp hge) (h.digits_lt hk9 hfit) hle

end

def Shorter (before after : ℕ × ℕ) : Prop :=
  (after.1 : ℚ) / 10 ^ after.2 = before.1 / 10 ^ before.2 ∧
    after.1 ≤ before.1 ∧ after.2 ≤ before.2

theorem Shorter.refl (p : ℕ × ℕ) : Shorter p p := ⟨rfl, le_refl _, le_refl _⟩

theorem Shorter.trans {p p' p'' : ℕ × ℕ} (h : Shorter p p') (h' : Shorter p' p'') :
    Shorter p p'' :=
  ⟨h'.1.trans h.1, h'.2.1.trans h.2.1, h'.2.2.trans h.2.2⟩

theorem shorter_drop {k q s : ℕ} (hs : k ≤ s) (hq : q % 10 ^ k = 0) :
    Shorter (q, s) (q / 10 ^ k, s - k) := by
  refine ⟨?_, Nat.div_le_self _ _, Nat.sub_le _ _⟩
  obtain ⟨j, rfl⟩ := Nat.exists_eq_add_of_le hs
  have hcast : (q : ℚ) = (q / 10 ^ k : ℕ) * 10 ^ k := by
    exact_mod_cast (Nat.div_mul_cancel (Nat.dvd_of_mod_eq_zero hq)).symm
  rw [Nat.add_sub_cancel_left]
  dsimp only
  nth_rewrite 1 [hcast]
  rw [pow_add]
  field_simp

theorem shorter_dropZeros (k : ℕ) (p : ℕ × ℕ) : Shorter p (dropZeros k p) := by
  obtain ⟨q, s⟩ := p
  unfold dropZeros
  dsimp only
  split
  next h => exact shorter_drop h.1 h.2
  next => exact .refl _

theorem shorter_dropEights (times : ℕ) (p : ℕ × ℕ) : Shorter p (dropEights times p) := by
  induction times generalizing p with
  | zero => exact .refl _
  | succ times ih =>
    obtain ⟨q, s⟩ := p
    unfold dropEights
    split
    next h => exact (shorter_drop h.2.1 h.2.2).trans (ih _)
    next => exact .refl _

theorem shorter_tidy (q s : ℕ) : Shorter (q, s) (tidy q s) :=
  (((shorter_dropEights 3 _).trans (shorter_dropZeros 4 _)).trans (shorter_dropZeros 2 _)).trans
    (shorter_dropZeros 1 _)

end LongDivision

open LongDivision

theorem div?_of_isZero {a b : Decimal} (hb : b.value = 0) : a.div? b = none := by
  unfold div?
  rw [if_pos ((isZero_iff b).mpr hb)]

theorem develops_start {a b : Decimal} (hb : 0 < b.magnitude) :
    Develops |a.value / b.value| b.magnitude (a.magnitude / b.magnitude)
      (a.magnitude % b.magnitude) ((a.scale : ℤ) - b.scale) := by
  refine ⟨?_, Nat.mod_lt _ hb⟩
  rw [abs_div, abs_value, abs_value, zpow_sub₀ (by norm_num), zpow_natCast, zpow_natCast,
    ← natCast_div_eq a.magnitude hb]
  field_simp

theorem magnitudeQuotient?_spec {a b : Decimal} (hb : b.value ≠ 0) :
    match magnitudeQuotient? a b with
    | some (q, s) =>
      q < capacity ∧ s ≤ maxScale ∧ nearest? |a.value / b.value| = some ((q : ℚ) / 10 ^ s)
    | none => nearest? |a.value / b.value| = none := by
  have hbm : 0 < b.magnitude := by
    refine Nat.pos_of_ne_zero fun h => hb ((isZero_iff b).mp ?_)
    simpa [isZero] using h
  have hq : a.magnitude / b.magnitude < capacity :=
    lt_of_le_of_lt (Nat.div_le_self _ _) a.magnitude_lt
  have hscale : (a.scale : ℤ) - b.scale ≤ maxScale := by
    have := a.scale_le
    simp only [maxScale]
    omega
  have hanswer := answers_develop? (29 - ((a.scale : ℤ) - b.scale)).toNat false
    (develops_start hbm) hq hscale (Int.self_le_toNat _)
  unfold magnitudeQuotient?
  dsimp only
  generalize develop? b.magnitude _ _ _ _ false = outcome at hanswer ⊢
  rcases outcome with _ | ⟨q, scale, inexact⟩
  · exact hanswer
  · obtain ⟨h0, hle, hlt, hnearest⟩ := hanswer
    obtain ⟨s, rfl⟩ := Int.eq_ofNat_of_zero_le h0
    rw [zpow_natCast] at hnearest
    have hs : s ≤ maxScale := Int.ofNat_le.mp hle
    cases inexact with
    | false => exact ⟨hlt, hs, hnearest⟩
    | true =>
      have hshort := shorter_tidy q s
      refine ⟨lt_of_le_of_lt hshort.2.1 hlt, hshort.2.2.trans hs, ?_⟩
      rw [hnearest]
      exact congrArg some hshort.1.symm

theorem div_value_eq_sign (a b : Decimal) :
    a.value / b.value =
      if a.negative = b.negative then |a.value / b.value| else -|a.value / b.value| := by
  rw [abs_div]
  nth_rewrite 1 [value_eq_sign a, value_eq_sign b]
  cases a.negative <;> cases b.negative <;> simp [neg_div, div_neg]

theorem value_div? (a b : Decimal) (hb : b.value ≠ 0) :
    (a.div? b).map value = nearest? (a.value / b.value) := by
  unfold div?
  rw [if_neg (mt (isZero_iff b).mp hb)]
  by_cases ha : a.isZero = true
  · rw [if_pos ha, (isZero_iff a).mp ha, zero_div, Option.map_some, value_zero, ← value_zero,
      nearest?_value]
  · rw [if_neg ha]
    have hspec := magnitudeQuotient?_spec (a := a) hb
    generalize magnitudeQuotient? a b = outcome at hspec ⊢
    rcases outcome with _ | ⟨q, s⟩
    · dsimp only at hspec ⊢
      rw [div_value_eq_sign, Option.map_none]
      split
      · exact hspec.symm
      · rw [nearest?_neg, hspec, Option.map_none]
    · obtain ⟨hq, hs, hnearest⟩ := hspec
      dsimp only
      rw [div_value_eq_sign]
      split
      next h =>
        obtain ⟨d, hd, hvalue⟩ := ofParts?_isSome (c := (q : ℤ)) (by simpa using hq) hs
        rw [hd, Option.map_some, hvalue, hnearest, Int.cast_natCast]
      next h =>
        obtain ⟨d, hd, hvalue⟩ := ofParts?_isSome (c := -(q : ℤ)) (by simpa using hq) hs
        rw [hd, Option.map_some, hvalue, nearest?_neg, hnearest, Option.map_some]
        push_cast
        rw [neg_div]

theorem value_div?_hundred (a : Decimal) :
    (a.div? hundred).map value = nearest? (a.value / 100) := by
  have h := value_div? a hundred (by rw [value_hundred]; norm_num)
  rwa [value_hundred] at h

theorem exists_div?_hundred (a : Decimal) :
    ∃ d, a.div? hundred = some d ∧ nearest? (a.value / 100) = some d.value := by
  have hvalue := value_div?_hundred a
  have hsmall : |a.value / 100| ≤ 2 ^ 96 - 1 := by
    rw [abs_div, abs_of_pos (by norm_num : (0 : ℚ) < 100)]
    have := abs_value_le a
    linarith
  cases hd : a.div? hundred with
  | some d =>
    rw [hd] at hvalue
    exact ⟨d, rfl, hvalue.symm⟩
  | none =>
    rw [hd, Option.map_none] at hvalue
    exact absurd hvalue.symm (nearest?_ne_none hsmall)

theorem nearest?_hundredth {a : Decimal} (h : a.scale ≤ 26) :
    nearest? (a.value / 100) = some (a.value / 100) := by
  have hscale : a.scale + 2 ≤ maxScale := by
    unfold maxScale
    omega
  refine nearest?_of_mul_eq (n := a.coefficient) hscale ?_ ?_
  · rw [← value_mul_pow, pow_add]
    ring
  · rw [natAbs_coefficient]
    exact a.magnitude_lt

theorem value_le_hundred {a : Decimal} (h : 26 < a.scale) : a.value ≤ 100 := by
  have hpow : (10 : ℚ) ^ 27 ≤ 10 ^ a.scale := pow_le_pow_right₀ (by norm_num) (by omega)
  have hcoefficient : (a.coefficient : ℚ) ≤ 2 ^ 96 := by
    have hlt := a.magnitude_lt
    rw [← natAbs_coefficient] at hlt
    exact_mod_cast (by omega : a.coefficient ≤ 2 ^ 96)
  rw [value_eq, div_le_iff₀ (by positivity)]
  norm_num at hcoefficient
  linarith

theorem hundredth_spec {a : Decimal} (ha : 1 < a.value) {x : ℚ}
    (hx : nearest? (a.value / 100) = some x) : 0 < x ∧ x * 100 ≤ 2 ^ 96 - 1 := by
  by_cases hscale : a.scale ≤ 26
  · have hle := (le_abs_self _).trans (abs_value_le a)
    rw [nearest?_hundredth hscale] at hx
    cases hx
    constructor <;> linarith
  · have hsmall := value_le_hundred (not_le.mp hscale)
    obtain ⟨hpos, hone⟩ := pos_and_le_one_of_nearest? (by linarith) (by linarith) hx
    exact ⟨hpos, by linarith⟩

end Payroll.Decimal
