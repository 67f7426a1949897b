import Payroll.Proofs.Decimal.Value

/-!
# Sums, differences, products and rounded amounts

Each operation answers the nearest decimal of the exact result, and none exactly if that is too
large. Rounding to places is a function of the value as well.
-/

set_option autoImplicit false

namespace Payroll

namespace Rounding

theorem signed_halfEven (c : ℤ) {d : ℕ} (hd : 0 < d) :
    signed (halfEven · d) c = toEven ((c : ℚ) / d) := by
  unfold signed
  split
  next h =>
    have hc : (c : ℚ) = -(c.natAbs : ℚ) := by
      have : c = -(c.natAbs : ℤ) := by omega
      exact_mod_cast this
    rw [halfEven_eq_toEven _ hd, ← toEven_neg, hc, neg_div]
  next h =>
    have hc : (c : ℚ) = (c.natAbs : ℚ) := by
      have : c = (c.natAbs : ℤ) := by omega
      rw [← Int.cast_natCast, ← this]
    rw [halfEven_eq_toEven _ hd, hc]

/-- The nearest integer; a half goes away from zero. -/
def toAway (x : ℚ) : ℤ := if x < 0 then -⌊-x + 1 / 2⌋ else ⌊x + 1 / 2⌋

theorem toAway_intCast (n : ℤ) : toAway n = n := by
  unfold toAway
  split
  · rw [neg_eq_iff_eq_neg, Int.floor_eq_iff]
    push_cast
    constructor <;> linarith
  · rw [Int.floor_eq_iff]
    constructor <;> linarith

theorem halfUp_eq_floor (n : ℕ) {d : ℕ} (hd : 0 < d) :
    ((halfUp n d : ℕ) : ℤ) = ⌊(n : ℚ) / d + 1 / 2⌋ := by
  symm
  have hdq : (0 : ℚ) < d := by exact_mod_cast hd
  have hdm : (n : ℚ) = d * (n / d : ℕ) + (n % d : ℕ) := by
    exact_mod_cast (Nat.div_add_mod n d).symm
  have hdiv : (n : ℚ) / d * d = n := div_mul_cancel₀ _ hdq.ne'
  have hr : ((n % d : ℕ) : ℚ) < d := by exact_mod_cast Nat.mod_lt n hd
  have hr0 : (0 : ℚ) ≤ (n % d : ℕ) := by positivity
  rw [Int.floor_eq_iff]
  unfold halfUp
  dsimp only
  split
  next h =>
    have h2 : (d : ℚ) ≤ 2 * (n % d : ℕ) := by exact_mod_cast h
    rw [Int.cast_natCast, Nat.cast_add, Nat.cast_one]
    constructor <;> nlinarith
  next h =>
    have h2 : 2 * ((n % d : ℕ) : ℚ) < d := by exact_mod_cast not_le.mp h
    rw [Int.cast_natCast]
    constructor <;> nlinarith

theorem toAway_natCast_div (n : ℕ) {d : ℕ} (hd : 0 < d) : toAway ((n : ℚ) / d) = halfUp n d := by
  rw [halfUp_eq_floor n hd]
  exact if_neg (not_lt.mpr (by positivity))

theorem toAway_neg (x : ℚ) : toAway (-x) = -toAway x := by
  unfold toAway
  rcases lt_trichotomy x 0 with h | rfl | h
  · rw [if_neg (by linarith), if_pos h, neg_neg]
  · norm_num
  · rw [if_pos (by linarith), if_neg (by linarith), neg_neg]

end Rounding

namespace Decimal

open Rounding

theorem findSome?_range_eq_some {α : Type} {f : ℕ → Option α} {n k : ℕ} {b : α} (hk : k < n)
    (hf : f k = some b) (hbefore : ∀ j, j < k → f j = none) :
    (List.range n).findSome? f = some b := by
  obtain ⟨m, rfl⟩ := Nat.exists_eq_add_of_lt hk
  refine List.findSome?_eq_some_iff.mpr
    ⟨List.range k, k, (List.range m).map (k + 1 + ·), ?_, hf, ?_⟩
  · rw [show k + m + 1 = k + (m + 1) by omega, List.range_add, List.range_succ_eq_map]
    simp only [List.map_cons, List.map_map, Nat.add_zero]
    congr 3
    funext j
    simp only [Function.comp_apply]
    omega
  · intro j hj
    exact hbefore j (List.mem_range.mp hj)

theorem ofParts?_dropped (c : ℤ) {s k : ℕ} (hk : k ≤ s) :
    ofParts? (signed (halfEven · (10 ^ k)) c) (s - k) =
      ofParts? (toEven ((c : ℚ) / 10 ^ s * 10 ^ (s - k))) (s - k) := by
  have hpow : (10 : ℚ) ^ s = 10 ^ (s - k) * 10 ^ k := by
    rw [← pow_add]
    congr 1
    omega
  rw [signed_halfEven c (by positivity), hpow]
  congr 2
  push_cast
  field_simp

/-- Without its last `k` digits, `c / 10 ^ s` is a decimal. -/
def LosesTo (c : ℤ) (s k : ℕ) : Prop := Fits ((c : ℚ) / 10 ^ s) (s - k) ∧ s - k ≤ maxScale

section
variable {c : ℤ} {s k : ℕ} (hk : k ≤ s)
include hk

theorem ofParts?_of_losesTo (h : LosesTo c s k) :
    ∃ d, ofParts? (signed (halfEven · (10 ^ k)) c) (s - k) = some d ∧
      d.value = toEven ((c : ℚ) / 10 ^ s * 10 ^ (s - k)) / 10 ^ (s - k) := by
  rw [ofParts?_dropped c hk]
  exact ofParts?_isSome h.1 h.2

theorem ofParts?_of_not_losesTo (h : ¬LosesTo c s k) :
    ofParts? (signed (halfEven · (10 ^ k)) c) (s - k) = none := by
  rw [ofParts?_dropped c hk]
  exact dif_neg h

theorem nearest?_of_losesTo (h : LosesTo c s k) (hmin : ∀ j < k, ¬LosesTo c s j) :
    nearest? ((c : ℚ) / 10 ^ s) =
      some ((toEven ((c : ℚ) / 10 ^ s * 10 ^ (s - k)) : ℚ) / 10 ^ (s - k)) := by
  obtain ⟨hfit, hle⟩ := h
  cases k with
  | zero =>
    -- Nothing is dropped, so the number itself fits.
    have hwhole : (c : ℚ) / 10 ^ s * 10 ^ s = c := by field_simp
    rw [Nat.sub_zero] at hfit hle ⊢
    unfold Fits at hfit
    rw [hwhole, toEven_intCast] at hfit ⊢
    exact nearest?_of_mul_eq hle hwhole hfit
  | succ k =>
    refine nearest?_eq_some hle hfit ?_
    have hprev := hmin k (Nat.lt_succ_self k)
    unfold LosesTo at hprev
    rw [show s - k = s - (k + 1) + 1 by omega] at hprev
    by_cases hscale : s - (k + 1) = maxScale
    · exact Or.inl hscale
    · exact Or.inr fun h => hprev ⟨h, by omega⟩

end

/-- Dropping digits one by one ends at the first place where the rest fits. -/
theorem value_fit? (c : ℤ) (s : ℕ) : (fit? c s).map value = nearest? (c / 10 ^ s) := by
  by_cases hex : ∃ k, k ≤ s ∧ LosesTo c s k
  · classical
    obtain ⟨hk, hloses⟩ := Nat.find_spec hex
    have hmin (j : ℕ) (hj : j < Nat.find hex) : ¬LosesTo c s j :=
      fun h => Nat.find_min hex hj ⟨by omega, h⟩
    obtain ⟨d, hd, hvalue⟩ := ofParts?_of_losesTo hk hloses
    have hfound : fit? c s = some d := findSome?_range_eq_some (by omega) hd fun j hj =>
      ofParts?_of_not_losesTo (by omega) (hmin j hj)
    rw [hfound, Option.map_some, hvalue, nearest?_of_losesTo hk hloses hmin]
  · have hall : ∀ k ∈ List.range (s + 1),
        ofParts? (signed (halfEven · (10 ^ k)) c) (s - k) = none := by
      intro k hk
      have hks : k ≤ s := Nat.lt_succ_iff.mp (List.mem_range.mp hk)
      exact ofParts?_of_not_losesTo hks fun h => hex ⟨k, hks, h⟩
    have hfound : fit? c s = none := List.findSome?_eq_none_iff.mpr hall
    rw [hfound, Option.map_none, eq_comm, nearest?_eq_none_iff]
    intro h
    refine hex ⟨s, le_refl s, ?_, by omega⟩
    rwa [Nat.sub_self]

theorem atScale_eq (a : Decimal) {s : ℕ} (h : a.scale ≤ s) :
    ((a.atScale s : ℤ) : ℚ) = a.value * 10 ^ s := by
  obtain ⟨k, rfl⟩ := Nat.exists_eq_add_of_le h
  unfold atScale
  rw [Nat.add_sub_cancel_left, pow_add, ← mul_assoc, value_mul_pow]
  push_cast
  rfl

theorem value_add? (a b : Decimal) : (a.add? b).map value = nearest? (a.value + b.value) := by
  unfold add?
  by_cases ha : a.isZero = true
  · rw [if_pos ha, (isZero_iff a).mp ha, zero_add, nearest?_value, Option.map_some]
  · by_cases hb : b.isZero = true
    · rw [if_neg ha, if_pos hb, (isZero_iff b).mp hb, add_zero, nearest?_value, Option.map_some]
    · rw [if_neg ha, if_neg hb]
      dsimp only
      rw [value_fit?, Int.cast_add, atScale_eq a (Nat.le_max_left _ _),
        atScale_eq b (Nat.le_max_right _ _), ← add_mul]
      congr 1
      field_simp

theorem value_sub? (a b : Decimal) : (a.sub? b).map value = nearest? (a.value - b.value) := by
  unfold sub?
  rw [value_add?, sub_eq_add_neg]
  congr 2
  split
  next h => rw [(isZero_iff b).mp h, neg_zero]
  next => exact value_neg b

theorem value_withSign {a : Decimal} (ha : a.negative = false) (n : Bool) :
    ({ a with negative := n } : Decimal).value = if n then -a.value else a.value := by
  rw [value_eq_magnitude, value_eq_magnitude, ha]
  cases n <;> simp [neg_div]

theorem nonneg_of_fit? {m s : ℕ} {d : Decimal} (h : fit? (m : ℤ) s = some d) :
    d.negative = false := by
  obtain ⟨k, _, hk⟩ := List.exists_of_findSome?_eq_some h
  obtain ⟨hc, _, hz⟩ := ofParts?_eq_some_iff.mp hk
  have hnonneg : 0 ≤ signed (halfEven · (10 ^ k)) (m : ℤ) := by
    unfold signed
    rw [if_neg (by omega)]
    omega
  cases hneg : d.negative with
  | false => rfl
  | true =>
    have hm : d.magnitude ≠ 0 := fun h0 => by simp [hz h0] at hneg
    unfold coefficient at hc
    rw [hneg, if_pos rfl] at hc
    omega

/-- Products of two short magnitudes with so many digits after the point round to zero. -/
theorem nearest?_of_short {x : ℚ} {m n s : ℕ} (hm : m < shortCapacity) (hn : n < shortCapacity)
    (hs : 47 < s) (hx : |x| = m * n / 10 ^ s) : nearest? x = some 0 := by
  have hzero : toEven (x * 10 ^ 28) = 0 := by
    refine toEven_eq (Or.inl ?_)
    have hmn : (m * n : ℚ) < 2 ^ 32 * 2 ^ 32 := by
      have hm' : (m : ℚ) < 2 ^ 32 := by exact_mod_cast hm
      have hn' : (n : ℚ) < 2 ^ 32 := by exact_mod_cast hn
      exact mul_lt_mul'' hm' hn' (by positivity) (by positivity)
    have hpow : (10 : ℚ) ^ 48 ≤ 10 ^ s := pow_le_pow_right₀ (by norm_num) hs
    have hle : (m * n : ℚ) / 10 ^ s ≤ 2 ^ 32 * 2 ^ 32 / 10 ^ 48 :=
      div_le_div₀ (by positivity) hmn.le (by positivity) hpow
    rw [Int.cast_zero, sub_zero, abs_mul, hx, abs_of_pos (by positivity : (0 : ℚ) < 10 ^ 28)]
    calc (m * n : ℚ) / 10 ^ s * 10 ^ 28
        ≤ 2 ^ 32 * 2 ^ 32 / 10 ^ 48 * 10 ^ 28 := mul_le_mul_of_nonneg_right hle (by positivity)
      _ < 1 / 2 := by norm_num
  have hfit : Fits x maxScale := by
    unfold Fits
    rw [show maxScale = 28 from rfl, hzero]
    decide
  rw [nearest?_eq_some (le_refl _) hfit (Or.inl rfl), show maxScale = 28 from rfl, hzero]
  simp

theorem abs_mul_value (a b : Decimal) :
    |a.value * b.value| = (a.magnitude * b.magnitude : ℚ) / 10 ^ (a.scale + b.scale) := by
  rw [abs_mul, abs_value, abs_value, div_mul_div_comm, ← pow_add]

theorem mul_value_eq_sign (a b : Decimal) :
    a.value * b.value =
      if (a.negative != b.negative) then -|a.value * b.value| else |a.value * b.value| := by
  rw [abs_mul]
  nth_rewrite 1 [value_eq_sign a, value_eq_sign b]
  cases a.negative <;> cases b.negative <;> simp

theorem nearest?_mul_value (a b : Decimal) :
    nearest? (a.value * b.value) = (nearest? |a.value * b.value|).map
      fun v => if (a.negative != b.negative) then -v else v := by
  nth_rewrite 1 [mul_value_eq_sign a b]
  split
  · exact nearest?_neg _
  · exact Option.map_id'.symm

/-- A product that is zero has no sign that its value could show. -/
theorem value_signed {p : Decimal} (hp : p.negative = false) (negative short : Bool) :
    ({ p with negative := negative && !(short && p.isZero) } : Decimal).value =
      if negative then -p.value else p.value := by
  rw [value_withSign hp]
  cases hz : p.isZero with
  | true => simp [(isZero_iff p).mp hz]
  | false => simp

theorem value_mul? (a b : Decimal) : (a.mul? b).map value = nearest? (a.value * b.value) := by
  have habs := abs_mul_value a b
  unfold mul?
  by_cases hz : (a.isZero || b.isZero) = true
  · have hprod : a.value * b.value = 0 := by
      rcases Bool.or_eq_true_iff.mp hz with h | h
      · rw [(isZero_iff a).mp h, zero_mul]
      · rw [(isZero_iff b).mp h, mul_zero]
    rw [if_pos hz, hprod, Option.map_some, value_zero, ← value_zero, nearest?_value]
  · rw [if_neg hz]
    dsimp only
    split
    next hshort =>
      simp only [Bool.and_eq_true, decide_eq_true_eq] at hshort
      rw [nearest?_of_short hshort.1.1 hshort.1.2 hshort.2 habs, Option.map_some, value_zero]
    next =>
      -- The magnitudes are multiplied without signs, and the sign is put in front afterwards.
      have hfit := value_fit? ((a.magnitude * b.magnitude : ℕ) : ℤ) (a.scale + b.scale)
      have hcast : (((a.magnitude * b.magnitude : ℕ) : ℤ) : ℚ) = a.magnitude * b.magnitude := by
        push_cast
        rfl
      rw [hcast, ← habs] at hfit
      rw [nearest?_mul_value, ← hfit]
      cases hp : fit? ((a.magnitude * b.magnitude : ℕ) : ℤ) (a.scale + b.scale) with
      | none => rfl
      | some p => exact congrArg some (value_signed (nonneg_of_fit? hp) _ _)

section
variable {a b : Decimal}

theorem add?_eq_none_iff : a.add? b = none ↔ TooLarge (a.value + b.value) := by
  rw [← nearest?_eq_none_iff_tooLarge, ← value_add?, Option.map_eq_none_iff]

theorem sub?_eq_none_iff : a.sub? b = none ↔ TooLarge (a.value - b.value) := by
  rw [← nearest?_eq_none_iff_tooLarge, ← value_sub?, Option.map_eq_none_iff]

theorem mul?_eq_none_iff : a.mul? b = none ↔ TooLarge (a.value * b.value) := by
  rw [← nearest?_eq_none_iff_tooLarge, ← value_mul?, Option.map_eq_none_iff]

/-- The difference of amounts of one sign is no larger than they are. -/
theorem sub?_ne_none (ha : 0 ≤ a.value) (hb : 0 ≤ b.value) : a.sub? b ≠ none := by
  intro h
  refine not_tooLarge ?_ (sub?_eq_none_iff.mp h)
  have ha' := abs_le.mp (abs_value_le a)
  have hb' := abs_le.mp (abs_value_le b)
  exact abs_le.mpr ⟨by linarith, by linarith⟩

end

theorem value_shorten_of_lt {a : Decimal} {places : ℕ} (h : places < a.scale) :
    (a.shorten places).value = toAway (a.value * 10 ^ places) / 10 ^ places := by
  have hpow : (10 : ℚ) ^ a.scale = 10 ^ places * 10 ^ (a.scale - places) := by
    rw [← pow_add, Nat.add_sub_cancel' h.le]
  have hmagnitude : (a.magnitude : ℚ) / 10 ^ a.scale * 10 ^ places
      = (a.magnitude : ℚ) / (10 ^ (a.scale - places) : ℕ) := by
    rw [hpow]
    push_cast
    field_simp
  have hround : toAway ((a.magnitude : ℚ) / 10 ^ a.scale * 10 ^ places) =
      halfUp a.magnitude (10 ^ (a.scale - places)) := by
    rw [hmagnitude, toAway_natCast_div _ (by positivity)]
  unfold shorten
  rw [dif_pos h, value_eq_magnitude, value_eq_magnitude]
  cases a.negative with
  | false =>
    simp only [Bool.false_eq_true, if_false]
    rw [hround, Int.cast_natCast]
  | true =>
    simp only [if_true]
    rw [neg_div _ (a.magnitude : ℚ), neg_mul, toAway_neg, hround, Int.cast_neg, Int.cast_natCast]

theorem value_shorten (a : Decimal) (places : ℕ) :
    (a.shorten places).value = toAway (a.value * 10 ^ places) / 10 ^ places := by
  by_cases h : places < a.scale
  · exact value_shorten_of_lt h
  · obtain ⟨k, hk⟩ := Nat.exists_eq_add_of_le (not_lt.mp h)
    have hwhole : a.value * 10 ^ places = ((a.coefficient * 10 ^ k : ℤ) : ℚ) := by
      rw [hk, pow_add, ← mul_assoc, value_mul_pow]
      push_cast
      rfl
    unfold shorten
    rw [dif_neg h, hwhole, toAway_intCast, ← hwhole]
    field_simp

theorem value_roundPlaces (a : Decimal) (places : ℕ) :
    (a.roundPlaces places).value = toAway (a.value * 10 ^ places) / 10 ^ places := by
  rw [← value_shorten]
  unfold roundPlaces
  dsimp only
  split
  next h =>
    simp only [Bool.and_eq_true] at h
    rw [value_abs, (isZero_iff _).mp h.1, abs_zero]
  next => rfl

end Decimal

end Payroll
