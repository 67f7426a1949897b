import Mathlib.Data.List.FinRange
import Mathlib.Data.List.Forall2
import Payroll.Proofs.Pay.Allocation

/-!
# Bands

The thresholds of brackets cut the sales into bands, from the largest earlier threshold to the
bracket's own. Where no digits are dropped, a bracket is allocated what sales have in its band, and
together the allocations are the sales. That holds in any order of thresholds: a bracket below an
earlier one has an empty band.
-/

set_option autoImplicit false

namespace Payroll

open Decimal

def overlap (a b c d : ℚ) : ℚ := Max.max 0 (Min.min b d - Max.max a c)

/-- Where the band of bracket `i` starts: at the largest of `lower` and the earlier thresholds. -/
def Bracket.bandStart (lower : ℚ) (brackets : List Bracket) (i : ℕ) : ℚ :=
  ((brackets.take i).map (·.threshold.value)).foldl Max.max lower

namespace Bracket

variable {lower : ℚ} {b : Bracket} {brackets : List Bracket}

@[simp] theorem bandStart_zero : bandStart lower brackets 0 = lower := rfl

@[simp] theorem bandStart_nil (i : ℕ) : bandStart lower [] i = lower := by
  unfold bandStart
  rw [List.take_nil]
  rfl

@[simp] theorem bandStart_cons (i : ℕ) :
    bandStart lower (b :: brackets) (i + 1) =
      bandStart (Max.max lower b.threshold.value) brackets i := rfl

theorem le_bandStart (i : ℕ) : lower ≤ bandStart lower brackets i := by
  induction brackets generalizing lower i with
  | nil => rw [bandStart_nil]
  | cons b rest ih =>
    cases i with
    | zero => rfl
    | succ i =>
      rw [bandStart_cons]
      exact (le_max_left _ _).trans (ih i)

theorem Ascending.bandStart_length (h : Ascending brackets) {last : Bracket}
    (hlast : brackets.getLast? = some last) :
    bandStart lower brackets brackets.length = Max.max lower last.threshold.value := by
  induction brackets generalizing lower with
  | nil => cases hlast
  | cons b rest ih =>
    obtain ⟨hfirst, hrest⟩ := List.pairwise_cons.mp h
    rw [List.length_cons, bandStart_cons]
    cases rest with
    | nil =>
      cases hlast
      rfl
    | cons b' rest =>
      rw [List.getLast?_cons_cons] at hlast
      rw [ih hrest hlast, max_assoc, max_eq_right (hfirst last (List.mem_of_getLast? hlast))]

end Bracket

/-- What sales have in the band of a bracket, which ends at the bracket's threshold. -/
def Bracket.share (sales lower : ℚ) (brackets : List Bracket) (i : Fin brackets.length) : ℚ :=
  overlap 0 sales (bandStart lower brackets i) brackets[i].threshold.value

theorem Bracket.share_eq_zero {sales lower : ℚ} {brackets : List Bracket} (h : sales ≤ lower)
    (i : Fin brackets.length) : share sales lower brackets i = 0 := by
  apply max_eq_left
  have hstart : lower ≤ bandStart lower brackets i := le_bandStart i
  have hle := (h.trans hstart).trans (le_max_right 0 _)
  exact sub_nonpos.mpr ((min_le_left _ _).trans hle)

theorem Bracket.share_head (sales : ℚ) {lower : ℚ} (hlower : 0 ≤ lower) (b : Bracket)
    (rest : List Bracket) :
    share sales lower (b :: rest) 0 = Max.max 0 (Min.min sales b.threshold.value - lower) := by
  simp [share, overlap, max_eq_right hlower]

namespace Allocation

def IsExact (a b : Decimal) : Prop := (a.sub? b).map value = some (a.value - b.value)

/-- The differences that an allocation of sales above `lower` takes are exact. -/
def Exact (sales : Decimal) : (lower : Decimal) → List Bracket → Prop
  | lower, [] => lower.value < sales.value → IsExact sales lower
  | lower, b :: rest => lower.value < sales.value →
      IsExact (Decimal.min sales b.threshold) lower ∧
        Exact sales (Decimal.max lower b.threshold) rest

theorem IsExact.value_eq {a b d : Decimal} (h : IsExact a b) (hd : a.sub? b = some d) :
    d.value = a.value - b.value := by
  unfold IsExact at h
  rw [hd] at h
  exact Option.some.inj h

structure Pays (amount : ℚ) (percentage : Decimal) (a : Allocation) : Prop where
  allocated : a.allocated.value = amount
  percentage : a.percentage = percentage
  contribution : (a.allocated.mul? a.percentage).bind (·.div? .hundred) = some a.contribution

theorem pays_of_make {name : String} {allocated percentage : Decimal} {a : Allocation}
    (h : make name allocated percentage = .ok a) : a.Pays allocated.value percentage := by
  obtain ⟨product, hproduct, hcontribution, rfl, rfl, -⟩ := make_eq_ok h
  refine ⟨rfl, rfl, ?_⟩
  rw [hproduct]
  exact hcontribution

section
variable {sales lower lower' : Decimal} {place : ℕ} {brackets : List Bracket}
variable {out : List Allocation}

theorem pos_of_within (h : within sales lower place brackets = .ok (out, lower')) :
    ∀ a ∈ out, 0 < a.allocated.value := by
  refine forall_of_within (fun b _ name slice a hpos ha => ?_) h
  rw [(pays_of_make ha).allocated]
  exact hpos

theorem max_slice_add (s l t : ℚ) (h : l < s) :
    Max.max 0 (Min.min s t - l) + Max.max 0 (s - Max.max l t) = Max.max 0 (s - l) := by
  grind

theorem sum_here {b : Bracket} {slice : Decimal} (h : here place b slice = .ok out) :
    (out.map (·.allocated.value)).sum = Max.max 0 slice.value := by
  rcases here_eq_ok h with ⟨hle, rfl⟩ | ⟨hpos, a, ha, rfl⟩
  · exact (max_eq_left hle).symm
  · rw [List.map_singleton, List.sum_singleton, (pays_of_make ha).allocated,
      max_eq_right (le_of_lt hpos)]

/-- The invariant of the sum: with what is left, it is what there was. -/
theorem sum_within (h : within sales lower place brackets = .ok (out, lower'))
    (hexact : Exact sales lower brackets) :
    (out.map (·.allocated.value)).sum + Max.max 0 (sales.value - lower'.value) =
      Max.max 0 (sales.value - lower.value) := by
  induction brackets generalizing lower place out with
  | nil =>
    cases h
    exact zero_add _
  | cons b rest ih =>
    rcases within_cons_eq_ok h with
      ⟨-, rfl, rfl⟩ | ⟨hlt, slice, allocations, others, hslice, hhere, hrest, rfl⟩
    · exact zero_add _
    · obtain ⟨hexact, hexact'⟩ := hexact hlt
      have hih := ih hrest hexact'
      rw [value_max] at hih
      rw [List.map_append, List.sum_append, add_assoc, hih, sum_here hhere,
        hexact.value_eq hslice, value_min, max_slice_add _ _ _ hlt]

theorem Exact.rest (hexact : Exact sales lower brackets)
    (h : within sales lower place brackets = .ok (out, lower')) (hlt : lower'.value < sales.value) :
    IsExact sales lower' := by
  induction brackets generalizing lower place out with
  | nil =>
    cases h
    exact hexact hlt
  | cons b rest ih =>
    rcases within_cons_eq_ok h with ⟨hle, -, rfl⟩ | ⟨hlt', slice, _, others, -, -, hrest, -⟩
    · exact absurd hlt (not_lt.mpr hle)
    · exact ih (hexact hlt').2 hrest

theorem within_end (h : within sales lower place brackets = .ok (out, lower')) :
    lower'.value ≤ Bracket.bandStart lower.value brackets brackets.length ∧
      (lower'.value < sales.value →
        lower'.value = Bracket.bandStart lower.value brackets brackets.length) := by
  induction brackets generalizing lower place out with
  | nil =>
    cases h
    exact ⟨le_refl _, fun _ => rfl⟩
  | cons b rest ih =>
    rcases within_cons_eq_ok h with ⟨hle, -, rfl⟩ | ⟨-, slice, _, others, -, -, hrest, -⟩
    · exact ⟨Bracket.le_bandStart _, fun hlt => absurd hlt (not_lt.mpr hle)⟩
    · rw [List.length_cons, Bracket.bandStart_cons, ← value_max]
      exact ih hrest

/-- The allocation of a bracket with this number, of what sales have in its band. -/
structure PaysShare (sales lower : ℚ) (place : ℕ) (brackets : List Bracket)
    (i : Fin brackets.length) (a : Allocation) : Prop where
  name : a.name = brackets[i].name.getD ("Bracket " ++ toString (place + i))
  pays : a.Pays (Bracket.share sales lower brackets i) brackets[i].percentage

theorem PaysShare.cons {sales lower : ℚ} {b : Bracket} {i : Fin brackets.length} {a : Allocation}
    (h : PaysShare sales (Max.max lower b.threshold.value) (place + 1) brackets i a) :
    PaysShare sales lower place (b :: brackets) i.succ a := by
  refine ⟨?_, h.pays⟩
  have hplace : place + 1 + (i : ℕ) = place + (i.succ : ℕ) := by
    rw [Fin.val_succ]
    omega
  rw [h.name, hplace]
  rfl

/-- An invariant of the run: brackets are allocated their shares, in order, where these are not
empty. -/
theorem shares_within (hlower : 0 ≤ lower.value)
    (h : within sales lower place brackets = .ok (out, lower'))
    (hexact : Exact sales lower brackets) :
    List.Forall₂ (PaysShare sales.value lower.value place brackets)
      ((List.finRange brackets.length).filter fun i =>
        0 < Bracket.share sales.value lower.value brackets i) out := by
  induction brackets generalizing lower place out with
  | nil =>
    cases h
    exact .nil
  | cons b rest ih =>
    rcases within_cons_eq_ok h with
      ⟨hle, rfl, -⟩ | ⟨hlt, slice, allocations, others, hslice, hhere, hrest, rfl⟩
    · rw [List.filter_eq_nil_iff.mpr]
      · exact .nil
      · intro i _
        simp [Bracket.share_eq_zero hle i]
    · obtain ⟨hexact, hexact'⟩ := hexact hlt
      have hmax : 0 ≤ (Decimal.max lower b.threshold).value := by
        rw [value_max]
        exact le_max_of_le_left hlower
      have hih := ih hmax hrest hexact'
      rw [value_max] at hih
      have hothers : List.Forall₂ (PaysShare sales.value lower.value place (b :: rest))
          (((List.finRange rest.length).map Fin.succ).filter fun i =>
            0 < Bracket.share sales.value lower.value (b :: rest) i) others := by
        rw [List.filter_map, List.forall₂_map_left_iff]
        exact hih.imp fun i a hia => hia.cons
      have hfirst := Bracket.share_head sales.value hlower b rest
      rw [← value_min, ← hexact.value_eq hslice] at hfirst
      show List.Forall₂ _ ((List.finRange (rest.length + 1)).filter _) _
      rw [List.finRange_succ, List.filter_cons]
      rcases here_eq_ok hhere with ⟨hle, rfl⟩ | ⟨hpos, a, ha, rfl⟩
      · rw [if_neg]
        · exact hothers
        · simp [hfirst, hle]
      · rw [if_pos]
        · have hpays := pays_of_make ha
          obtain ⟨-, -, -, -, -, hname⟩ := make_eq_ok ha
          rw [← max_eq_right (le_of_lt hpos), ← hfirst] at hpays
          exact .cons ⟨hname, hpays⟩ hothers
        · simp [hfirst, hpos]

def PaysRest (sales start : ℚ) (percentage : Decimal) (out : List Allocation) : Prop :=
  (sales ≤ start ∧ out = []) ∨ start < sales ∧ ∃ a, out = [a] ∧ a.Pays (sales - start) percentage

theorem paysRest_above {last : Bracket} {start : ℚ} (hle : lower.value ≤ start)
    (heq : lower.value < sales.value → lower.value = start)
    (hexact : lower.value < sales.value → IsExact sales lower)
    (h : above sales lower last = .ok out) : PaysRest sales.value start last.percentage out := by
  rcases above_eq_ok h with ⟨hend, rfl⟩ | ⟨hlt, rest, name, a, hrest, ha, rfl⟩
  · exact .inl ⟨hend.trans hle, rfl⟩
  · have hpays := pays_of_make ha
    rw [(hexact hlt).value_eq hrest, heq hlt] at hpays
    exact .inr ⟨heq hlt ▸ hlt, a, rfl, hpays⟩

theorem PaysRest.pos {start : ℚ} {percentage : Decimal}
    (h : PaysRest sales.value start percentage out) : ∀ a ∈ out, 0 < a.allocated.value := by
  rcases h with ⟨-, rfl⟩ | ⟨hlt, a, rfl, ha⟩
  · exact List.forall_mem_nil _
  · rw [List.forall_mem_singleton, ha.allocated]
    exact sub_pos.mpr hlt

theorem PaysRest.sum_eq {start : ℚ} {percentage : Decimal}
    (h : PaysRest sales.value start percentage out) :
    (out.map (·.allocated.value)).sum = Max.max 0 (sales.value - start) := by
  rcases h with ⟨hle, rfl⟩ | ⟨hlt, a, rfl, ha⟩
  · exact (max_eq_left (sub_nonpos.mpr hle)).symm
  · rw [List.map_singleton, List.sum_singleton, ha.allocated,
      max_eq_right (le_of_lt (sub_pos.mpr hlt))]

/-- Allocations are positive and add up to the sales. Brackets are allocated their shares, and what
is above every threshold is allocated at the last percentage. -/
theorem allocate_covers (hne : brackets ≠ []) (h : allocate brackets sales = .ok out)
    (hexact : Exact sales .zero brackets) :
    (∀ a ∈ out, 0 < a.allocated.value) ∧
      (out.map (·.allocated.value)).sum = Max.max sales.value 0 ∧
        (∃ inside beyond, out = inside ++ beyond ∧
          List.Forall₂ (PaysShare sales.value 0 1 brackets)
            ((List.finRange brackets.length).filter fun i =>
              0 < Bracket.share sales.value 0 brackets i) inside ∧
          PaysRest sales.value (Bracket.bandStart 0 brackets brackets.length)
            (brackets.getLast hne).percentage beyond) ∧
        (Bracket.Ascending brackets →
          Bracket.bandStart 0 brackets brackets.length =
            Max.max 0 (brackets.getLast hne).threshold.value) := by
  obtain ⟨inside, lower, hinside, ⟨hnone, -⟩ | ⟨last, beyond, hlast, hbeyond, rfl⟩⟩ :=
    allocate_eq_ok h
  · exact absurd (List.getLast?_eq_none_iff.mp hnone) hne
  rw [List.getLast?_eq_some_getLast hne] at hlast
  obtain rfl := Option.some.inj hlast
  obtain ⟨hle, heq⟩ := within_end hinside
  have hleft := paysRest_above le_rfl (fun _ => rfl) (hexact.rest hinside) hbeyond
  have hrest := paysRest_above hle heq (hexact.rest hinside) hbeyond
  have hshares := shares_within (le_of_eq value_zero.symm) hinside hexact
  have hsum := sum_within hinside hexact
  rw [← hleft.sum_eq, ← List.sum_append, ← List.map_append] at hsum
  rw [value_zero] at hrest hshares hsum
  rw [sub_zero, max_comm] at hsum
  refine ⟨?_, hsum, ⟨inside, beyond, rfl, hshares, hrest⟩, fun hascending => ?_⟩
  · exact List.forall_mem_append.mpr ⟨pos_of_within hinside, hleft.pos⟩
  · exact hascending.bandStart_length (List.getLast?_eq_some_getLast hne)

end

def twoBrackets : List Bracket :=
  [{ threshold := .one, percentage := .hundred }, { threshold := .hundred, percentage := .one }]

def twoBracketSales : Decimal := { Decimal.zero with magnitude := 250, magnitude_lt := by decide }

theorem allocate_covers_twoBrackets :
    ∃ out, allocate twoBrackets twoBracketSales = .ok out ∧
      Exact twoBracketSales .zero twoBrackets ∧ (∀ a ∈ out, 0 < a.allocated.value) ∧
        (out.map (·.allocated.value)).sum = Max.max twoBracketSales.value 0 := by
  have hlength : (allocate twoBrackets twoBracketSales).toOption.map (·.length) = some 3 := by
    decide +kernel
  obtain ⟨out, hout, -⟩ := exists_ok_of_toOption_map hlength
  have hexact : Exact twoBracketSales .zero twoBrackets := by
    unfold twoBrackets Exact Exact Exact IsExact
    decide +kernel
  obtain ⟨hpos, hsum, -⟩ := allocate_covers (List.cons_ne_nil _ _) hout hexact
  exact ⟨out, hout, hexact, hpos, hsum⟩

end Allocation

end Payroll
