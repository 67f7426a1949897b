import Mathlib.Data.List.Basic
import Payroll.Pay.Bracketed
import Payroll.Proofs.Decimal.Monotone
import Payroll.Proofs.Decimal.Sorted
import Payroll.Proofs.Outcome

/-!
# Allocations to brackets

What falls to a bracket lies between zero and the sales, so taking it out of the sales never fails
as long as the brackets ascend. Only the sum of the contributions is neither guarded nor bounded: it
may become too large, but it takes a hundred allocations.
-/

set_option autoImplicit false

namespace Payroll

open Decimal Halt

def Bracket.Ascending (brackets : List Bracket) : Prop :=
  brackets.Pairwise fun a b => a.threshold.value ≤ b.threshold.value

theorem Bracket.ascending_sorted (brackets : List Bracket) : Ascending (sorted brackets) := by
  unfold Ascending sorted
  exact pairwise_mergeSort Bracket.threshold brackets

theorem BracketTerms.ascending_of_ofPlan {plan : Plan} {terms : BracketTerms}
    (h : ofPlan plan = .ok terms) : Bracket.Ascending terms.brackets := by
  unfold ofPlan ofConfig at h
  split at h
  · cases h
  · split at h
    · cases h
    · split at h
      · cases h
      · cases h
        exact Bracket.ascending_sorted _

namespace Allocation

section
variable {sales lower lower' : Decimal} {name : String} {place : ℕ}

theorem make_eq_ok {allocated percentage : Decimal} {a : Allocation}
    (h : make name allocated percentage = .ok a) :
    ∃ product, allocated.mul? percentage = some product ∧
      product.div? .hundred = some a.contribution ∧ a.allocated = allocated ∧
        a.percentage = percentage ∧ a.name = name := by
  unfold make at h
  obtain ⟨product, hproduct, h⟩ := bind_eq_ok h
  obtain ⟨contribution, hcontribution, h⟩ := bind_eq_ok h
  cases h
  refine ⟨product, ?_, ?_, rfl, rfl, rfl⟩
  · exact guarded_eq_ok.mp hproduct
  · exact unguarded_eq_ok.mp hcontribution

theorem unaborted_make (name : String) (allocated percentage : Decimal) :
    Unaborted (make name allocated percentage) := by
  unfold make
  refine (unaborted_guarded _ _).bind fun product _ => ?_
  refine Unaborted.bind (unaborted_unguarded.mpr ?_) fun _ _ => unaborted_ok _
  obtain ⟨d, hd, -⟩ := exists_div?_hundred product
  rw [hd]
  nofun

/-- What falls to one bracket, if anything does. -/
def here (place : ℕ) (bracket : Bracket) (slice : Decimal) : Except Halt (List Allocation) :=
  if slice.le .zero then .ok []
  else do
    let a ← make (bracket.name.getD ("Bracket " ++ toString place)) slice bracket.percentage
    return [a]

theorem within_cons (bracket : Bracket) (rest : List Bracket) :
    within sales lower place (bracket :: rest) =
      if sales.le lower then .ok ([], lower)
      else do
        let slice ← unguarded .subtraction ((Decimal.min sales bracket.threshold).sub? lower)
        let allocations ← here place bracket slice
        let (others, lower) ← within sales (Decimal.max lower bracket.threshold) (place + 1) rest
        return (allocations ++ others, lower) := by
  rw [within]
  split
  · rfl
  · unfold here
    refine congrArg _ (funext fun slice => ?_)
    split
    · rfl
    · exact (bind_assoc _ _ _).symm

/-- The ways of a bracket: the sales end before it, or it takes its slice of them. -/
theorem within_cons_eq_ok {bracket : Bracket} {rest : List Bracket} {out : List Allocation}
    (h : within sales lower place (bracket :: rest) = .ok (out, lower')) :
    (sales.value ≤ lower.value ∧ out = [] ∧ lower' = lower) ∨
      lower.value < sales.value ∧ ∃ slice allocations others,
        (Decimal.min sales bracket.threshold).sub? lower = some slice ∧
          here place bracket slice = .ok allocations ∧
            within sales (Decimal.max lower bracket.threshold) (place + 1) rest =
              .ok (others, lower') ∧
              out = allocations ++ others := by
  rw [within_cons] at h
  split at h
  · next hle =>
    cases h
    exact .inl ⟨(le_iff _ _).mp hle, rfl, rfl⟩
  · next hgt =>
    rw [le_iff, not_le] at hgt
    obtain ⟨slice, hslice, h⟩ := bind_eq_ok h
    obtain ⟨allocations, hhere, h⟩ := bind_eq_ok h
    obtain ⟨⟨others, lower''⟩, hrest, h⟩ := bind_eq_ok h
    cases h
    exact .inr ⟨hgt, slice, allocations, others, unguarded_eq_ok.mp hslice, hhere, hrest, rfl⟩

theorem here_eq_ok {bracket : Bracket} {slice : Decimal} {out : List Allocation}
    (h : here place bracket slice = .ok out) :
    (slice.value ≤ 0 ∧ out = []) ∨
      0 < slice.value ∧ ∃ a,
        make (bracket.name.getD ("Bracket " ++ toString place)) slice bracket.percentage = .ok a ∧
          out = [a] := by
  unfold here at h
  split at h
  · next hle =>
    cases h
    rw [le_iff, value_zero] at hle
    exact .inl ⟨hle, rfl⟩
  · next hgt =>
    rw [le_iff, value_zero, not_le] at hgt
    obtain ⟨a, ha, h⟩ := bind_eq_ok h
    cases h
    exact .inr ⟨hgt, a, ha, rfl⟩

theorem above_eq_ok {last : Bracket} {out : List Allocation}
    (h : above sales lower last = .ok out) :
    (sales.value ≤ lower.value ∧ out = []) ∨
      lower.value < sales.value ∧ ∃ rest name a, sales.sub? lower = some rest ∧
        make name rest last.percentage = .ok a ∧ out = [a] := by
  unfold above at h
  split at h
  · next hle =>
    cases h
    exact .inl ⟨(le_iff _ _).mp hle, rfl⟩
  · next hgt =>
    rw [le_iff, not_le] at hgt
    obtain ⟨rest, hrest, h⟩ := bind_eq_ok h
    obtain ⟨a, ha, h⟩ := bind_eq_ok h
    cases h
    exact .inr ⟨hgt, rest, _, a, unguarded_eq_ok.mp hrest, ha, rfl⟩

theorem allocate_eq_ok {brackets : List Bracket} {out : List Allocation}
    (h : allocate brackets sales = .ok out) :
    ∃ inside lower, within sales .zero 1 brackets = .ok (inside, lower) ∧
      ((brackets.getLast? = none ∧ out = inside) ∨
        ∃ last beyond, brackets.getLast? = some last ∧ above sales lower last = .ok beyond ∧
          out = inside ++ beyond) := by
  unfold allocate at h
  obtain ⟨⟨inside, lower⟩, hinside, h⟩ := bind_eq_ok h
  refine ⟨inside, lower, hinside, ?_⟩
  dsimp only at h
  split at h
  · next last hlast =>
    obtain ⟨beyond, hbeyond, h⟩ := bind_eq_ok h
    cases h
    exact .inr ⟨last, beyond, hlast, hbeyond, rfl⟩
  · next hnone =>
    cases h
    exact .inl ⟨hnone, rfl⟩

/-- What all allocations have that are made of positive amounts at the brackets' percentages. -/
theorem forall_of_within {P : Allocation → Prop} {brackets : List Bracket} {out : List Allocation}
    (hP : ∀ b ∈ brackets, ∀ (name : String) (slice : Decimal) (a : Allocation),
      0 < slice.value → make name slice b.percentage = .ok a → P a)
    (h : within sales lower place brackets = .ok (out, lower')) : ∀ a ∈ out, P a := by
  induction brackets generalizing lower place out with
  | nil =>
    cases h
    exact List.forall_mem_nil _
  | cons b rest ih =>
    rcases within_cons_eq_ok h with
      ⟨-, rfl, -⟩ | ⟨-, slice, allocations, others, -, hhere, hrest, rfl⟩
    · exact List.forall_mem_nil _
    · have hothers := ih (fun b hb => hP b (List.mem_cons_of_mem _ hb)) hrest
      rcases here_eq_ok hhere with ⟨-, rfl⟩ | ⟨hpos, a, ha, rfl⟩
      · exact hothers
      · exact List.forall_mem_cons.mpr ⟨hP b List.mem_cons_self _ slice a hpos ha, hothers⟩

theorem forall_of_allocate {P : Allocation → Prop} {brackets : List Bracket} {out : List Allocation}
    (hP : ∀ b ∈ brackets, ∀ (name : String) (slice : Decimal) (a : Allocation),
      0 ≤ slice.value → make name slice b.percentage = .ok a → P a)
    (h : allocate brackets sales = .ok out) : ∀ a ∈ out, P a := by
  obtain ⟨inside, lower, hinside, hout⟩ := allocate_eq_ok h
  have hwithin := forall_of_within
    (fun b hb name slice a hpos ha => hP b hb name slice a (le_of_lt hpos) ha) hinside
  rcases hout with ⟨-, rfl⟩ | ⟨last, beyond, hlast, hbeyond, rfl⟩
  · exact hwithin
  · refine List.forall_mem_append.mpr ⟨hwithin, ?_⟩
    rcases above_eq_ok hbeyond with ⟨-, rfl⟩ | ⟨hlt, rest, name, a, hrest, ha, rfl⟩
    · exact List.forall_mem_nil _
    · have hnonneg := sub?_nonneg (le_of_lt hlt) hrest
      exact List.forall_mem_singleton.mpr
        (hP last (List.mem_of_getLast? hlast) name rest a hnonneg ha)

/-- The invariant of allocation: what is allocated is not negative and ends at no later bracket's
threshold, unless that is negative. -/
structure Clears (lower : Decimal) (brackets : List Bracket) : Prop where
  nonneg : 0 ≤ lower.value
  le : ∀ b ∈ brackets, lower.value ≤ Max.max 0 b.threshold.value

theorem clears_zero (brackets : List Bracket) : Clears .zero brackets := by
  refine ⟨le_of_eq value_zero.symm, fun b _ => ?_⟩
  rw [value_zero]
  exact le_max_left _ _

theorem Clears.tail {bracket : Bracket} {rest : List Bracket} (h : Clears lower (bracket :: rest))
    (hascending : Bracket.Ascending (bracket :: rest)) :
    Clears (Decimal.max lower bracket.threshold) rest := by
  obtain ⟨hfirst, -⟩ := List.pairwise_cons.mp hascending
  refine ⟨?_, fun b hb => ?_⟩
  · rw [value_max]
    exact le_max_of_le_left h.nonneg
  · rw [value_max]
    exact max_le (h.le b (List.mem_cons_of_mem _ hb)) (le_max_of_le_right (hfirst b hb))

theorem Clears.slice_ne_none {bracket : Bracket} {rest : List Bracket}
    (h : Clears lower (bracket :: rest)) (hsales : lower.value < sales.value) :
    (Decimal.min sales bracket.threshold).sub? lower ≠ none := by
  have hle := h.le bracket List.mem_cons_self
  by_cases hthreshold : 0 ≤ bracket.threshold.value
  · refine sub?_ne_none ?_ h.nonneg
    rw [value_min]
    exact le_min (h.nonneg.trans (le_of_lt hsales)) hthreshold
  · rw [max_eq_left (le_of_lt (not_le.mp hthreshold))] at hle
    have hlower : lower.value = 0 := le_antisymm hle h.nonneg
    rw [ne_eq, sub?_eq_none_iff, hlower, sub_zero]
    exact not_tooLarge (abs_value_le _)

theorem unaborted_within {brackets : List Bracket} (h : Clears lower brackets)
    (hascending : Bracket.Ascending brackets) : Unaborted (within sales lower place brackets) := by
  induction brackets generalizing lower place with
  | nil => exact unaborted_ok _
  | cons bracket rest ih =>
    rw [within_cons]
    split
    · exact unaborted_ok _
    · next hgt =>
      rw [le_iff, not_le] at hgt
      refine (unaborted_unguarded.mpr (h.slice_ne_none hgt)).bind fun slice _ => ?_
      refine Unaborted.bind ?_ fun allocations _ => ?_
      · unfold here
        split
        · exact unaborted_ok _
        · exact (unaborted_make _ _ _).bind fun _ _ => unaborted_ok _
      · refine (ih (h.tail hascending) (List.pairwise_cons.mp hascending).2).bind fun _ _ => ?_
        exact unaborted_ok _

theorem nonneg_of_within {brackets : List Bracket} {out : List Allocation}
    (hlower : 0 ≤ lower.value) (h : within sales lower place brackets = .ok (out, lower')) :
    0 ≤ lower'.value := by
  induction brackets generalizing lower place out with
  | nil =>
    cases h
    exact hlower
  | cons bracket rest ih =>
    rcases within_cons_eq_ok h with ⟨-, -, rfl⟩ | ⟨-, slice, allocations, others, -, -, hrest, -⟩
    · exact hlower
    · refine ih ?_ hrest
      rw [value_max]
      exact le_max_of_le_left hlower

theorem unaborted_above {last : Bracket} (hlower : 0 ≤ lower.value) :
    Unaborted (above sales lower last) := by
  unfold above
  split
  · exact unaborted_ok _
  · next hgt =>
    rw [le_iff, not_le] at hgt
    have hfits := sub?_ne_none (hlower.trans (le_of_lt hgt)) hlower
    refine (unaborted_unguarded.mpr hfits).bind fun rest _ => ?_
    exact (unaborted_make _ _ _).bind fun _ _ => unaborted_ok _

theorem unaborted_allocate {brackets : List Bracket} (hascending : Bracket.Ascending brackets) :
    Unaborted (allocate brackets sales) := by
  unfold allocate
  refine (unaborted_within (clears_zero _) hascending).bind fun ⟨inside, lower⟩ hinside => ?_
  dsimp only
  split
  · have hlower := nonneg_of_within (le_of_eq value_zero.symm) hinside
    exact (unaborted_above hlower).bind fun _ _ => unaborted_ok _
  · exact unaborted_ok _

end

/-- A running total to which the next contribution cannot be added. -/
def Overruns (allocations : List Allocation) : Prop :=
  ∃ before a total, before ++ [a] <+: allocations ∧ sum before = .ok total ∧
    TooLarge (total.value + a.contribution.value)

theorem sum_concat (allocations : List Allocation) (a : Allocation) :
    sum (allocations ++ [a]) =
      sum allocations >>= fun total => unguarded .addition (total.add? a.contribution) := by
  unfold sum
  rw [List.foldlM_append]
  refine congrArg _ (funext fun total => ?_)
  exact bind_pure _

theorem overruns_concat {allocations : List Allocation} {a : Allocation} :
    Overruns (allocations ++ [a]) ↔
      Overruns allocations ∨
        ∃ total, sum allocations = .ok total ∧ TooLarge (total.value + a.contribution.value) := by
  constructor
  · rintro ⟨before, a', total, hinit, htotal, hlarge⟩
    rcases List.prefix_concat_iff.mp hinit with heq | hinit
    · obtain ⟨rfl, hlast⟩ := List.append_inj' heq rfl
      cases hlast
      exact .inr ⟨total, htotal, hlarge⟩
    · exact .inl ⟨before, a', total, hinit, htotal, hlarge⟩
  · rintro (⟨before, a', total, hinit, htotal, hlarge⟩ | ⟨total, htotal, hlarge⟩)
    · exact ⟨before, a', total, hinit.trans (List.prefix_append _ _), htotal, hlarge⟩
    · exact ⟨allocations, a, total, List.prefix_rfl, htotal, hlarge⟩

theorem unaborted_sum (allocations : List Allocation) :
    Unaborted (sum allocations) ↔ ¬Overruns allocations := by
  induction allocations using List.reverseRecOn with
  | nil =>
    refine iff_of_true (unaborted_ok _) ?_
    rintro ⟨before, a, -, hinit, -⟩
    exact absurd (List.prefix_nil.mp hinit) (by simp)
  | append_singleton allocations a ih =>
    rw [sum_concat, unaborted_bind, overruns_concat, ih, not_or]
    refine and_congr_right fun _ => ?_
    constructor
    · rintro h ⟨total, htotal, hlarge⟩
      exact unaborted_unguarded.mp (h total htotal) (add?_eq_none_iff.mpr hlarge)
    · intro h total htotal
      refine unaborted_unguarded.mpr fun hnone => ?_
      exact h ⟨total, htotal, add?_eq_none_iff.mp hnone⟩

theorem abs_contribution_le {name : String} {allocated percentage : Decimal} {a : Allocation}
    (h : make name allocated percentage = .ok a) :
    |a.contribution.value| ≤ 2 ^ 96 / 100 + 1 / 2 := by
  obtain ⟨product, -, hcontribution, -⟩ := make_eq_ok h
  have hnearest := nearest?_of_eq_some (value_div?_hundred product) hcontribution
  have hdist := abs_le.mp (abs_sub_le_of_nearest? hnearest)
  have hproduct := abs_le.mp (abs_value_le product)
  exact abs_le.mpr ⟨by linarith, by linarith⟩

theorem abs_sum_le {c : ℚ} {allocations : List Allocation}
    (hc : ∀ a ∈ allocations, |a.contribution.value| ≤ c) {total : Decimal}
    (h : sum allocations = .ok total) : |total.value| ≤ allocations.length * (c + 1 / 2) := by
  induction allocations using List.reverseRecOn generalizing total with
  | nil =>
    cases h
    rw [value_zero]
    simp
  | append_singleton allocations a ih =>
    rw [sum_concat] at h
    obtain ⟨before, hbefore, hadd⟩ := bind_eq_ok h
    have hih := abs_le.mp (ih (fun a' ha' => hc a' (List.mem_append_left _ ha')) hbefore)
    have ha := abs_le.mp (hc a (List.mem_append_right _ List.mem_cons_self))
    have hnearest :=
      nearest?_of_eq_some (value_add? before a.contribution) (unguarded_eq_ok.mp hadd)
    have hdist := abs_le.mp (abs_sub_le_of_nearest? hnearest)
    rw [List.length_append, List.length_singleton]
    push_cast
    exact abs_le.mpr ⟨by linarith, by linarith⟩

theorem le_length_of_overruns {allocations : List Allocation}
    (hmade : ∀ a ∈ allocations, |a.contribution.value| ≤ 2 ^ 96 / 100 + 1 / 2)
    (h : Overruns allocations) : 100 ≤ allocations.length := by
  obtain ⟨before, a, total, hinit, htotal, hlarge⟩ := h
  have hlength := hinit.length_le
  rw [List.length_append, List.length_singleton] at hlength
  have hbefore := abs_le.mp (abs_sum_le (fun a' ha' =>
    hmade a' (hinit.subset (List.mem_append_left _ ha'))) htotal)
  have ha := abs_le.mp (hmade a (hinit.subset (List.mem_append_right _ List.mem_cons_self)))
  by_contra hshort
  have hcount : (before.length : ℚ) ≤ 98 := by exact_mod_cast (by omega : before.length ≤ 98)
  refine not_tooLarge ?_ hlarge
  norm_num at hbefore ha ⊢
  exact abs_le.mpr ⟨by linarith, by linarith⟩

section
variable {sales lower lower' : Decimal} {place : ℕ} {brackets : List Bracket}
variable {out : List Allocation}

theorem length_within_le (h : within sales lower place brackets = .ok (out, lower')) :
    out.length ≤ brackets.length := by
  induction brackets generalizing lower place out with
  | nil =>
    cases h
    exact le_rfl
  | cons b rest ih =>
    rcases within_cons_eq_ok h with
      ⟨-, rfl, -⟩ | ⟨-, slice, allocations, others, -, hhere, hrest, rfl⟩
    · exact Nat.zero_le _
    · have hothers := ih hrest
      rcases here_eq_ok hhere with ⟨-, rfl⟩ | ⟨-, a, -, rfl⟩
      · exact hothers.trans (Nat.le_succ _)
      · exact Nat.succ_le_succ hothers

theorem length_allocate_le (h : allocate brackets sales = .ok out) :
    out.length ≤ brackets.length + 1 := by
  obtain ⟨inside, lower, hinside, hout⟩ := allocate_eq_ok h
  have hlength := length_within_le hinside
  rcases hout with ⟨-, rfl⟩ | ⟨last, beyond, -, hbeyond, rfl⟩
  · exact hlength.trans (Nat.le_succ _)
  · rw [List.length_append]
    refine Nat.add_le_add hlength ?_
    rcases above_eq_ok hbeyond with ⟨-, rfl⟩ | ⟨-, rest, name, a, -, -, rfl⟩
    · exact Nat.zero_le 1
    · exact le_refl 1

end

end Allocation

/-- Sales that earn a commission whose contributions do not add up. -/
def BracketTerms.Overflows (terms : BracketTerms) (sales : Decimal) : Prop :=
  sales.lt terms.threshold = false ∧ ∃ allocations,
    Allocation.allocate terms.brackets sales = .ok allocations ∧ Allocation.Overruns allocations

theorem BracketTerms.Overflows.le_length {terms : BracketTerms} {sales : Decimal}
    (h : terms.Overflows sales) : 99 ≤ terms.brackets.length := by
  obtain ⟨-, allocations, hallocate, hoverruns⟩ := h
  have hmade := Allocation.forall_of_allocate
    (fun _ _ _ _ _ _ ha => Allocation.abs_contribution_le ha) hallocate
  have hcount := Allocation.le_length_of_overruns hmade hoverruns
  have hlength := Allocation.length_allocate_le hallocate
  omega

namespace Pay

theorem bracketEarnings_eq (terms : BracketTerms) (sales : Decimal) :
    bracketEarnings terms sales =
      (if sales.lt terms.threshold then .ok [] else Allocation.allocate terms.brackets sales) >>=
        fun allocations => Allocation.sum allocations >>= fun total =>
          .ok
            { base := terms.base, commission := total.roundCents
              targetBonus := (targetBonus terms.targetBonus sales).1
              lines := baseLine terms.base :: allocations.map Allocation.line ++
                (targetBonus terms.targetBonus sales).2 } := by
  unfold bracketEarnings
  cases sales.lt terms.threshold <;> rfl

theorem bracketEarnings_of_reached {terms : BracketTerms} {sales : Decimal}
    (h : sales.lt terms.threshold = false) :
    bracketEarnings terms sales =
      Allocation.allocate terms.brackets sales >>= fun allocations =>
        Allocation.sum allocations >>= fun total =>
          .ok
            { base := terms.base, commission := total.roundCents
              targetBonus := (targetBonus terms.targetBonus sales).1
              lines := baseLine terms.base :: allocations.map Allocation.line ++
                (targetBonus terms.targetBonus sales).2 } := by
  rw [bracketEarnings_eq, h]
  rfl

theorem unaborted_bracketEarnings {terms : BracketTerms} {sales : Decimal}
    (hascending : Bracket.Ascending terms.brackets) :
    Unaborted (bracketEarnings terms sales) ↔ ¬terms.Overflows sales := by
  unfold BracketTerms.Overflows
  cases hbelow : sales.lt terms.threshold with
  | true =>
    have hearnings : Unaborted (bracketEarnings terms sales) := by
      unfold bracketEarnings
      rw [if_pos hbelow]
      exact unaborted_ok _
    exact iff_of_true hearnings fun h => by cases h.1
  | false =>
    rw [bracketEarnings_of_reached hbelow, unaborted_bind,
      and_iff_right (Allocation.unaborted_allocate hascending)]
    constructor
    · rintro h ⟨-, allocations, hallocate, hoverruns⟩
      exact (Allocation.unaborted_sum allocations).mp
        (unaborted_bind.mp (h allocations hallocate)).1 hoverruns
    · intro h allocations hallocate
      refine Unaborted.bind ?_ fun _ _ => unaborted_ok _
      exact (Allocation.unaborted_sum allocations).mpr fun hoverruns =>
        h ⟨rfl, allocations, hallocate, hoverruns⟩

theorem bracketed_eq_ok {r : Request} {p : Payslip} (h : bracketed r = .ok p) :
    ∃ terms e, BracketTerms.ofPlan r.plan = .ok terms ∧ bracketEarnings terms r.sales = .ok e ∧
      Payslip.assemble r e = .ok p := by
  unfold bracketed at h
  obtain ⟨terms, hterms, h⟩ := bind_eq_ok h
  obtain ⟨e, he, h⟩ := bind_eq_ok h
  exact ⟨terms, e, ofError_eq_ok.mp hterms, he, ofError_eq_ok.mp h⟩

theorem unaborted_bracketed {r : Request} :
    Unaborted (bracketed r) ↔
      ¬∃ terms, BracketTerms.ofPlan r.plan = .ok terms ∧ terms.Overflows r.sales := by
  unfold bracketed
  cases hterms : BracketTerms.ofPlan r.plan with
  | error cause =>
    refine iff_of_true ((unaborted_ofError _).bind nofun) ?_
    rintro ⟨terms, h, -⟩
    cases h
  | ok terms =>
    have hofError : ofError (Except.ok terms : Except PayError BracketTerms) = .ok terms := rfl
    rw [unaborted_bind_of_ok hofError, unaborted_bind,
      unaborted_bracketEarnings (BracketTerms.ascending_of_ofPlan hterms)]
    constructor
    · rintro ⟨h, -⟩ ⟨terms', hterms', hoverflows⟩
      cases hterms'
      exact h hoverflows
    · intro h
      exact ⟨fun hoverflows => h ⟨terms, rfl, hoverflows⟩, fun _ _ => unaborted_ofError _⟩

end Pay

end Payroll
