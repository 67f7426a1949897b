import Payroll.Proofs.Decimal.Sorted
import Payroll.Proofs.Pay.Overflow
import Payroll.Proofs.Pay.Reading
import Payroll.Proofs.Plan.Forms

/-!
# Tiers

One tier of a table pays: of those whose thresholds sales reach the highest, and of several with
that threshold the one that is listed last, in whatever order the table is written. So if higher
tiers have no smaller bonuses, more sales earn no smaller one.
-/

set_option autoImplicit false

namespace Payroll

open Decimal

namespace BonusTier

/-- Of the tiers in a table, the one that pays for these sales. -/
structure Pays (tiers : List BonusTier) (sales : Decimal) (tier : BonusTier) : Prop where
  reached : tier.threshold.value ≤ sales.value
  highest : ∀ other ∈ tiers, other.threshold.value ≤ sales.value →
    other.threshold.value ≤ tier.threshold.value
  last : (tiers.filter fun other => other.threshold.value = tier.threshold.value).getLast? =
    some tier

/-- No bonus is negative, or smaller than that of a lower tier. -/
structure Rise (tiers : List BonusTier) : Prop where
  nonneg : ∀ tier ∈ tiers, 0 ≤ tier.bonus.value
  rise : ∀ low ∈ tiers, ∀ high ∈ tiers, low.threshold.value < high.threshold.value →
    low.bonus.value ≤ high.bonus.value

variable {tiers : List BonusTier} {sales sales' : Decimal} {low high tier : BonusTier}

theorem Pays.mem (h : Pays tiers sales tier) : tier ∈ tiers :=
  List.mem_of_mem_filter (List.mem_of_getLast? h.last)

theorem Pays.eq_or_lt (hlow : Pays tiers sales low) (hhigh : Pays tiers sales' high)
    (hsales : sales.value ≤ sales'.value) :
    low = high ∨ low.threshold.value < high.threshold.value := by
  have hle := hhigh.highest low hlow.mem (hlow.reached.trans hsales)
  rcases hle.eq_or_lt with heq | hlt
  · have hlast := hhigh.last
    rw [← heq, hlow.last] at hlast
    exact .inl (Option.some.inj hlast)
  · exact .inr hlt

theorem sorted_of_swapped {a b c : BonusTier}
    (hab : a.threshold.le b.threshold = false) (hbc : b.threshold.le c.threshold = true)
    (hac : a.threshold.le c.threshold = true) :
    sorted [a, b, c] = [b, a, c] := by
  simp [sorted, List.mergeSort, hab, hbc, hac]

end BonusTier

namespace Pay

variable {tiers : List BonusTier} {sales : Decimal} {tier : BonusTier}

/-- Tiers in order are looked through to the last one that sales reach. -/
theorem reachedTier?_of_pairwise
    (h : tiers.Pairwise fun a b => a.threshold.value ≤ b.threshold.value) :
    reachedTier? tiers sales = (tiers.filter (·.threshold.le sales)).getLast? := by
  unfold reachedTier?
  replace h := h.filter (·.threshold.le sales)
  generalize tiers.filter (·.threshold.le sales) = reached at h
  induction reached using List.reverseRecOn with
  | nil => rfl
  | append_singleton init x ih =>
    obtain ⟨hinit, -, hx⟩ := List.pairwise_append.mp h
    rw [List.foldl_append, ih hinit, List.getLast?_concat]
    cases hlast : init.getLast? with
    | none => rfl
    | some b =>
      have hle := hx b (List.mem_of_getLast? hlast) x (List.mem_singleton_self x)
      exact if_pos ((le_iff _ _).mpr hle)

theorem reachedTier?_sorted :
    reachedTier? (BonusTier.sorted tiers) sales =
      ((BonusTier.sorted tiers).filter (·.threshold.le sales)).getLast? :=
  reachedTier?_of_pairwise (pairwise_mergeSort BonusTier.threshold tiers)

theorem reachedTier?_sorted_eq_none_iff :
    reachedTier? (BonusTier.sorted tiers) sales = none ↔
      ∀ tier ∈ tiers, sales.value < tier.threshold.value := by
  rw [reachedTier?_sorted, List.getLast?_eq_none_iff, List.filter_eq_nil_iff]
  simp only [BonusTier.sorted, List.mem_mergeSort, le_iff, not_le]

theorem pays_of_reachedTier? (h : reachedTier? (BonusTier.sorted tiers) sales = some tier) :
    BonusTier.Pays tiers sales tier := by
  rw [reachedTier?_sorted] at h
  obtain ⟨init, hinit⟩ := List.getLast?_eq_some_iff.mp h
  have hmem {other : BonusTier} :
      other ∈ init ++ [tier] ↔ other ∈ tiers ∧ other.threshold.value ≤ sales.value := by
    rw [← hinit, List.mem_filter, BonusTier.sorted, List.mem_mergeSort, le_iff]
  have hreached := (hmem.mp (List.mem_append_right _ (List.mem_singleton_self tier))).2
  refine ⟨hreached, ?_, ?_⟩
  · intro other hother hle
    have hpairwise := (pairwise_mergeSort BonusTier.threshold tiers).filter (·.threshold.le sales)
    rw [← BonusTier.sorted, hinit] at hpairwise
    rcases List.mem_append.mp (hmem.mpr ⟨hother, hle⟩) with hother | hother
    · exact (List.pairwise_append.mp hpairwise).2.2 other hother tier (List.mem_singleton_self tier)
    · rw [List.mem_singleton.mp hother]
  · -- Sales reach all tiers of this threshold, so these end with the same one.
    have hequal : (tiers.filter fun other => other.threshold.value = tier.threshold.value) =
        (init ++ [tier]).filter fun other => other.threshold.value = tier.threshold.value := by
      rw [← filter_mergeSort BonusTier.threshold tiers, ← BonusTier.sorted, ← hinit,
        List.filter_filter]
      refine List.filter_congr fun other _ => ?_
      by_cases hother : other.threshold.value = tier.threshold.value
      · simp [hother, (le_iff _ _).mpr (hother.trans_le hreached)]
      · simp [hother]
    rw [hequal, List.filter_append, List.filter_cons_of_pos (by simp), List.filter_nil,
      List.getLast?_concat]

theorem value_tierBonus_of_none (h : reachedTier? tiers sales = none) :
    (tierBonus tiers sales).1.value = 0 := by
  unfold tierBonus
  rw [h]
  exact value_zero

theorem value_tierBonus_of_some (h : reachedTier? tiers sales = some tier) :
    (tierBonus tiers sales).1.value = tier.bonus.value := by
  unfold tierBonus
  rw [h]
  dsimp only
  split
  · next hzero => rw [(isZero_iff _).mp hzero, value_zero]
  · rfl

theorem tierBonus_cases (tiers : List BonusTier) (sales : Decimal) :
    ((∀ tier ∈ tiers, sales.value < tier.threshold.value) ∧
        (tierBonus (BonusTier.sorted tiers) sales).1.value = 0) ∨
      ∃ tier, BonusTier.Pays tiers sales tier ∧
        (tierBonus (BonusTier.sorted tiers) sales).1.value = tier.bonus.value := by
  cases h : reachedTier? (BonusTier.sorted tiers) sales with
  | none => exact .inl ⟨reachedTier?_sorted_eq_none_iff.mp h, value_tierBonus_of_none h⟩
  | some tier => exact .inr ⟨tier, pays_of_reachedTier? h, value_tierBonus_of_some h⟩

theorem value_tierBonus_mono {sales' : Decimal} (hrise : BonusTier.Rise tiers)
    (hsales : sales.value ≤ sales'.value) :
    (tierBonus (BonusTier.sorted tiers) sales).1.value ≤
      (tierBonus (BonusTier.sorted tiers) sales').1.value := by
  rcases tierBonus_cases tiers sales with ⟨-, hbonus⟩ | ⟨low, hlow, hbonus⟩ <;>
    rcases tierBonus_cases tiers sales' with ⟨hnone, hbonus'⟩ | ⟨high, hhigh, hbonus'⟩ <;>
      rw [hbonus, hbonus']
  · exact hrise.nonneg high hhigh.mem
  · exact absurd (hlow.reached.trans hsales) (not_le.mpr (hnone low hlow.mem))
  · rcases hlow.eq_or_lt hhigh hsales with rfl | hlt
    · rfl
    · exact hrise.rise low hlow.mem high hhigh.mem hlt

theorem targetBonus_of_earnings {rule : CommissionRule} {terms : SalaryTerms} {e : Earnings}
    (h : rule.earnings terms sales = .ok e) :
    e.targetBonus = (tierBonus terms.tiers sales).1 := by
  unfold CommissionRule.earnings at h
  cases hterms : terms.commission with
  | none =>
    rw [hterms] at h
    cases h
    rfl
  | some c =>
    rw [hterms] at h
    obtain ⟨commission, -, h⟩ := bind_eq_ok h
    cases h
    rfl

theorem targetBonus_of_salaried {rule : CommissionRule} {r : Request} {p : Payslip}
    (h : salaried rule r = .ok p) :
    ∃ t : SalaryTerms, t.Written r.plan.config ∧
      p.targetBonus = (tierBonus (BonusTier.sorted t.tiers) r.sales).1 := by
  obtain ⟨terms, e, hterms, he, hp⟩ := salaried_eq_ok h
  obtain ⟨t, rfl, ht⟩ := SalaryTerms.exists_written_of_ofPlan hterms
  obtain ⟨_, _, _, _, -, -, -, -, rfl⟩ := Payslip.assemble_eq_ok hp
  exact ⟨t, ht, targetBonus_of_earnings he⟩

end Pay

theorem Calculator.targetBonus_of_compute {c : Calculator}
    (hc : c.kind = .fixed ∨ c.kind = .commission) {r : Request} {p : Payslip}
    (h : c.compute r = .ok p) :
    ∃ t : SalaryTerms, t.Written r.plan.config ∧
      p.targetBonus = (Pay.tierBonus (BonusTier.sorted t.tiers) r.sales).1 := by
  unfold compute at h
  rcases hc with hc | hc <;> rw [hc] at h <;> exact Pay.targetBonus_of_salaried h

/-- Fixed and commission plans pay the bonus of one tier in the table as it is configured, or none
if sales reach none. If bonuses rise with their thresholds, then more sales earn no smaller one. -/
theorem Calculator.highest_tier_pays {c : Calculator}
    (hc : c.kind = .fixed ∨ c.kind = .commission) {r : Request} {p : Payslip}
    (hp : c.compute r = .ok p) :
    ∃ t : SalaryTerms, t.Written r.plan.config ∧
      ((∀ tier ∈ t.tiers, r.sales.value < tier.threshold.value) → p.targetBonus.value = 0) ∧
      ((∃ tier ∈ t.tiers, tier.threshold.value ≤ r.sales.value) →
        ∃ tier, BonusTier.Pays t.tiers r.sales tier ∧ p.targetBonus.value = tier.bonus.value) ∧
      (BonusTier.Rise t.tiers → ∀ sales p', r.sales.value ≤ sales.value →
        c.compute { r with sales } = .ok p' → p.targetBonus.value ≤ p'.targetBonus.value) := by
  obtain ⟨t, ht, hbonus⟩ := targetBonus_of_compute hc hp
  rw [hbonus]
  refine ⟨t, ht, ?_, ?_, ?_⟩
  · intro hnone
    rcases Pay.tierBonus_cases t.tiers r.sales with ⟨-, hbonus⟩ | ⟨tier, hpays, -⟩
    · exact hbonus
    · exact absurd hpays.reached (not_le.mpr (hnone tier hpays.mem))
  · rintro ⟨tier, htier, hreached⟩
    rcases Pay.tierBonus_cases t.tiers r.sales with ⟨hnone, -⟩ | hpays
    · exact absurd hreached (not_le.mpr (hnone tier htier))
    · exact hpays
  · intro hrise sales p' hsales hp'
    obtain ⟨t', ht', hbonus'⟩ := targetBonus_of_compute hc hp'
    have htiers : BonusTier.sorted t'.tiers = BonusTier.sorted t.tiers :=
      congrArg SalaryTerms.tiers (ht'.inOrder_eq ht)
    rw [hbonus', htiers]
    exact Pay.value_tierBonus_mono hrise hsales

def doubledRequest : Request where
  employee := { id := "e1" }
  plan :=
    { id := "p1", type := "fixed", name := "Plan"
      config := .object
        [("base_salary", .string "0"),
          ("bonus_tiers", .array
            [.array [.natural 100, .natural 5], .array [.natural 50, .natural 3],
              .array [.natural 100, .natural 7]])] }
  sales := .hundred
  period := "2024-01"

theorem Calculator.highest_tier_pays_doubledRequest :
    ∃ p, ({ kind := .fixed } : Calculator).compute doubledRequest = .ok p ∧
      p.targetBonus.value = 7 ∧ ∃ t : SalaryTerms, t.Written doubledRequest.plan.config ∧
        ∃ tier, BonusTier.Pays t.tiers doubledRequest.sales tier ∧ tier.bonus.value = 7 := by
  have hterms : SalaryTerms.ofPlan doubledRequest.plan = .ok
      { base := .zero
        tiers := BonusTier.sorted
          [⟨.hundred, ⟨false, 5, 0, by decide, by decide⟩⟩,
            ⟨⟨false, 50, 0, by decide, by decide⟩, ⟨false, 3, 0, by decide, by decide⟩⟩,
            ⟨.hundred, ⟨false, 7, 0, by decide, by decide⟩⟩] } :=
    rfl
  rw [BonusTier.sorted_of_swapped (by decide) (by decide) (by decide)] at hterms
  have hanswer : (({ kind := .fixed } : Calculator).compute doubledRequest).toOption.map
      (·.targetBonus) = some { Decimal.zero with magnitude := 7, magnitude_lt := by decide } := by
    change (Pay.salaried .fixed doubledRequest).toOption.map (·.targetBonus) = _
    rw [Pay.salaried, hterms]
    rfl
  obtain ⟨p, hp, hbonus⟩ := exists_ok_of_toOption_map hanswer
  have hvalue : p.targetBonus.value = 7 := by
    rw [hbonus]
    decide +kernel
  obtain ⟨t, ht, hnone, hpays, -⟩ := highest_tier_pays (.inl rfl) hp
  have hreached : ∃ tier ∈ t.tiers, tier.threshold.value ≤ doubledRequest.sales.value := by
    by_contra hunreached
    have hzero := hnone fun tier htier => not_le.mp fun hle => hunreached ⟨tier, htier, hle⟩
    rw [hvalue] at hzero
    exact absurd hzero (by decide)
  obtain ⟨tier, htier, htierValue⟩ := hpays hreached
  exact ⟨p, hp, hvalue, t, ht, tier, htier, htierValue.symm.trans hvalue⟩

end Payroll
