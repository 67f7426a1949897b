import Payroll.Pay.Salaried
import Payroll.Proofs.Decimal.Quotient
import Payroll.Proofs.Outcome

/-!
# Amounts that nothing guards

A fixed or a commission plan divides its rate, writes it as a percentage and takes the threshold
away from the sales, and guards none of the three. The rate always fits. The sales above the
threshold need not, for a threshold may be negative.
-/

set_option autoImplicit false

namespace Payroll.Pay

open Decimal Halt

theorem exists_fraction (rate : Decimal) :
    ∃ f, fraction rate = .ok f ∧ (0 < f.value ↔ 0 < rate.value) ∧
      (0 < rate.value → f.value * 100 ≤ 2 ^ 96 - 1) := by
  unfold fraction
  split
  · next hle =>
    rw [le_iff, value_one] at hle
    exact ⟨rate, rfl, Iff.rfl, fun _ => by linarith⟩
  · next hgt =>
    rw [le_iff, value_one, not_le] at hgt
    obtain ⟨f, hf, hnearest⟩ := exists_div?_hundred rate
    obtain ⟨hpos, hfits⟩ := hundredth_spec hgt hnearest
    rw [hf]
    exact ⟨f, rfl, iff_of_true hpos (by linarith), fun _ => hfits⟩

theorem unaborted_percentText {rate : Decimal} (hrate : 0 < rate.value) :
    Unaborted (percentText rate) := by
  obtain ⟨f, hf, hpos, hfits⟩ := exists_fraction rate
  unfold percentText
  rw [unaborted_bind_of_ok hf]
  refine Unaborted.bind (unaborted_unguarded.mpr fun hnone => ?_) fun _ _ => unaborted_ok _
  refine not_tooLarge ?_ (mul?_eq_none_iff.mp hnone)
  rw [value_hundred, abs_of_pos (by linarith [hpos.mpr hrate])]
  exact hfits hrate

/-- Sales that earn a commission by the rule and exceed the threshold by too much. -/
def CommissionRule.Overflows (rule : CommissionRule) (terms : CommissionTerms) (sales : Decimal) :
    Prop :=
  rule.below sales terms.threshold = false ∧ 0 < terms.rate.value ∧
    TooLarge (sales.value - terms.threshold.value)

/-- A rule whose wording takes away nothing but the threshold. -/
def CommissionRule.Describes (rule : CommissionRule) : Prop :=
  ∀ (percent : String) (terms : CommissionTerms) (sales : Decimal),
    sales.sub? terms.threshold ≠ none → Unaborted (rule.description percent terms sales)

theorem describes_fixed : CommissionRule.fixed.Describes := fun _ _ _ _ => unaborted_ok _

theorem describes_sales : CommissionRule.sales.Describes := fun _ _ _ h =>
  (unaborted_unguarded.mpr h).bind fun _ _ => unaborted_ok _

section
variable {rule : CommissionRule} {terms : CommissionTerms} {sales : Decimal}

def CommissionRule.above (rule : CommissionRule) (terms : CommissionTerms) (sales rate : Decimal) :
    Except Halt Decimal := do
  let above ← unguarded .subtraction (sales.sub? terms.threshold)
  let commission ← guarded rule.context (above.mul? rate)
  return rule.round commission

theorem unaborted_above {rate : Decimal} :
    Unaborted (rule.above terms sales rate) ↔ ¬TooLarge (sales.value - terms.threshold.value) := by
  rw [← sub?_eq_none_iff]
  unfold CommissionRule.above
  rw [unaborted_bind, unaborted_unguarded]
  refine and_iff_left fun _ _ => ?_
  exact (unaborted_guarded _ _).bind fun _ _ => unaborted_ok _

theorem amount_of_fraction {f : Decimal} (hf : fraction terms.rate = .ok f) :
    rule.amount terms sales =
      if rule.below sales terms.threshold || f.le .zero then .ok .zero
      else rule.above terms sales f := by
  unfold CommissionRule.amount
  rw [hf]
  rfl

theorem amount_cases (rule : CommissionRule) (terms : CommissionTerms) (sales : Decimal) :
    (rule.amount terms sales = .ok .zero ∧
        ¬(rule.below sales terms.threshold = false ∧ 0 < terms.rate.value)) ∨
      (rule.below sales terms.threshold = false ∧ 0 < terms.rate.value) ∧
        ∃ f, rule.amount terms sales = rule.above terms sales f := by
  obtain ⟨f, hf, hpos, -⟩ := exists_fraction terms.rate
  have hrate : f.le .zero = true ↔ ¬0 < terms.rate.value := by
    rw [← hpos, le_iff, value_zero, not_lt]
  rw [amount_of_fraction hf]
  by_cases hnone : (rule.below sales terms.threshold || f.le .zero) = true
  · rw [if_pos hnone]
    refine .inl ⟨rfl, fun ⟨hbelow, hearns⟩ => ?_⟩
    rw [hbelow, Bool.false_or] at hnone
    exact hrate.mp hnone hearns
  · rw [if_neg hnone]
    rw [Bool.or_eq_true, not_or, hrate, not_not, Bool.not_eq_true] at hnone
    exact .inr ⟨hnone, f, rfl⟩

theorem unaborted_amount : Unaborted (rule.amount terms sales) ↔ ¬rule.Overflows terms sales := by
  unfold CommissionRule.Overflows
  rw [← and_assoc]
  rcases amount_cases rule terms sales with ⟨hamount, hnone⟩ | ⟨hearns, f, hamount⟩
  · rw [hamount]
    exact iff_of_true (unaborted_ok _) fun h => hnone h.1
  · rw [hamount, unaborted_above, not_and, forall_prop_of_true hearns]

theorem earns_of_amount {amount : Decimal} (hamount : rule.amount terms sales = .ok amount)
    (hzero : ¬amount.isZero = true) :
    0 < terms.rate.value ∧ sales.sub? terms.threshold ≠ none := by
  rcases amount_cases rule terms sales with ⟨hnone, -⟩ | ⟨⟨-, hrate⟩, f, habove⟩
  · rw [hnone] at hamount
    cases hamount
    exact absurd rfl hzero
  · refine ⟨hrate, ?_⟩
    rw [habove] at hamount
    obtain ⟨above, hsub, -⟩ := bind_eq_ok hamount
    intro hnone
    rw [hnone] at hsub
    cases hsub

variable (hrule : rule.Describes)
include hrule

theorem unaborted_earned : Unaborted (rule.earned terms sales) ↔ ¬rule.Overflows terms sales := by
  unfold CommissionRule.earned
  rw [unaborted_bind, unaborted_amount]
  refine and_iff_left fun amount hamount => ?_
  split
  · exact unaborted_ok _
  · next hzero =>
    obtain ⟨hrate, hsub⟩ := earns_of_amount hamount hzero
    refine (unaborted_percentText hrate).bind fun percent _ => ?_
    exact (hrule percent terms sales hsub).bind fun _ _ => unaborted_ok _

theorem unaborted_earnings {terms : SalaryTerms} :
    Unaborted (rule.earnings terms sales) ↔
      ∀ c, terms.commission = some c → ¬rule.Overflows c sales := by
  unfold CommissionRule.earnings
  cases hc : terms.commission with
  | none => exact iff_of_true (unaborted_ok _) nofun
  | some c =>
    rw [unaborted_bind]
    dsimp only
    rw [unaborted_earned hrule]
    constructor
    · rintro ⟨h, -⟩ c' hc'
      cases hc'
      exact h
    · intro h
      exact ⟨h c rfl, fun _ _ => unaborted_ok _⟩

theorem unaborted_salaried {r : Request} :
    Unaborted (salaried rule r) ↔
      ¬∃ terms c, SalaryTerms.ofPlan r.plan = .ok terms ∧ terms.commission = some c ∧
        rule.Overflows c r.sales := by
  unfold salaried
  cases hterms : SalaryTerms.ofPlan r.plan with
  | error cause =>
    refine iff_of_true ((unaborted_ofError _).bind nofun) ?_
    rintro ⟨terms, c, h, -⟩
    cases h
  | ok terms =>
    have hofError : ofError (Except.ok terms : Except PayError SalaryTerms) = .ok terms := rfl
    rw [unaborted_bind_of_ok hofError, unaborted_bind, unaborted_earnings hrule]
    constructor
    · rintro ⟨h, -⟩ ⟨terms', c, hterms', hc, hoverflows⟩
      cases hterms'
      exact h c hc hoverflows
    · intro h
      refine ⟨fun c hc hoverflows => h ⟨terms, c, rfl, hc, hoverflows⟩, fun _ _ => ?_⟩
      exact unaborted_ofError _

end

theorem salaried_eq_ok {rule : CommissionRule} {r : Request} {p : Payslip}
    (h : salaried rule r = .ok p) :
    ∃ terms e, SalaryTerms.ofPlan r.plan = .ok terms ∧ rule.earnings terms r.sales = .ok e ∧
      Payslip.assemble r e = .ok p := by
  unfold salaried at h
  obtain ⟨terms, hterms, h⟩ := bind_eq_ok h
  obtain ⟨e, he, h⟩ := bind_eq_ok h
  exact ⟨terms, e, ofError_eq_ok.mp hterms, he, ofError_eq_ok.mp h⟩

theorem le_of_below_fixed {sales threshold : Decimal}
    (h : CommissionRule.fixed.below sales threshold = false) : threshold.value ≤ sales.value := by
  have h : sales.le threshold = false := h
  rw [← Bool.not_eq_true, le_iff, not_le] at h
  exact le_of_lt h

theorem le_of_below_sales {sales threshold : Decimal}
    (h : CommissionRule.sales.below sales threshold = false) : threshold.value ≤ sales.value := by
  have h : sales.lt threshold = false := h
  rwa [← Bool.not_eq_true, lt_iff, not_lt] at h

/-- It takes a negative threshold. -/
theorem CommissionRule.Overflows.threshold_neg {rule : CommissionRule} {terms : CommissionTerms}
    {sales : Decimal} (hrule : rule.below sales terms.threshold = false →
      terms.threshold.value ≤ sales.value)
    (h : rule.Overflows terms sales) : terms.threshold.value < 0 := by
  obtain ⟨hbelow, -, hlarge⟩ := h
  have hle := hrule hbelow
  by_contra hthreshold
  refine not_tooLarge ?_ hlarge
  have hsales := abs_le.mp (abs_value_le sales)
  exact abs_le.mpr ⟨by linarith, by linarith⟩

end Payroll.Pay
