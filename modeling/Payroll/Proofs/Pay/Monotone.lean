import Mathlib.Data.List.Forall2
import Payroll.Calculator
import Payroll.Proofs.Pay.Allocation
import Payroll.Proofs.Pay.Overflow
import Payroll.Proofs.Pay.Reading

/-!
# Larger sales

Two requests that differ in their sales alone: the one with the larger sales has no smaller
commission, with every rounding on the way. For brackets the two runs are aligned. As long as both
go on they see the same lower ends, so each allocation of the smaller sales has a partner among
those of the larger ones, and what has no partner is not negative.
-/

set_option autoImplicit false

namespace Payroll

open Decimal Halt

namespace Pay

/-- A rule that pays no less for more. -/
structure CommissionRule.Rises (rule : CommissionRule) : Prop where
  le_of_below : ∀ sales threshold, rule.below sales threshold = false →
    threshold.value ≤ sales.value
  below_of_le : ∀ sales sales' threshold, sales.value ≤ sales'.value →
    rule.below sales threshold = false → rule.below sales' threshold = false
  round_of_le : ∀ a b, a.value ≤ b.value → (rule.round a).value ≤ (rule.round b).value
  round_of_zero : ∀ a, a.value = 0 → (rule.round a).value = 0

theorem rises_fixed : CommissionRule.fixed.Rises where
  le_of_below _ _ := le_of_below_fixed
  below_of_le sales sales' threshold hle h := by
    have h : sales.le threshold = false := h
    have h' : sales'.le threshold = false := by
      rw [← Bool.not_eq_true, le_iff, not_le] at h ⊢
      exact h.trans_le hle
    exact h'
  round_of_le _ _ := roundPlaces_mono 2
  round_of_zero _ := roundPlaces_of_value_eq_zero 2

theorem rises_sales : CommissionRule.sales.Rises where
  le_of_below _ _ := le_of_below_sales
  below_of_le sales sales' threshold hle h := by
    have h : sales.lt threshold = false := h
    have h' : sales'.lt threshold = false := by
      rw [← Bool.not_eq_true, lt_iff, not_lt] at h ⊢
      exact h.trans hle
    exact h'
  round_of_le _ _ := roundPlaces_mono 0
  round_of_zero _ := roundPlaces_of_value_eq_zero 0

section
variable {rule : CommissionRule} (hrule : rule.Rises) {terms : CommissionTerms}
variable {sales sales' f a a' : Decimal}

theorem amount_eq_ok (hf : fraction terms.rate = .ok f) (h : rule.amount terms sales = .ok a) :
    (a = .zero ∧ ¬(rule.below sales terms.threshold = false ∧ 0 < f.value)) ∨
      rule.below sales terms.threshold = false ∧ 0 < f.value ∧
        ∃ d m, sales.sub? terms.threshold = some d ∧ d.mul? f = some m ∧ a = rule.round m := by
  rw [amount_of_fraction hf] at h
  split at h
  · next hnone =>
    cases h
    refine .inl ⟨rfl, fun ⟨hbelow, hpos⟩ => ?_⟩
    rw [hbelow, Bool.false_or, le_iff, value_zero] at hnone
    exact absurd hpos (not_lt.mpr hnone)
  · next hearns =>
    rw [Bool.or_eq_true, not_or, Bool.not_eq_true, le_iff, value_zero, not_le] at hearns
    unfold CommissionRule.above at h
    obtain ⟨d, hd, h⟩ := bind_eq_ok h
    obtain ⟨m, hm, h⟩ := bind_eq_ok h
    cases h
    exact .inr ⟨hearns.1, hearns.2, d, m, unguarded_eq_ok.mp hd, guarded_eq_ok.mp hm, rfl⟩

include hrule

theorem round_nonneg (ha : 0 ≤ a.value) : 0 ≤ (rule.round a).value := by
  rw [← hrule.round_of_zero .zero value_zero]
  apply hrule.round_of_le
  rw [value_zero]
  exact ha

theorem amount_nonneg (h : rule.amount terms sales = .ok a) : 0 ≤ a.value := by
  obtain ⟨f, hf, -⟩ := exists_fraction terms.rate
  rcases amount_eq_ok hf h with ⟨rfl, -⟩ | ⟨hbelow, hpos, d, m, hd, hm, rfl⟩
  · rw [value_zero]
  · have hnonneg := sub?_nonneg (hrule.le_of_below _ _ hbelow) hd
    exact round_nonneg hrule (mul?_nonneg hnonneg (le_of_lt hpos) hm)

theorem amount_mono (hle : sales.value ≤ sales'.value) (h : rule.amount terms sales = .ok a)
    (h' : rule.amount terms sales' = .ok a') : a.value ≤ a'.value := by
  have hnonneg := amount_nonneg hrule h'
  obtain ⟨f, hf, -⟩ := exists_fraction terms.rate
  rcases amount_eq_ok hf h with ⟨rfl, -⟩ | ⟨hbelow, hpos, d, m, hd, hm, rfl⟩
  · rw [value_zero]
    exact hnonneg
  · have hbelow' := hrule.below_of_le _ _ _ hle hbelow
    rcases amount_eq_ok hf h' with ⟨-, hnone⟩ | ⟨-, -, d', m', hd', hm', rfl⟩
    · exact absurd ⟨hbelow', hpos⟩ hnone
    · exact hrule.round_of_le _ _ (mul?_mono (sub?_mono hle hd hd') (le_of_lt hpos) hm hm')

theorem amount_of_le (hle : sales.value ≤ terms.threshold.value)
    (h : rule.amount terms sales = .ok a) : a.value = 0 := by
  obtain ⟨f, hf, -⟩ := exists_fraction terms.rate
  rcases amount_eq_ok hf h with ⟨rfl, -⟩ | ⟨hbelow, hpos, d, m, hd, hm, rfl⟩
  · exact value_zero
  · have heq := le_antisymm hle (hrule.le_of_below _ _ hbelow)
    have hdiff := nearest?_of_eq_some (value_sub? sales terms.threshold) hd
    rw [heq, sub_self, nearest?_zero] at hdiff
    have hproduct := nearest?_of_eq_some (value_mul? d f) hm
    rw [← Option.some.inj hdiff, zero_mul, nearest?_zero] at hproduct
    exact hrule.round_of_zero m (Option.some.inj hproduct).symm

end

theorem commission_of_earnings {rule : CommissionRule} {terms : SalaryTerms} {sales : Decimal}
    {e : Earnings} (h : rule.earnings terms sales = .ok e) :
    (terms.commission = none ∧ e.commission = .zero) ∨
      ∃ c, terms.commission = some c ∧ rule.amount c sales = .ok e.commission := by
  unfold CommissionRule.earnings at h
  cases hc : terms.commission with
  | none =>
    rw [hc] at h
    cases h
    exact .inl ⟨rfl, rfl⟩
  | some c =>
    rw [hc] at h
    obtain ⟨⟨amount, lines⟩, hearned, h⟩ := bind_eq_ok h
    cases h
    unfold CommissionRule.earned at hearned
    obtain ⟨amount', hamount, hearned⟩ := bind_eq_ok hearned
    refine .inr ⟨c, rfl, ?_⟩
    split at hearned
    · cases hearned
      exact hamount
    · obtain ⟨percent, -, hearned⟩ := bind_eq_ok hearned
      obtain ⟨description, -, hearned⟩ := bind_eq_ok hearned
      cases hearned
      exact hamount

section
variable {rule : CommissionRule} (hrule : rule.Rises) {terms : SalaryTerms}
variable {sales sales' : Decimal} {e e' : Earnings}
include hrule

theorem earnedCommission_nonneg (h : rule.earnings terms sales = .ok e) :
    0 ≤ e.commission.value := by
  rcases commission_of_earnings h with ⟨-, hzero⟩ | ⟨c, -, hamount⟩
  · rw [hzero, value_zero]
  · exact amount_nonneg hrule hamount

theorem earnedCommission_mono (hle : sales.value ≤ sales'.value)
    (h : rule.earnings terms sales = .ok e) (h' : rule.earnings terms sales' = .ok e') :
    e.commission.value ≤ e'.commission.value := by
  rcases commission_of_earnings h with ⟨-, hzero⟩ | ⟨c, hc, hamount⟩
  · rw [hzero, value_zero]
    exact earnedCommission_nonneg hrule h'
  · rcases commission_of_earnings h' with ⟨hnone, -⟩ | ⟨c', hc', hamount'⟩
    · rw [hc] at hnone
      cases hnone
    · obtain rfl : c = c' := Option.some.inj (hc.symm.trans hc')
      exact amount_mono hrule hle hamount hamount'

theorem earnedCommission_of_le {c : CommissionTerms} (hc : terms.commission = some c)
    (hle : sales.value ≤ c.threshold.value) (h : rule.earnings terms sales = .ok e) :
    e.commission.value = 0 := by
  rcases commission_of_earnings h with ⟨-, hzero⟩ | ⟨c', hc', hamount⟩
  · rw [hzero, value_zero]
  · obtain rfl : c = c' := Option.some.inj (hc.symm.trans hc')
    exact amount_of_le hrule hle hamount

end

end Pay

namespace Allocation

def EarnsNoMore (a b : Allocation) : Prop := a.contribution.value ≤ b.contribution.value

theorem sublistForall₂_append {as bs cs ds : List Allocation}
    (hleft : List.SublistForall₂ EarnsNoMore as bs)
    (hright : List.SublistForall₂ EarnsNoMore cs ds) :
    List.SublistForall₂ EarnsNoMore (as ++ cs) (bs ++ ds) := by
  induction hleft with
  | @nil bs =>
    induction bs with
    | nil => exact hright
    | cons b rest ih => exact .cons_right ih
  | cons hab _ ih => exact .cons hab ih
  | cons_right _ ih => exact .cons_right ih

section
variable {name name' : String} {slice slice' percentage : Decimal} {a a' : Allocation}

theorem make_nonneg (hslice : 0 ≤ slice.value) (hpercentage : 0 ≤ percentage.value)
    (h : make name slice percentage = .ok a) : 0 ≤ a.contribution.value := by
  obtain ⟨product, hproduct, hcontribution, -⟩ := make_eq_ok h
  exact div?_hundred_nonneg (mul?_nonneg hslice hpercentage hproduct) hcontribution

theorem make_mono (hslice : slice.value ≤ slice'.value) (hpercentage : 0 ≤ percentage.value)
    (h : make name slice percentage = .ok a) (h' : make name' slice' percentage = .ok a') :
    a.EarnsNoMore a' := by
  obtain ⟨product, hproduct, hcontribution, -⟩ := make_eq_ok h
  obtain ⟨product', hproduct', hcontribution', -⟩ := make_eq_ok h'
  exact div?_hundred_mono (mul?_mono hslice hpercentage hproduct hproduct') hcontribution
    hcontribution'

end

section
variable {sales sales' lower lower₁ lower₁' : Decimal} {place : ℕ} {brackets : List Bracket}
variable {out out' : List Allocation}

theorem here_mono {b : Bracket} (hb : 0 ≤ b.percentage.value) {slice slice' : Decimal}
    (hslice : slice.value ≤ slice'.value) (h : here place b slice = .ok out)
    (h' : here place b slice' = .ok out') : List.SublistForall₂ EarnsNoMore out out' := by
  rcases here_eq_ok h with ⟨-, rfl⟩ | ⟨hpos, a, ha, rfl⟩
  · exact .nil
  · rcases here_eq_ok h' with ⟨hle, -⟩ | ⟨-, a', ha', rfl⟩
    · exact absurd (hpos.trans_le hslice) (not_lt.mpr hle)
    · exact .cons (make_mono hslice hb ha ha') .nil

/-- Two runs over the same brackets. If the smaller sales get past all of them, the lower ends stay
the same. -/
theorem within_mono (hsales : sales.value ≤ sales'.value)
    (hbrackets : ∀ b ∈ brackets, 0 ≤ b.percentage.value)
    (h : within sales lower place brackets = .ok (out, lower₁))
    (h' : within sales' lower place brackets = .ok (out', lower₁')) :
    List.SublistForall₂ EarnsNoMore out out' ∧ (lower₁.value < sales.value → lower₁' = lower₁) := by
  induction brackets generalizing lower place out out' with
  | nil =>
    cases h
    cases h'
    exact ⟨.nil, fun _ => rfl⟩
  | cons b rest ih =>
    rcases within_cons_eq_ok h with
      ⟨hle, rfl, rfl⟩ | ⟨hlt, slice, allocations, others, hslice, hhere, hrest, rfl⟩
    · exact ⟨.nil, fun hlt => absurd hlt (not_lt.mpr hle)⟩
    · rcases within_cons_eq_ok h' with
        ⟨hle, -, -⟩ | ⟨-, slice', allocations', others', hslice', hhere', hrest', rfl⟩
      · exact absurd (hlt.trans_le hsales) (not_lt.mpr hle)
      · obtain ⟨hfirst, hbrackets⟩ := List.forall_mem_cons.mp hbrackets
        obtain ⟨hothers, hlower⟩ := ih hbrackets hrest hrest'
        have hmin : (Decimal.min sales b.threshold).value ≤
            (Decimal.min sales' b.threshold).value := by
          rw [value_min, value_min]
          exact min_le_min_right _ hsales
        have hhere := here_mono hfirst (sub?_mono hmin hslice hslice') hhere hhere'
        exact ⟨sublistForall₂_append hhere hothers, hlower⟩

theorem above_mono {last : Bracket} (hlast : 0 ≤ last.percentage.value)
    (hsales : sales.value ≤ sales'.value)
    (hlower : lower₁.value < sales.value → lower₁' = lower₁)
    (h : above sales lower₁ last = .ok out) (h' : above sales' lower₁' last = .ok out') :
    List.SublistForall₂ EarnsNoMore out out' := by
  rcases above_eq_ok h with ⟨-, rfl⟩ | ⟨hlt, rest, name, a, hrest, ha, rfl⟩
  · exact .nil
  · obtain rfl := hlower hlt
    rcases above_eq_ok h' with ⟨hle, -⟩ | ⟨-, rest', name', a', hrest', ha', rfl⟩
    · exact absurd (hlt.trans_le hsales) (not_lt.mpr hle)
    · exact .cons (make_mono (sub?_mono hsales hrest hrest') hlast ha ha') .nil

theorem allocate_mono (hsales : sales.value ≤ sales'.value)
    (hbrackets : ∀ b ∈ brackets, 0 ≤ b.percentage.value)
    (h : allocate brackets sales = .ok out) (h' : allocate brackets sales' = .ok out') :
    List.SublistForall₂ EarnsNoMore out out' := by
  obtain ⟨inside, lower, hinside, hout⟩ := allocate_eq_ok h
  obtain ⟨inside', lower', hinside', hout'⟩ := allocate_eq_ok h'
  obtain ⟨hwithin, hlower⟩ := within_mono hsales hbrackets hinside hinside'
  rcases hout with ⟨hnone, rfl⟩ | ⟨last, beyond, hlast, hbeyond, rfl⟩
  · rcases hout' with ⟨-, rfl⟩ | ⟨last, beyond', hlast, -, -⟩
    · exact hwithin
    · rw [hnone] at hlast
      cases hlast
  · rcases hout' with ⟨hnone, -⟩ | ⟨last', beyond', hlast', hbeyond', rfl⟩
    · rw [hlast] at hnone
      cases hnone
    · obtain rfl := Option.some.inj (hlast.symm.trans hlast')
      have hpercentage := hbrackets last (List.mem_of_getLast? hlast)
      exact sublistForall₂_append hwithin (above_mono hpercentage hsales hlower hbeyond hbeyond')

theorem allocate_nonneg (hbrackets : ∀ b ∈ brackets, 0 ≤ b.percentage.value)
    (h : allocate brackets sales = .ok out) : ∀ a ∈ out, 0 ≤ a.contribution.value :=
  forall_of_allocate (fun b hb _ _ _ hnonneg ha => make_nonneg hnonneg (hbrackets b hb) ha) h

end

section
variable {out out' : List Allocation} {start start' total total' : Decimal}

def sumFrom (start : Decimal) (allocations : List Allocation) : Except Halt Decimal :=
  allocations.foldlM (fun total a => unguarded .addition (total.add? a.contribution)) start

theorem sumFrom_cons_eq_ok {a : Allocation} (h : sumFrom start (a :: out) = .ok total) :
    ∃ next, start.add? a.contribution = some next ∧ sumFrom next out = .ok total := by
  unfold sumFrom at h
  rw [List.foldlM_cons] at h
  obtain ⟨next, hnext, h⟩ := bind_eq_ok h
  exact ⟨next, unguarded_eq_ok.mp hnext, h⟩

theorem le_sumFrom (hnonneg : ∀ a ∈ out, 0 ≤ a.contribution.value)
    (h : sumFrom start out = .ok total) : start.value ≤ total.value := by
  induction out generalizing start with
  | nil =>
    cases h
    exact le_rfl
  | cons a rest ih =>
    obtain ⟨ha, hrest⟩ := List.forall_mem_cons.mp hnonneg
    obtain ⟨next, hnext, h⟩ := sumFrom_cons_eq_ok h
    exact (le_add? ha hnext).trans (ih hrest h)

/-- What has no partner adds to the larger sum alone. -/
theorem sumFrom_mono (hout : List.SublistForall₂ EarnsNoMore out out')
    (hnonneg : ∀ a ∈ out', 0 ≤ a.contribution.value) (hstart : start.value ≤ start'.value)
    (h : sumFrom start out = .ok total) (h' : sumFrom start' out' = .ok total') :
    total.value ≤ total'.value := by
  induction hout generalizing start start' with
  | nil =>
    cases h
    exact hstart.trans (le_sumFrom hnonneg h')
  | cons hab _ ih =>
    obtain ⟨-, hrest⟩ := List.forall_mem_cons.mp hnonneg
    obtain ⟨next, hnext, h⟩ := sumFrom_cons_eq_ok h
    obtain ⟨next', hnext', h'⟩ := sumFrom_cons_eq_ok h'
    exact ih hrest (add?_mono hstart hab hnext hnext') h h'
  | cons_right _ ih =>
    obtain ⟨hb, hrest⟩ := List.forall_mem_cons.mp hnonneg
    obtain ⟨next', hnext', h'⟩ := sumFrom_cons_eq_ok h'
    exact ih hrest (hstart.trans (le_add? hb hnext')) h h'

end

end Allocation

theorem BracketTerms.percentage_nonneg {plan : Plan} {terms : BracketTerms}
    (h : ofPlan plan = .ok terms) : ∀ b ∈ terms.brackets, 0 ≤ b.percentage.value := by
  unfold ofPlan ofConfig at h
  split at h
  · cases h
  · split at h
    · cases h
    · split at h
      · cases h
      · next hnone =>
        cases h
        intro b hb
        have hnot := List.find?_eq_none.mp hnone b (List.mem_mergeSort.mp hb)
        rwa [lt_iff, value_zero, not_lt] at hnot

namespace Pay

theorem commission_of_bracketEarnings {terms : BracketTerms} {sales : Decimal} {e : Earnings}
    (h : bracketEarnings terms sales = .ok e) :
    (sales.value < terms.threshold.value ∧ e.commission.value = 0) ∨
      terms.threshold.value ≤ sales.value ∧ ∃ allocations total,
        Allocation.allocate terms.brackets sales = .ok allocations ∧
          Allocation.sum allocations = .ok total ∧ e.commission = total.roundCents := by
  cases hbelow : sales.lt terms.threshold with
  | true =>
    unfold bracketEarnings at h
    rw [if_pos hbelow] at h
    cases h
    exact .inl ⟨(lt_iff _ _).mp hbelow, roundPlaces_of_value_eq_zero 2 value_zero⟩
  | false =>
    rw [bracketEarnings_of_reached hbelow] at h
    obtain ⟨allocations, hallocations, h⟩ := bind_eq_ok h
    obtain ⟨total, htotal, h⟩ := bind_eq_ok h
    cases h
    rw [← Bool.not_eq_true, lt_iff, not_lt] at hbelow
    exact .inr ⟨hbelow, allocations, total, hallocations, htotal, rfl⟩

section
variable {terms : BracketTerms} {sales sales' : Decimal} {e e' : Earnings}
variable (hbrackets : ∀ b ∈ terms.brackets, 0 ≤ b.percentage.value)
include hbrackets

theorem bracketCommission_nonneg (h : bracketEarnings terms sales = .ok e) :
    0 ≤ e.commission.value := by
  rcases commission_of_bracketEarnings h with ⟨-, hzero⟩ | ⟨-, allocations, total, ha, ht, he⟩
  · exact hzero.ge
  · have hnonneg := Allocation.le_sumFrom (Allocation.allocate_nonneg hbrackets ha) ht
    rw [value_zero] at hnonneg
    rw [he]
    exact roundPlaces_nonneg 2 hnonneg

theorem bracketCommission_mono (hsales : sales.value ≤ sales'.value)
    (h : bracketEarnings terms sales = .ok e) (h' : bracketEarnings terms sales' = .ok e') :
    e.commission.value ≤ e'.commission.value := by
  rcases commission_of_bracketEarnings h with ⟨-, hzero⟩ | ⟨hle, allocations, total, ha, ht, he⟩
  · rw [hzero]
    exact bracketCommission_nonneg hbrackets h'
  · rcases commission_of_bracketEarnings h' with
      ⟨hlt, -⟩ | ⟨-, allocations', total', ha', ht', he'⟩
    · exact absurd (hle.trans hsales) (not_le.mpr hlt)
    · rw [he, he']
      have haligned := Allocation.allocate_mono hsales hbrackets ha ha'
      have hnonneg := Allocation.allocate_nonneg hbrackets ha'
      exact roundPlaces_mono 2 (Allocation.sumFrom_mono haligned hnonneg le_rfl ht ht')

end

end Pay

/-- Sales that the commission threshold keeps from earning. -/
def PlanKind.Withholds : PlanKind → Request → Prop
  | fixed, r | commission, r => ∃ terms c, SalaryTerms.ofPlan r.plan = .ok terms ∧
      terms.commission = some c ∧ r.sales.value ≤ c.threshold.value
  | tieredCommission, r => ∃ terms, BracketTerms.ofPlan r.plan = .ok terms ∧
      r.sales.value < terms.threshold.value
  | formulaBased, _ => False

/-- The commission is not negative, no larger sales have a smaller one, and withheld sales have
none. -/
structure Payslip.CommissionRises (pay : Request → Except Halt Payslip) (withheld : Prop)
    (r : Request) (p : Payslip) : Prop where
  nonneg : 0 ≤ p.commission.value
  le_of_le : ∀ (sales : Decimal) (p' : Payslip), r.sales.le sales = true →
    pay { r with sales } = .ok p' → p.commission.value ≤ p'.commission.value
  withheld : withheld → p.commission.value = 0

namespace Pay

theorem salaried_rises {rule : CommissionRule} (hrule : rule.Rises) {r : Request} {p : Payslip}
    (hp : salaried rule r = .ok p) :
    p.CommissionRises (salaried rule)
      (∃ terms c, SalaryTerms.ofPlan r.plan = .ok terms ∧ terms.commission = some c ∧
        r.sales.value ≤ c.threshold.value) r := by
  obtain ⟨terms, e, hterms, he, hp⟩ := salaried_eq_ok hp
  have hcommission := (Payslip.isAssembled_of_assemble hp).commission
  constructor
  · rw [hcommission]
    exact earnedCommission_nonneg hrule he
  · intro sales p' hsales hp'
    obtain ⟨terms', e', hterms', he', hp'⟩ := salaried_eq_ok hp'
    obtain rfl : terms = terms' := Except.ok.inj (hterms.symm.trans hterms')
    rw [hcommission, (Payslip.isAssembled_of_assemble hp').commission]
    exact earnedCommission_mono hrule ((le_iff _ _).mp hsales) he he'
  · rintro ⟨terms', c, hterms', hc, hle⟩
    obtain rfl : terms = terms' := Except.ok.inj (hterms.symm.trans hterms')
    rw [hcommission]
    exact earnedCommission_of_le hrule hc hle he

theorem bracketed_rises {r : Request} {p : Payslip} (hp : bracketed r = .ok p) :
    p.CommissionRises bracketed
      (∃ terms, BracketTerms.ofPlan r.plan = .ok terms ∧
        r.sales.value < terms.threshold.value) r := by
  obtain ⟨terms, e, hterms, he, hp⟩ := bracketed_eq_ok hp
  have hbrackets := BracketTerms.percentage_nonneg hterms
  have hcommission := (Payslip.isAssembled_of_assemble hp).commission
  constructor
  · rw [hcommission]
    exact bracketCommission_nonneg hbrackets he
  · intro sales p' hsales hp'
    obtain ⟨terms', e', hterms', he', hp'⟩ := bracketed_eq_ok hp'
    obtain rfl : terms = terms' := Except.ok.inj (hterms.symm.trans hterms')
    rw [hcommission, (Payslip.isAssembled_of_assemble hp').commission]
    exact bracketCommission_mono hbrackets ((le_iff _ _).mp hsales) he he'
  · rintro ⟨terms', hterms', hlt⟩
    obtain rfl : terms = terms' := Except.ok.inj (hterms.symm.trans hterms')
    rw [hcommission]
    rcases commission_of_bracketEarnings he with ⟨-, hzero⟩ | ⟨hle, -⟩
    · exact hzero
    · exact absurd hlt (not_lt.mpr hle)

end Pay

/-- Selling more earns no less commission, whatever is rounded on the way. -/
theorem commission_rises {c : Calculator} (hkind : c.kind ≠ .formulaBased) {r : Request}
    {p : Payslip} (hp : c.compute r = .ok p) :
    p.CommissionRises c.compute (c.kind.Withholds r) r := by
  obtain ⟨kind, formula, cache⟩ := c
  cases kind with
  | fixed => exact Pay.salaried_rises Pay.rises_fixed hp
  | commission => exact Pay.salaried_rises Pay.rises_sales hp
  | tieredCommission => exact Pay.bracketed_rises hp
  | formulaBased => exact absurd rfl hkind

def bracketRequest (sales : Decimal) : Request where
  employee := { id := "e1" }
  plan :=
    { id := "p1", type := "tiered", name := "Brackets"
      config := .object
        [("brackets", .array
          [.object [("threshold", .string "10"), ("percentage", .string "10")]])] }
  sales := sales
  period := "2024-01"

theorem commission_rises_bracketRequest :
    ∃ p p', ({ kind := .tieredCommission } : Calculator).compute (bracketRequest .one) = .ok p ∧
      ({ kind := .tieredCommission } : Calculator).compute (bracketRequest .hundred) = .ok p' ∧
        0 ≤ p.commission.value ∧ p.commission.value ≤ p'.commission.value := by
  have hone : (({ kind := .tieredCommission } : Calculator).compute
      (bracketRequest .one)).toOption.map (·.commission.value) = some (1 / 10) := by
    decide +kernel
  have hhundred : (({ kind := .tieredCommission } : Calculator).compute
      (bracketRequest .hundred)).toOption.map (·.commission.value) = some 10 := by
    decide +kernel
  obtain ⟨p, hp, -⟩ := exists_ok_of_toOption_map hone
  obtain ⟨p', hp', -⟩ := exists_ok_of_toOption_map hhundred
  have hrises := commission_rises (by decide) hp
  exact ⟨p, p', hp, hp', hrises.nonneg, hrises.le_of_le .hundred p' (by decide) hp'⟩

end Payroll
