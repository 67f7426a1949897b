import Mathlib.Data.List.Infix
import Payroll.Proofs.Formula.Failures
import Payroll.Proofs.Pay.Allocation
import Payroll.Proofs.Pay.Overflow
import Payroll.Proofs.Pay.Reading
import Payroll.Proofs.Registry.Log
import Payroll.Proofs.Registry.Standard

/-!
# Batches

A batch has one row for each request, in order, unless a request aborts. None does if it is answered
from a store, or if what its calculator leaves unguarded fits; and then every error, overflow
among them, is a failed row.
-/

set_option autoImplicit false

namespace Payroll

open Halt

/-- What the calculator of a kind leaves unguarded does not fit. Formulas guard everything. -/
def PlanKind.Overflows : PlanKind → Request → Prop
  | fixed, r => ∃ terms c, SalaryTerms.ofPlan r.plan = .ok terms ∧ terms.commission = some c ∧
      Pay.CommissionRule.fixed.Overflows c r.sales
  | commission, r => ∃ terms c, SalaryTerms.ofPlan r.plan = .ok terms ∧ terms.commission = some c ∧
      Pay.CommissionRule.sales.Overflows c r.sales
  | tieredCommission, r => ∃ terms, BracketTerms.ofPlan r.plan = .ok terms ∧
      terms.Overflows r.sales
  | formulaBased, _ => False

theorem PlanKind.Overflows.cause {kind : PlanKind} {r : Request} (h : kind.Overflows r) :
    (∃ terms c, SalaryTerms.ofPlan r.plan = .ok terms ∧ terms.commission = some c ∧
        c.threshold.value < 0) ∨
      ∃ terms, BracketTerms.ofPlan r.plan = .ok terms ∧ 99 ≤ terms.brackets.length := by
  cases kind with
  | fixed =>
    obtain ⟨terms, c, hterms, hc, hoverflows⟩ := h
    exact .inl ⟨terms, c, hterms, hc, hoverflows.threshold_neg Pay.le_of_below_fixed⟩
  | commission =>
    obtain ⟨terms, c, hterms, hc, hoverflows⟩ := h
    exact .inl ⟨terms, c, hterms, hc, hoverflows.threshold_neg Pay.le_of_below_sales⟩
  | tieredCommission =>
    obtain ⟨terms, hterms, hoverflows⟩ := h
    exact .inr ⟨terms, hterms, hoverflows.le_length⟩
  | formulaBased => exact h.elim

namespace Pay

theorem unaborted_formulaic (settings : FormulaSettings) (r : Request) :
    Unaborted (formulaic settings r) := by
  unfold formulaic
  refine (unaborted_ofError _).bind fun f _ => ?_
  refine (unaborted_ofError _).bind fun bindings _ => ?_
  obtain ⟨e, he⟩ := f.exists_evaluate settings bindings
  rw [he]
  refine Unaborted.bind (unaborted_ok e) fun e' _ => ?_
  split
  · exact unaborted_ok _
  · exact (unaborted_ofError _).bind fun _ _ => unaborted_ok _

end Pay

def Payslip.IsFailure (r : Request) (p : Payslip) : Prop :=
  ∃ message trace, p = { failure r message with trace }

namespace Pay

variable {r : Request} {p : Payslip}

theorem formulaic_eq_ok {settings : FormulaSettings} (h : formulaic settings r = .ok p) :
    (∃ e p' total trace, Payslip.assemble r e = .ok p' ∧
        p = (p'.withTotal total).withTrace trace) ∨ p.IsFailure r := by
  unfold formulaic at h
  obtain ⟨f, -, h⟩ := bind_eq_ok h
  obtain ⟨bindings, -, h⟩ := bind_eq_ok h
  obtain ⟨e, -, h⟩ := bind_eq_ok h
  split at h
  · next cause _ =>
    cases h
    exact .inr ⟨cause.message, some e.trace, rfl⟩
  · obtain ⟨p', hp', h⟩ := bind_eq_ok h
    cases h
    exact .inl ⟨_, p', _, _, ofError_eq_ok.mp hp', rfl⟩

end Pay

namespace Calculator

variable {c : Calculator} {r : Request} {p : Payslip}

theorem unaborted_compute : Unaborted (c.compute r) ↔ ¬c.kind.Overflows r := by
  unfold compute PlanKind.Overflows
  cases c.kind with
  | fixed => exact Pay.unaborted_salaried Pay.describes_fixed
  | commission => exact Pay.unaborted_salaried Pay.describes_sales
  | tieredCommission => exact Pay.unaborted_bracketed
  | formulaBased => exact iff_of_true (Pay.unaborted_formulaic _ _) not_false

theorem compute_eq_ok (h : c.compute r = .ok p) :
    (∃ e p' total trace, Payslip.assemble r e = .ok p' ∧ p = { p' with total, trace }) ∨
      p.IsFailure r := by
  unfold compute at h
  split at h
  · obtain ⟨-, e, -, -, he⟩ := Pay.salaried_eq_ok h
    exact .inl ⟨e, p, p.total, p.trace, he, rfl⟩
  · obtain ⟨-, e, -, -, he⟩ := Pay.salaried_eq_ok h
    exact .inl ⟨e, p, p.total, p.trace, he, rfl⟩
  · obtain ⟨-, e, -, -, he⟩ := Pay.bracketed_eq_ok h
    exact .inl ⟨e, p, p.total, p.trace, he, rfl⟩
  · rcases Pay.formulaic_eq_ok h with ⟨e, p', total, trace, he, rfl⟩ | hfailure
    · exact .inl ⟨e, p', total, some trace, he, rfl⟩
    · exact .inr hfailure

theorem succeeded_or_isFailure (h : c.compute r = .ok p) :
    p.succeeded = true ∨ p.IsFailure r := by
  rcases compute_eq_ok h with ⟨e, p', total, trace, he, rfl⟩ | hfailure
  · exact .inl (Payslip.succeeded_of_assemble he).1
  · exact .inr hfailure

theorem exists_answer_iff : (∃ p, c.answer r = .ok p) ↔ ¬c.kind.Overflows r := by
  rw [← unaborted_compute]
  unfold answer
  constructor
  · rintro ⟨p, h⟩ cause hcause
    rw [hcause] at h
    cases h
  · intro h
    split
    · exact ⟨_, rfl⟩
    · exact ⟨_, rfl⟩
    · next cause hcause => exact absurd hcause (h cause)

end Calculator

namespace Registry

/-- What stands in the row of a request: a stored payslip, a new one, or the failure that reports
an error. -/
inductive Row (g : Registry) (r : Request) : Payslip → Prop where
  | stored {p : Payslip} : g.stored? r = some p → Row g r p
  | computed {p : Payslip} : g.stored? r = none → g.compute r.plan.type r = .ok p →
      (p.succeeded = true ∨ p.IsFailure r) → Row g r p
  | failed {cause : PayError} : g.stored? r = none →
      g.compute r.plan.type r = .error (.error cause) → Row g r (.failure r cause.message)

/-- One row for each request, in order, each from the stores as they are then. -/
inductive Rows : Registry → List Request → List Payslip → Prop where
  | nil {g : Registry} : Rows g [] []
  | cons {g : Registry} {r : Request} {rest : List Request} {p : Payslip} {ps : List Payslip} :
      Row g r p → Rows (g.calculate r).2 rest ps → Rows g (r :: rest) (p :: ps)

def Aborts (g : Registry) (r : Request) : Prop :=
  g.stored? r = none ∧ ∃ kind : PlanKind, r.plan.type ∈ tagsOf kind ∧ kind.Overflows r

section
variable {settings : Settings} {g : Registry} {r : Request} {p : Payslip}

theorem compute_of_ok {c : Calculator} (h : g.calculator r.plan.type = .ok c) :
    g.compute r.plan.type r = c.compute r := by
  unfold compute
  rw [h]
  rfl

theorem row_of_calculate (h : (g.calculate r).1 = .ok p) : g.Row r p := by
  cases hc : g.calculator r.plan.type with
  | error cause =>
    rw [calculate_of_error hc] at h
    cases h
    refine .failed ?_ ?_
    · unfold stored?
      rw [hc]
      rfl
    · unfold compute
      rw [hc]
      rfl
  | ok c =>
    rw [calculate_of_ok hc] at h
    cases hs : c.stored? r with
    | some p' =>
      rw [Calculator.calculate_of_stored hs] at h
      cases h
      exact .stored ((stored?_of_ok hc).trans hs)
    | none =>
      have hnone := (stored?_of_ok hc).trans hs
      rw [Calculator.calculate_of_not_stored hs] at h
      unfold Calculator.answer at h
      split at h
      · next p' hp' =>
        cases h
        exact .computed hnone ((compute_of_ok hc).trans hp') (Calculator.succeeded_or_isFailure hp')
      · next cause hcause =>
        cases h
        exact .failed hnone ((compute_of_ok hc).trans hcause)
      · cases h

theorem IsStandard.exists_calculate_iff (hg : g.IsStandard settings) :
    (∃ p, (g.calculate r).1 = .ok p) ↔ ¬g.Aborts r := by
  cases hc : g.calculator r.plan.type with
  | error cause =>
    rw [calculate_of_error hc]
    refine iff_of_true ⟨_, rfl⟩ ?_
    rintro ⟨-, kind, htag, -⟩
    obtain ⟨c, hc', -⟩ := hg.calculator_eq_ok htag
    rw [hc] at hc'
    cases hc'
  | ok c =>
    rw [calculate_of_ok hc]
    unfold Aborts
    rw [stored?_of_ok hc]
    cases hs : c.stored? r with
    | some p => exact iff_of_true ⟨p, Calculator.calculate_of_stored hs⟩ nofun
    | none =>
      rw [Calculator.calculate_of_not_stored hs, Calculator.exists_answer_iff, not_iff_not]
      constructor
      · intro hoverflows
        exact ⟨rfl, c.kind, hg.mem_tagsOf hc, hoverflows⟩
      · rintro ⟨-, kind, htag, hoverflows⟩
        obtain ⟨c', hc', rfl⟩ := hg.calculator_eq_ok htag
        rw [hc] at hc'
        cases hc'
        exact hoverflows

theorem rows_of_calculateAll {rs : List Request} {ps : List Payslip}
    (h : (g.calculateAll rs).1 = .ok ps) : Rows g rs ps := by
  induction rs generalizing g ps with
  | nil =>
    cases h
    exact .nil
  | cons r rest ih =>
    obtain ⟨p, ps', hr, hrest, rfl⟩ := calculateAll_cons_eq_ok h
    exact .cons (row_of_calculate hr) (ih hrest)

/-- The run lemma for aborts: a batch is answered unless a request aborts when its turn comes. -/
theorem IsStandard.exists_calculateAll_iff (hg : g.IsStandard settings) {rs : List Request} :
    (∃ ps, (g.calculateAll rs).1 = .ok ps) ↔
      ∀ before r, before ++ [r] <+: rs → ¬(g.calculateAll before).2.Aborts r := by
  induction rs generalizing g with
  | nil =>
    refine iff_of_true ⟨[], rfl⟩ fun before r hinit => ?_
    exact absurd (List.prefix_nil.mp hinit) (by simp)
  | cons r rest ih =>
    cases hr : (g.calculate r).1 with
    | error cause =>
      have haborts : g.Aborts r := by
        by_contra h
        obtain ⟨p, hp⟩ := hg.exists_calculate_iff.mpr h
        rw [hr] at hp
        cases hp
      rw [calculateAll_of_error hr]
      refine iff_of_false nofun fun h => h [] r ?_ haborts
      exact ⟨rest, rfl⟩
    | ok p =>
      have hnot := hg.exists_calculate_iff.mp ⟨p, hr⟩
      have hrest := ih (hg.of_sameShape (g.sameShape_calculate r))
      rw [calculateAll_of_ok hr, exists_map_eq_ok, hrest]
      constructor
      · intro h before r' hinit
        cases before with
        | nil =>
          obtain ⟨rfl, -⟩ := List.cons_prefix_cons.mp hinit
          exact hnot
        | cons r'' before =>
          obtain ⟨rfl, htail⟩ := List.cons_prefix_cons.mp hinit
          rw [calculateAll_of_ok hr]
          exact h before r' htail
      · intro h before r' hinit
        have hnot' := h (r :: before) r' (List.cons_prefix_cons.mpr ⟨rfl, hinit⟩)
        rw [calculateAll_of_ok hr] at hnot'
        exact hnot'

end

/-- A standard registry, whatever its stores hold, answers a batch with its rows if and only if no
request aborts when its turn comes. -/
theorem answers_batch_iff {settings : Settings} {g h : Registry} (hg : standard settings = .ok g)
    (hshape : g.SameShape h) (rs : List Request) :
    (∃ ps, (h.calculateAll rs).1 = .ok ps ∧ Rows h rs ps) ↔
      ∀ before r, before ++ [r] <+: rs → ¬(h.calculateAll before).2.Aborts r := by
  have hstandard := (isStandard_standard hg).of_sameShape hshape
  rw [← hstandard.exists_calculateAll_iff]
  constructor
  · rintro ⟨ps, hps, -⟩
    exact ⟨ps, hps⟩
  · rintro ⟨ps, hps⟩
    exact ⟨ps, hps, rows_of_calculateAll hps⟩

def thresholdRequest (employeeId threshold : String) : Request where
  employee := { id := employeeId }
  plan :=
    { id := "p1", type := "fixed", name := "Salary"
      config := .object
        [("baseSalary", .string "1000"), ("commissionRate", .string "0.1"),
          ("commissionThreshold", .string threshold)] }
  sales :=
    { Decimal.zero with magnitude := 70000000000000000000000000000, magnitude_lt := by decide }
  period := "2024-01"

theorem answers_batch_thresholdRequest :
    ∃ g, standard {} = .ok g ∧
      ∃ ps, (g.calculateAll [thresholdRequest "e1" "0"]).1 = .ok ps ∧
        Rows g [thresholdRequest "e1" "0"] ps := by
  obtain ⟨g, hg, -⟩ := exists_standard_of_keeps (show ({} : Settings).cache.Keeps by decide)
  refine ⟨g, hg, (answers_batch_iff hg (.refl g) [thresholdRequest "e1" "0"]).mpr ?_⟩
  rintro before r hinit ⟨-, kind, -, hoverflows⟩
  have hr : r = thresholdRequest "e1" "0" :=
    List.mem_singleton.mp (hinit.subset (List.mem_append_right _ List.mem_cons_self))
  subst hr
  have hthreshold : ((SalaryTerms.ofPlan (thresholdRequest "e1" "0").plan).toOption.bind
      (·.commission)).map (·.threshold.value) = some 0 := by decide +kernel
  have hbrackets : (BracketTerms.ofPlan (thresholdRequest "e1" "0").plan).toOption = none := by
    decide +kernel
  rcases hoverflows.cause with ⟨terms, c, hterms, hc, hneg⟩ | ⟨terms, hterms, -⟩
  · rw [hterms] at hthreshold
    obtain ⟨c', hc', hzero⟩ := Option.map_eq_some_iff.mp hthreshold
    obtain rfl : c = c' := Option.some.inj (hc.symm.trans hc')
    rw [hzero] at hneg
    exact lt_irrefl 0 hneg
  · rw [hterms] at hbrackets
    cases hbrackets

/-- With a negative threshold, what the sales exceed it by is too large, and the batch ends. -/
theorem not_answers_negativeThreshold :
    ∃ g, standard {} = .ok g ∧
      (g.calculateAll
        [thresholdRequest "e1" "0",
          thresholdRequest "e2" "-70000000000000000000000000000"]).1 = .error .subtraction := by
  refine ⟨_, rfl, (map_eq_error (f := List.length)).mp ?_⟩
  decide +kernel

end Registry

end Payroll
