import Payroll.Calculator
import Payroll.Proofs.Formula.Scales
import Payroll.Proofs.Formula.Validity
import Payroll.Proofs.Pay.Allocation
import Payroll.Proofs.Pay.Reading

/-!
# Sales in other words

Two requests with one amount of sales, written with different scales, are paid alike whatever the
plan. For brackets the two runs take the same ways, because all that they ask of an amount is how it
compares; for formulas the names are bound to equal values.
-/

set_option autoImplicit false

namespace Payroll

open Decimal Halt

namespace Allocation

def earned (a : Allocation) : ℚ := a.contribution.value

section
variable {sales sales' lower lower' slice slice' : Decimal}

theorem map_make_congr (name name' : String) (percentage : Decimal)
    (hslice : slice.value = slice'.value) :
    (make name slice percentage).map earned = (make name' slice' percentage).map earned := by
  unfold make
  apply map_bind_congr (map_guarded_congr (map_mul?_congr hslice rfl) _)
  intro product product' hproduct
  apply map_bind_congr (map_unguarded_congr (map_div?_congr hproduct rfl) _)
  intro contribution contribution' hcontribution
  exact congrArg Except.ok hcontribution

theorem map_here_congr (place : ℕ) (b : Bracket) (hslice : slice.value = slice'.value) :
    (here place b slice).map (List.map earned) = (here place b slice').map (List.map earned) := by
  unfold here
  rw [le_congr hslice rfl]
  split
  · rfl
  · apply map_bind_congr (map_make_congr _ _ _ hslice)
    intro a a' ha
    exact congrArg Except.ok (congrArg (fun x => [x]) ha)

/-- The step lemma and the run lemma in one: the runs take each bracket alike. -/
theorem map_within_congr (brackets : List Bracket) (place : ℕ) (hsales : sales.value = sales'.value)
    (hlower : lower.value = lower'.value) :
    (within sales lower place brackets).map (Prod.map (List.map earned) value) =
      (within sales' lower' place brackets).map (Prod.map (List.map earned) value) := by
  induction brackets generalizing lower lower' place with
  | nil => exact congrArg Except.ok (Prod.ext rfl hlower)
  | cons b rest ih =>
    rw [within_cons, within_cons, le_congr hsales hlower]
    split
    · exact congrArg Except.ok (Prod.ext rfl hlower)
    apply map_bind_congr (f := value)
    · apply map_unguarded_congr
      apply map_sub?_congr _ hlower
      rw [value_min, value_min, hsales]
    intro slice slice' hslice
    apply map_bind_congr (map_here_congr place b hslice)
    intro allocations allocations' hallocations
    apply map_bind_congr (f := Prod.map (List.map earned) value)
    · apply ih
      rw [value_max, value_max, hlower]
    rintro ⟨others, end'⟩ ⟨others', end''⟩ hrest
    obtain ⟨hothers, hend⟩ := Prod.mk.inj hrest
    apply congrArg Except.ok
    simp only [Prod.map, List.map_append, hallocations, hothers, hend]

theorem map_above_congr (last : Bracket) (hsales : sales.value = sales'.value)
    (hlower : lower.value = lower'.value) :
    (above sales lower last).map (List.map earned) =
      (above sales' lower' last).map (List.map earned) := by
  unfold above
  rw [le_congr hsales hlower]
  split
  · rfl
  apply map_bind_congr (map_unguarded_congr (map_sub?_congr hsales hlower) _)
  intro rest rest' hrest
  apply map_bind_congr (map_make_congr _ _ _ hrest)
  intro a a' ha
  exact congrArg Except.ok (congrArg (fun x => [x]) ha)

theorem map_allocate_congr (brackets : List Bracket) (hsales : sales.value = sales'.value) :
    (allocate brackets sales).map (List.map earned) =
      (allocate brackets sales').map (List.map earned) := by
  unfold allocate
  apply map_bind_congr (map_within_congr brackets 1 hsales rfl)
  rintro ⟨inside, lower⟩ ⟨inside', lower'⟩ hwithin
  obtain ⟨hinside, hlower⟩ := Prod.mk.inj hwithin
  dsimp only
  split
  · next last _ =>
    apply map_bind_congr (map_above_congr last hsales hlower)
    intro beyond beyond' hbeyond
    apply congrArg Except.ok
    rw [List.map_append, List.map_append, hinside, hbeyond]
  · exact congrArg Except.ok hinside

end

theorem map_sum_congr {as bs : List Allocation} (h : as.map earned = bs.map earned) :
    (sum as).map value = (sum bs).map value := by
  rw [← List.forall₂_eq_eq_eq, List.forall₂_map_left_iff, List.forall₂_map_right_iff] at h
  apply map_foldlM_congr _ h rfl
  intro a b x y hab hxy
  exact map_unguarded_congr (map_add?_congr hab hxy) _

theorem map_reading_line {as bs : List Allocation} (h : as.map earned = bs.map earned) :
    (as.map line).map Payslip.Line.reading = (bs.map line).map Payslip.Line.reading := by
  have hline (cs : List Allocation) : (cs.map line).map Payslip.Line.reading =
      (cs.map earned).map fun x => (Payslip.LineKind.commissionTier, x) := by
    rw [List.map_map, List.map_map]
    rfl
  rw [hline, hline, h]

end Allocation

namespace Pay

theorem targetBonus_congr (bonus : Option TargetBonus) {sales sales' : Decimal}
    (hsales : sales.value = sales'.value) : targetBonus bonus sales = targetBonus bonus sales' := by
  unfold targetBonus
  simp only [le_congr rfl hsales]

theorem map_bracketEarnings_congr (terms : BracketTerms) {sales sales' : Decimal}
    (hsales : sales.value = sales'.value) :
    (bracketEarnings terms sales).map Earnings.reading =
      (bracketEarnings terms sales').map Earnings.reading := by
  rw [bracketEarnings_eq, bracketEarnings_eq, lt_congr hsales rfl,
    targetBonus_congr terms.targetBonus hsales]
  apply map_bind_congr (f := List.map Allocation.earned)
  · split
    · rfl
    · exact Allocation.map_allocate_congr terms.brackets hsales
  intro allocations allocations' hallocations
  apply map_bind_congr (Allocation.map_sum_congr hallocations)
  intro total total' htotal
  apply congrArg Except.ok
  have hcents : total.roundCents.value = total'.roundCents.value :=
    value_roundPlaces_congr htotal 2
  simp only [Earnings.reading, List.map_append, List.map_cons, hcents,
    Allocation.map_reading_line hallocations]

theorem map_bracketed_congr {r r' : Request} (hr : r.SameTerms r')
    (hsales : r.sales.value = r'.sales.value) :
    (bracketed r).map Payslip.reading = (bracketed r').map Payslip.reading := by
  unfold bracketed
  rw [hr.plan]
  apply map_bind_congr_right
  intro terms
  apply map_bind_congr (map_bracketEarnings_congr terms hsales)
  intro e e' he
  rw [map_ofError, map_ofError, Payslip.map_assemble_congr hr he]

end Pay

namespace Bindings

theorem Matches.cons {b c : Bindings} (h : b.Matches c) (name : String) {v w : Decimal}
    (hvw : v.value = w.value) : Matches ((name, v) :: b) ((name, w) :: c) := by
  intro other
  simp only [get?, List.lookup_cons]
  split
  · exact congrArg some hvw
  · exact h other

theorem matches_seeded {sales sales' : Decimal} (hsales : sales.value = sales'.value)
    (bonuses deductions loans : Decimal) :
    (seeded sales bonuses deductions loans).Matches (seeded sales' bonuses deductions loans) := by
  apply Matches.cons _ _ hsales
  intro name
  rfl

theorem Matches.valueOrZero {b c : Bindings} (h : b.Matches c) (name : String) :
    (b.valueOrZero name).value = (c.valueOrZero name).value := by
  have hname := h name
  unfold Bindings.valueOrZero
  cases hb : b.get? name with
  | none =>
    rw [hb] at hname
    rw [Option.map_eq_none_iff.mp hname.symm]
  | some v =>
    rw [hb] at hname
    obtain ⟨w, hw, hvalue⟩ := Option.map_eq_some_iff.mp hname.symm
    rw [hw]
    exact hvalue.symm

end Bindings

section
variable {r r' : Request} (hemployee : r.employee = r'.employee)
variable (hsales : r.sales.value = r'.sales.value)
include hemployee hsales

theorem Variable.value_valueIn_congr (v : Variable) :
    (v.valueIn r).value = (v.valueIn r').value := by
  unfold valueIn
  cases v.source with
  | constant => rfl
  | sales => exact hsales
  | property path => rw [hemployee]

theorem Bindings.Matches.bindVariables {b c : Bindings} (h : b.Matches c) (vs : List Variable) :
    (b.bindAll (vs.map fun v => (v.name, v.valueIn r))).Matches
      (c.bindAll (vs.map fun v => (v.name, v.valueIn r'))) := by
  induction vs generalizing b c with
  | nil => exact h
  | cons v rest ih => exact ih (h.bind v.name (v.value_valueIn_congr hemployee hsales))

/-- The names that a request binds, or why it binds none. -/
theorem Formula.requestBindings_congr (f : Formula) (hr : r.SameTerms r') :
    (∃ cause, f.requestBindings r = .error cause ∧ f.requestBindings r' = .error cause) ∨
      ∃ b c, f.requestBindings r = .ok b ∧ f.requestBindings r' = .ok c ∧ b.Matches c := by
  have hbonuses : r'.bonusTotal = r.bonusTotal := by
    unfold Request.bonusTotal
    rw [hr.bonuses]
  have hdeductions : r'.deductionsTotal = r.deductionsTotal := by
    unfold Request.deductionsTotal
    rw [hr.deductions]
  have hloans : r'.loansTotal = r.loansTotal := by
    unfold Request.loansTotal
    rw [hr.loans]
  unfold requestBindings
  rw [hbonuses, hdeductions, hloans]
  cases r.bonusTotal with
  | error cause => exact .inl ⟨cause, rfl, rfl⟩
  | ok bonuses =>
    cases r.deductionsTotal with
    | error cause => exact .inl ⟨cause, rfl, rfl⟩
    | ok deductions =>
      cases r.loansTotal with
      | error cause => exact .inl ⟨cause, rfl, rfl⟩
      | ok loans =>
        have hseeded := Bindings.matches_seeded hsales bonuses deductions loans
        exact .inr ⟨_, _, rfl, rfl, hseeded.bindVariables hemployee hsales f.declared⟩

end

namespace Pay

theorem reading_lineUnlessZero_congr (kind : Payslip.LineKind) (description : String)
    {a b : Decimal} (h : a.value = b.value) :
    (lineUnlessZero kind a description).map Payslip.Line.reading =
      (lineUnlessZero kind b description).map Payslip.Line.reading := by
  unfold lineUnlessZero
  rw [isZero_congr h]
  split
  · rfl
  · exact congrArg (fun x => [(kind, x)]) h

theorem reading_evaluationEarnings_congr (f : Formula) {e e' : Evaluation} (h : e.Matches e') :
    (evaluationEarnings f e).reading = (evaluationEarnings f e').reading := by
  have hvalue (name : String) : (e.valueOrZero name).value = (e'.valueOrZero name).value :=
    h.bindings.valueOrZero name
  have houtput (description : String) :
      Payslip.Line.reading { kind := .formulaOutput, amount := e.result, description } =
        Payslip.Line.reading { kind := .formulaOutput, amount := e'.result, description } :=
    congrArg (Prod.mk _) h.result
  unfold Earnings.reading evaluationEarnings
  simp only [List.map_append, List.map_cons, hvalue, houtput,
    reading_lineUnlessZero_congr _ _ (hvalue _)]

theorem map_formulaic_congr (settings : FormulaSettings) {r r' : Request} (hr : r.SameTerms r')
    (hemployee : r.employee = r'.employee) (hsales : r.sales.value = r'.sales.value) :
    (formulaic settings r).map Payslip.reading = (formulaic settings r').map Payslip.reading := by
  have hfailure (message : String) (t t' : Trace) :
      ((Payslip.failure r message).withTrace t).reading =
        ((Payslip.failure r' message).withTrace t').reading := by
    unfold Payslip.failure
    rw [hr.plan]
    rfl
  cases hplan : Formula.ofPlan r.plan with
  | error cause =>
    unfold formulaic
    rw [← hr.plan, hplan]
    rfl
  | ok f =>
    have hplan' : Formula.ofPlan r'.plan = .ok f := by rw [← hr.plan, hplan]
    rcases f.requestBindings_congr hemployee hsales hr with
      ⟨cause, hb, hc⟩ | ⟨b, c, hb, hc, hbc⟩
    · rw [formulaic_of_bindings_error hplan hb, formulaic_of_bindings_error hplan' hc]
    obtain ⟨e, he⟩ := f.exists_evaluate settings b
    obtain ⟨e', he'⟩ := f.exists_evaluate settings c
    have hmatches := f.evaluate_congr settings hbc he he'
    rw [formulaic_of_evaluate hplan hb he, formulaic_of_evaluate hplan' hc he', ← hmatches.error]
    cases e.error with
    | some cause => exact congrArg Except.ok (hfailure cause.message e.trace e'.trace)
    | none =>
      have hassemble :=
        Payslip.map_assemble_congr hr (reading_evaluationEarnings_congr f hmatches)
      dsimp only
      cases hp : Payslip.assemble r (evaluationEarnings f e) with
      | error cause =>
        rw [eq_error_of_map_eq hassemble hp]
        rfl
      | ok p =>
        obtain ⟨p', hp', hreading⟩ := exists_ok_of_map_eq hassemble hp
        rw [hp']
        apply congrArg Except.ok
        -- The total is replaced in both, and a trace is no part of what is read.
        simp only [Payslip.reading, Payslip.Reading.mk.injEq] at hreading ⊢
        simp only [Payslip.withTotal, Payslip.withTrace, hmatches.result, hreading, and_self]

end Pay

/-- A request whose sales are written with another scale succeeds, fails or aborts alike, with equal
amounts in all lines and totals. -/
theorem Calculator.map_compute_scale (c : Calculator) (r : Request) {sales : Decimal}
    (h : r.sales.same sales = true) :
    (c.compute r).map Payslip.reading = (c.compute { r with sales }).map Payslip.reading := by
  have hr : r.SameTerms { r with sales } := ⟨rfl, rfl, rfl, rfl⟩
  have hsales : r.sales.value = sales.value := (same_iff _ _).mp h
  unfold compute
  cases c.kind with
  | fixed => exact Pay.map_salaried_congr Pay.seesValues_fixed hr hsales
  | commission => exact Pay.map_salaried_congr Pay.seesValues_sales hr hsales
  | tieredCommission => exact Pay.map_bracketed_congr hr hsales
  | formulaBased => exact Pay.map_formulaic_congr c.formula hr rfl hsales

def thirdRequest (sales : Decimal) : Request where
  employee := { id := "e1" }
  plan :=
    { id := "p1", type := "formula", name := "Thirds"
      config :=
        let third : String × Json :=
          ("operation", .object
            [("type", .string "divide"),
              ("parameters", .array [.string "salesAmount", .string "3"])])
        .object
          [("steps", .array
            [.object [("id", .string "s1"), third, ("result", .string "third")],
              .object
                [("id", .string "s2"),
                  ("operation", .object
                    [("type", .string "add"),
                      ("parameters", .array
                        [.object [("id", .string "s1"), third], .string "salesAmount"])]),
                  ("result", .string "pay")]]),
            ("outputVariable", .string "pay")] }
  sales := sales
  period := "2024-01"

def hundredInCents : Decimal :=
  { Decimal.zero with
    magnitude := 10000, scale := 2, magnitude_lt := by decide, scale_le := by decide }

theorem map_compute_thirdRequest :
    Decimal.hundred.same hundredInCents = true ∧
      ∃ p q, ({ kind := .formulaBased } : Calculator).compute (thirdRequest .hundred) = .ok p ∧
        p.succeeded = true ∧
        ({ kind := .formulaBased } : Calculator).compute (thirdRequest hundredInCents) = .ok q ∧
          q.reading = p.reading := by
  have hsame : Decimal.hundred.same hundredInCents = true := by decide
  have hsucceeds : (({ kind := .formulaBased } : Calculator).compute
      (thirdRequest .hundred)).toOption.map (·.succeeded) = some true := by decide +kernel
  obtain ⟨p, hp, hsucceeded⟩ := exists_ok_of_toOption_map hsucceeds
  have hscale :=
    Calculator.map_compute_scale { kind := .formulaBased } (thirdRequest .hundred) hsame
  obtain ⟨q, hq, hreading⟩ := exists_ok_of_map_eq hscale hp
  exact ⟨hsame, p, q, hp, hsucceeded, hq, hreading⟩

end Payroll
