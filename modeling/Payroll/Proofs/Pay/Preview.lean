import Payroll.Calculator
import Payroll.Proofs.Decimal.Arithmetic
import Payroll.Proofs.Formula.Failures
import Payroll.Proofs.Formula.Validity

/-!
# Previews

Without transactions and properties of the employee a formula sees what its preview sees. Payment
adds base salary, commission and target bonus up before the answer of the formula replaces their
sum, and so it fails where they have none. Nothing else keeps it from paying what was foretold.
-/

set_option autoImplicit false

namespace Payroll

open Decimal

/-- The preview tells what is paid, or why nothing is. -/
structure Foretells (preview : Except Halt Decimal) (answer : Except Abort Payslip) : Prop where
  pays : ∀ total, preview = .ok total ↔
    ∃ p, answer = .ok p ∧ p.succeeded = true ∧ p.total = total
  fails : ∀ message, (∃ cause : PayError, preview = .error (.error cause) ∧
      cause.message = message) ↔
    ∃ p, answer = .ok p ∧ p.succeeded = false ∧ p.error = some message

section
variable {preview : Except Halt Decimal} {answer : Except Abort Payslip} {p : Payslip}

theorem Foretells.of_succeeded {total : Decimal} (hpreview : preview = .ok total)
    (hanswer : answer = .ok p) (hp : p.succeeded = true) (htotal : p.total = total) :
    Foretells preview answer := by
  subst hpreview hanswer htotal
  constructor
  · intro total
    constructor
    · intro h
      cases h
      exact ⟨p, rfl, hp, rfl⟩
    · rintro ⟨p', hp', -, rfl⟩
      cases hp'
      rfl
  · intro message
    refine iff_of_false ?_ ?_
    · rintro ⟨cause, h, -⟩
      cases h
    · rintro ⟨p', hp', hfailed, -⟩
      cases hp'
      rw [hp] at hfailed
      cases hfailed

theorem Foretells.of_failed {cause : PayError} (hpreview : preview = .error (.error cause))
    (hanswer : answer = .ok p) (hp : p.succeeded = false) (herror : p.error = some cause.message) :
    Foretells preview answer := by
  subst hpreview hanswer
  constructor
  · intro total
    refine iff_of_false nofun ?_
    rintro ⟨p', hp', hsucceeded, -⟩
    cases hp'
    rw [hp] at hsucceeded
    cases hsucceeded
  · intro message
    constructor
    · rintro ⟨cause', h, rfl⟩
      cases h
      exact ⟨p, rfl, hp, herror⟩
    · rintro ⟨p', hp', -, hmessage⟩
      cases hp'
      exact ⟨cause, rfl, Option.some.inj (herror.symm.trans hmessage)⟩

theorem not_foretells {total : Decimal} (hpreview : preview = .ok total) (hanswer : answer = .ok p)
    (hp : p.succeeded = false) : ¬Foretells preview answer := by
  intro h
  obtain ⟨p', hp', hsucceeded, -⟩ := (h.pays total).mp hpreview
  obtain rfl : p = p' := Except.ok.inj (hanswer.symm.trans hp')
  rw [hp] at hsucceeded
  cases hsucceeded

end

/-- There are no transactions, and the employee has no properties. -/
structure Request.HasSalesAlone (r : Request) : Prop where
  bonuses : r.bonuses = []
  deductions : r.deductions = []
  loans : r.loans = []
  attributes : r.employee.attributes = []

theorem Employee.attribute?_eq_none {e : Employee} (h : e.attributes = []) (path : String) :
    e.attribute? path = none := by
  unfold attribute?
  rw [h]
  cases pathNames path with
  | nil => rfl
  | cons name rest => rfl

namespace Request.HasSalesAlone

variable {r : Request} (hr : r.HasSalesAlone)
include hr

theorem bonusTotal : r.bonusTotal = .ok .zero := by
  unfold Request.bonusTotal
  rw [hr.bonuses]
  rfl

theorem deductionsTotal : r.deductionsTotal = .ok .zero := by
  unfold Request.deductionsTotal
  rw [hr.deductions]
  rfl

theorem loansTotal : r.loansTotal = .ok .zero := by
  unfold Request.loansTotal
  rw [hr.loans]
  rfl

theorem valueIn (v : Variable) : v.valueIn r = v.valueAt r.sales := by
  unfold Variable.valueIn Variable.valueAt
  cases v.source with
  | constant => rfl
  | sales => rfl
  | property path =>
    dsimp only
    rw [Employee.attribute?_eq_none hr.attributes]
    rfl

theorem requestBindings (f : Formula) : f.requestBindings r = .ok (f.previewBindings r.sales) := by
  unfold Formula.requestBindings
  rw [hr.bonusTotal, hr.deductionsTotal, hr.loansTotal]
  simp only [hr.valueIn]
  rfl

theorem assemble_of_net?_eq_none {e : Earnings} (h : Payslip.net? e .zero .zero .zero = none) :
    Payslip.assemble r e = .error (.overflow "net total") := by
  unfold Payslip.assemble
  rw [hr.bonusTotal, hr.deductionsTotal, hr.loansTotal]
  dsimp only [bind, Except.bind]
  rw [h]

theorem exists_assemble_of_net? {e : Earnings} (h : Payslip.net? e .zero .zero .zero ≠ none) :
    ∃ p, Payslip.assemble r e = .ok p := by
  obtain ⟨total, htotal⟩ := Option.ne_none_iff_exists'.mp h
  unfold Payslip.assemble
  rw [hr.bonusTotal, hr.deductionsTotal, hr.loansTotal]
  dsimp only [bind, Except.bind]
  rw [htotal]
  exact ⟨_, rfl⟩

end Request.HasSalesAlone

/-- Base salary, commission and target bonus have no sum. -/
def Earnings.Overflows (e : Earnings) : Prop :=
  TooLarge (e.base.value + e.commission.value) ∨
    ∃ sum, e.base.add? e.commission = some sum ∧ TooLarge (sum.value + e.targetBonus.value)

theorem exists_add?_zero (a : Decimal) : ∃ b, a.add? .zero = some b := by
  refine Option.ne_none_iff_exists'.mp fun h => ?_
  have hlarge := add?_eq_none_iff.mp h
  rw [value_zero, add_zero] at hlarge
  exact not_tooLarge (abs_value_le a) hlarge

theorem Payslip.net?_zero_eq_none_iff {e : Earnings} :
    net? e .zero .zero .zero = none ↔ e.Overflows := by
  unfold net? Earnings.Overflows
  rw [← add?_eq_none_iff]
  cases hsum : e.base.add? e.commission with
  | none => exact iff_of_true rfl (.inl rfl)
  | some sum =>
    rw [Option.bind_eq_bind, Option.bind_some]
    cases htarget : sum.add? e.targetBonus with
    | none => exact iff_of_true rfl (.inr ⟨sum, rfl, add?_eq_none_iff.mp htarget⟩)
    | some total =>
      -- To add or take away nothing does not overflow.
      obtain ⟨total₁, h₁⟩ := exists_add?_zero total
      obtain ⟨total₂, h₂⟩ := exists_add?_zero total₁
      obtain ⟨total₃, h₃⟩ := exists_add?_zero total₂
      have hsub (a : Decimal) : a.sub? .zero = a.add? .zero := rfl
      refine iff_of_false ?_ ?_
      · simp only [Option.bind_some, hsub, h₁, h₂, h₃]
        exact nofun
      · rintro (h | ⟨sum', hsum', hlarge⟩)
        · cases h
        · cases hsum'
          rw [add?_eq_none_iff.mpr hlarge] at htarget
          cases htarget

namespace Formula

variable {settings : FormulaSettings} {f : Formula} {b : Bindings} {e : Evaluation}

theorem run_of_succeeded (he : f.evaluate settings b = .ok e) (herror : e.error = none) :
    f.run settings b = .ok e := by
  unfold run
  rw [he]
  dsimp only
  rw [herror]

theorem run_of_failed {cause : PayError} (he : f.evaluate settings b = .ok e)
    (herror : e.error = some cause) : f.run settings b = .error (.error cause) := by
  unfold run
  rw [he]
  dsimp only
  rw [herror]

end Formula

/-- Previews foretell payments for sales alone, but for formulas whose base salary, commission and
target bonus have no sum. -/
theorem foretells_iff {r : Request} (hr : r.HasSalesAlone) {f : Formula}
    (hplan : Formula.ofPlan r.plan = .ok f) (settings : FormulaSettings) :
    Foretells (f.preview settings r.sales)
        (({ kind := .formulaBased, formula := settings } : Calculator).answer r) ↔
      ∀ e, f.run settings (f.previewBindings r.sales) = .ok e →
        ¬(Pay.evaluationEarnings f e).Overflows := by
  obtain ⟨e, he⟩ := f.exists_evaluate settings (f.previewBindings r.sales)
  have hpay := Pay.formulaic_of_evaluate hplan (hr.requestBindings f) he
  unfold Formula.preview Calculator.answer Calculator.compute
  rw [hpay]
  cases herror : e.error with
  | some cause =>
    rw [Formula.run_of_failed he herror]
    exact iff_of_true (.of_failed rfl rfl rfl rfl) nofun
  | none =>
    rw [Formula.run_of_succeeded he herror]
    cases hnet : Payslip.net? (Pay.evaluationEarnings f e) .zero .zero .zero with
    | none =>
      have hoverflows := Payslip.net?_zero_eq_none_iff.mp hnet
      dsimp only
      rw [hr.assemble_of_net?_eq_none hnet]
      exact iff_of_false (not_foretells rfl rfl rfl) fun h => h e rfl hoverflows
    | some sum =>
      have hfits : Payslip.net? (Pay.evaluationEarnings f e) .zero .zero .zero ≠ none := by
        rw [hnet]
        nofun
      obtain ⟨p, hp⟩ := hr.exists_assemble_of_net? hfits
      dsimp only
      rw [hp]
      refine iff_of_true (.of_succeeded rfl rfl (Payslip.succeeded_of_assemble hp).1 rfl) ?_
      intro e' he' hoverflows
      cases he'
      exact hfits (Payslip.net?_zero_eq_none_iff.mpr hoverflows)

def itemsRequest (amount : String) : Request where
  employee := { id := "e1" }
  plan :=
    { id := "p1", type := "formula", name := "Plan"
      config := .object
        [("variables", .array
            [.object [("name", .string "baseSalary"), ("defaultValue", .string amount)],
              .object [("name", .string "commission"), ("defaultValue", .string amount)]]),
          ("steps", .array
            [.object
              [("id", .string "s1"), ("name", .string "Pay"), ("operation", .string "1"),
                ("result", .string "pay")]]),
          ("outputVariable", .string "pay")] }
  period := "2024-01"

theorem foretells_itemsRequest :
    (itemsRequest "1000").HasSalesAlone ∧
      ∃ f, Formula.ofPlan (itemsRequest "1000").plan = .ok f ∧
        Foretells (f.preview {} .zero)
          (({ kind := .formulaBased } : Calculator).answer (itemsRequest "1000")) := by
  have hr : (itemsRequest "1000").HasSalesAlone := ⟨rfl, rfl, rfl, rfl⟩
  have hfits : ((Formula.ofPlan (itemsRequest "1000").plan).toOption.map fun f =>
      (f.run {} (f.previewBindings .zero)).toOption.map fun e =>
        (Payslip.net? (Pay.evaluationEarnings f e) .zero .zero .zero).isSome) =
      some (some true) := by decide +kernel
  obtain ⟨f, hplan, hf⟩ := exists_ok_of_toOption_map hfits
  obtain ⟨e, hrun, hsome⟩ := exists_ok_of_toOption_map hf
  refine ⟨hr, f, hplan, (foretells_iff hr hplan {}).mpr fun e' he' hoverflows => ?_⟩
  obtain rfl : e = e' := Except.ok.inj (hrun.symm.trans he')
  rw [Payslip.net?_zero_eq_none_iff.mpr hoverflows] at hsome
  cases hsome

/-- The preview says 1. The payment fails, for a sum that it would not have paid. -/
theorem not_foretells_itemsRequest :
    (itemsRequest "70000000000000000000000000000").HasSalesAlone ∧
      ∃ f, Formula.ofPlan (itemsRequest "70000000000000000000000000000").plan = .ok f ∧
        ¬Foretells (f.preview {} .zero)
          (({ kind := .formulaBased } : Calculator).answer
            (itemsRequest "70000000000000000000000000000")) := by
  have hr : (itemsRequest "70000000000000000000000000000").HasSalesAlone := ⟨rfl, rfl, rfl, rfl⟩
  have hpreview :
      ((Formula.ofPlan (itemsRequest "70000000000000000000000000000").plan).toOption.map fun f =>
        (f.preview {} .zero).toOption.map Decimal.value) = some (some 1) := by decide +kernel
  have hanswer :
      (({ kind := .formulaBased } : Calculator).answer
        (itemsRequest "70000000000000000000000000000")).toOption.map (fun p => p.succeeded) =
      some false := by decide +kernel
  obtain ⟨f, hplan, hf⟩ := exists_ok_of_toOption_map hpreview
  obtain ⟨total, htotal, -⟩ := exists_ok_of_toOption_map hf
  obtain ⟨p, hp, hfailed⟩ := exists_ok_of_toOption_map hanswer
  exact ⟨hr, f, hplan, not_foretells htotal hp hfailed⟩

end Payroll
