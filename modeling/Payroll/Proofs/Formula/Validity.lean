import Payroll.Formula.Review
import Payroll.Pay.Formulaic
import Payroll.Proofs.Formula.Findings
import Payroll.Proofs.Formula.Runs
import Payroll.Proofs.Pay.Reading

/-!
# Valid formulas run

A formula without defects fails for arithmetic reasons alone. What a review of one step establishes
is soundness: names have values, operators are known and have as many parameters as they take, and
none is nested too deeply. A sound step passes its checks and none of its operators is refused, so
evaluating it can only fail for the amounts in it. Over all steps the names that the review counts
as bound are bound in the run.
-/

set_option autoImplicit false

namespace Payroll

open Memoised

mutual
/-- An operation at `depth` that can only fail for the amounts in it. -/
def Operation.Sound (scope : Scope) (depth : ℕ) : Operation → Prop
  | .literal _ => True
  | .reference name => ∃ value, scope.resolve name = .ok value
  | .apply op parameters =>
    depth ≤ scope.limit ∧ op.checkCount parameters.length = .ok () ∧ AllSound scope depth parameters
def Parameter.Sound (scope : Scope) (depth : ℕ) : Parameter → Prop
  | .literal _ => True
  | .reference name => ∃ value, scope.resolve name = .ok value
  | .step _ operation => operation.Sound scope (depth + 1)
def AllSound (scope : Scope) (depth : ℕ) : List Parameter → Prop
  | [] => True
  | p :: rest => p.Sound scope depth ∧ AllSound scope depth rest
end

namespace Outlook

/-- The names that a review counts as bound are bound, and it knows the limit of nesting. -/
structure Covers (o : Outlook) (scope : Scope) : Prop where
  bound : ∀ name ∈ o.bound, (scope.bindings.get? name).isSome
  limit : o.limit = scope.limit

variable {o : Outlook} {scope : Scope}

theorem Covers.resolve (h : o.Covers scope) {name : String} {position : Option ℕ}
    (hnone : o.referenceDefects name position = []) : ∃ value, scope.resolve name = .ok value := by
  unfold Scope.resolve Bindings.resolve?
  unfold referenceDefects at hnone
  split at hnone
  · next hknown =>
    cases hget : scope.bindings.get? name with
    | some value => exact ⟨value, rfl⟩
    | none =>
      rw [Bool.or_eq_true, List.contains_iff_mem] at hknown
      rcases hknown with hnumeral | hbound
      · obtain ⟨value, hvalue⟩ := Option.isSome_iff_exists.mp hnumeral
        unfold numeral? at hvalue
        exact ⟨value, by rw [hvalue]⟩
      · have := h.bound name hbound
        rw [hget] at this
        cases this
  · cases hnone

theorem checkCount_of_operatorDefects {op : Operator} {parameters : List Parameter}
    (hnone : o.operatorDefects op parameters = []) : op.checkCount parameters.length = .ok () := by
  unfold operatorDefects at hnone
  split at hnone
  · cases hnone
  · next arity harity =>
    split at hnone
    · cases hnone
    · next haccepts =>
      rw [Bool.not_eq_true, Bool.not_eq_false'] at haccepts
      exact Operator.checkCount_eq_ok_iff.mpr ⟨arity, harity, .inr haccepts⟩

end Outlook

section
variable {o : Outlook} {scope : Scope}

mutual
theorem Operation.sound_of_defects (hcovers : o.Covers scope) {depth : ℕ} :
    (operation : Operation) → operation.defects o depth = [] → operation.Sound scope depth
  | .literal _ => fun _ => trivial
  | .reference _ => fun hnone => by
    rw [Operation.defects] at hnone
    exact hcovers.resolve hnone
  | .apply op parameters => fun hnone => by
    rw [Operation.defects] at hnone
    split at hnone
    · cases hnone
    · next hdepth =>
      obtain ⟨hop, hrest⟩ := List.append_eq_nil_iff.mp hnone
      rw [hcovers.limit] at hdepth
      exact ⟨by omega, Outlook.checkCount_of_operatorDefects hop,
        allSound_of_defects hcovers parameters hrest⟩
theorem Parameter.sound_of_defects (hcovers : o.Covers scope) {depth position : ℕ} :
    (p : Parameter) → p.defects o depth position = [] → p.Sound scope depth
  | .literal _ => fun _ => trivial
  | .reference _ => fun hnone => by
    rw [Parameter.defects] at hnone
    exact hcovers.resolve hnone
  | .step _ operation => fun hnone => by
    rw [Parameter.defects] at hnone
    exact operation.sound_of_defects hcovers hnone
theorem allSound_of_defects (hcovers : o.Covers scope) {depth position : ℕ} :
    (ps : List Parameter) → defectsOf o depth position ps = [] → AllSound scope depth ps
  | [] => fun _ => trivial
  | p :: rest => fun hnone => by
    rw [defectsOf] at hnone
    obtain ⟨hp, hrest⟩ := List.append_eq_nil_iff.mp hnone
    exact ⟨p.sound_of_defects hcovers hp, allSound_of_defects hcovers rest hrest⟩
end

end

section
variable {scope : Scope}

mutual
theorem Operation.check_of_sound {depth : ℕ} : (operation : Operation) →
    operation.Sound scope depth → operation.check scope depth = .ok ()
  | .literal _ => fun _ => rfl
  | .reference _ => fun hsound => by
    obtain ⟨value, hvalue⟩ := hsound
    rw [Operation.check, hvalue]
    rfl
  | .apply _ parameters => fun hsound => by
    obtain ⟨hdepth, -, hall⟩ := hsound
    rw [Operation.check, Scope.checkDepth_eq_ok_iff.mpr hdepth]
    exact checkAll_of_sound parameters hall
theorem Parameter.check_of_sound {depth : ℕ} : (p : Parameter) →
    p.Sound scope depth → p.check scope depth = .ok ()
  | .literal _ => fun _ => rfl
  | .reference _ => fun hsound => by
    obtain ⟨value, hvalue⟩ := hsound
    rw [Parameter.check, hvalue]
    rfl
  | .step _ operation => fun hsound => by
    rw [Parameter.check]
    exact operation.check_of_sound hsound
theorem checkAll_of_sound {depth : ℕ} : (ps : List Parameter) →
    AllSound scope depth ps → checkAll scope depth ps = .ok ()
  | [] => fun _ => rfl
  | p :: rest => fun hsound => by
    obtain ⟨hp, hrest⟩ := hsound
    rw [checkAll, p.check_of_sound hp]
    exact checkAll_of_sound rest hrest
end

mutual
theorem Operation.not_miscounts_of_sound {depth : ℕ} {cause : PayError} : (operation : Operation) →
    operation.Sound scope depth → ¬operation.Miscounts cause
  | .literal _ => fun _ h => h
  | .reference _ => fun _ h => h
  | .apply _ parameters => fun hsound h => by
    obtain ⟨-, hcount, hall⟩ := hsound
    rcases h with h | h
    · rw [hcount] at h
      cases h
    · exact not_anyMiscounts_of_sound parameters hall h
theorem Parameter.not_miscounts_of_sound {depth : ℕ} {cause : PayError} : (p : Parameter) →
    p.Sound scope depth → ¬p.Miscounts cause
  | .literal _ => fun _ h => h
  | .reference _ => fun _ h => h
  | .step _ operation => fun hsound h => operation.not_miscounts_of_sound hsound h
theorem not_anyMiscounts_of_sound {depth : ℕ} {cause : PayError} : (ps : List Parameter) →
    AllSound scope depth ps → ¬AnyMiscounts cause ps
  | [] => fun _ h => h
  | p :: rest => fun hsound h => by
    obtain ⟨hp, hrest⟩ := hsound
    rcases h with h | h
    · exact p.not_miscounts_of_sound hp h
    · exact not_anyMiscounts_of_sound rest hrest h
end

theorem Operation.isArithmetic_of_sound {operation : Operation}
    (hsound : operation.Sound scope 0) {m m' : Memo} {h : Halt}
    (hrun : runFrom m (operation.eval scope) = (.error h, m')) : h.IsArithmetic := by
  have hcheck (cause : PayError) (hc : operation.check scope 0 = .error cause) : False := by
    rw [operation.check_of_sound hsound] at hc
    cases hc
  have hmiscounts (cause : PayError) (hc : operation.Miscounts cause) : False :=
    operation.not_miscounts_of_sound hsound hc
  obtain ⟨hanswers, -⟩ := operation.ensures_answers hcheck hmiscounts m trivial
  rw [hrun] at hanswers
  rcases hanswers with harith | ⟨cause, -, hcause⟩
  · exact harith
  · exact hcause.elim

end

namespace Progress

/-- How a run of steps without defects ends: with all names and results bound, or for the amounts in
it. -/
def EndsSanely (names : List String) (steps : List Step) : Option Halt × Progress → Prop
  | (some h, _) => h.IsArithmetic
  | (none, p) =>
    (∀ name ∈ names, (p.bindings.get? name).isSome) ∧
      ∀ s ∈ steps, (p.bindings.get? s.result).isSome

theorem EndsSanely.cons {names : List String} {s : Step} {rest : List Step}
    {out : Option Halt × Progress} (h : EndsSanely (s.result :: names) rest out) :
    EndsSanely names (s :: rest) out := by
  rcases out with ⟨_ | halt, p⟩
  · obtain ⟨hnames, hresults⟩ := h
    rw [List.forall_mem_cons] at hnames
    exact ⟨hnames.2, List.forall_mem_cons.mpr ⟨hnames.1, hresults⟩⟩
  · exact h

theorem endsSanely_runSteps {limit : ℕ} {steps : List Step} {bound names : List String}
    {number : ℕ} {p : Progress}
    (hnone : ∀ os ∈ Formula.outlooks limit bound steps, os.2.operation.defects os.1 0 = [])
    (hbound : ∀ name ∈ bound, (p.bindings.get? name).isSome)
    (hnames : ∀ name ∈ names, (p.bindings.get? name).isSome) :
    EndsSanely names steps (runSteps limit number p steps) := by
  induction steps generalizing bound names number p with
  | nil => exact ⟨hnames, fun s hs => by cases hs⟩
  | cons s rest ih =>
    rw [Formula.outlooks, List.forall_mem_cons] at hnone
    obtain ⟨hstep, hrest⟩ := hnone
    have hsound : s.operation.Sound (p.scopeFor limit s) 0 :=
      Operation.sound_of_defects ⟨hbound, rfl⟩ _ hstep
    rcases hrun : Memoised.runFrom p.memo (s.operation.eval (p.scopeFor limit s))
      with ⟨h | value, memo⟩
    · rw [runSteps_of_error hrun]
      exact Operation.isArithmetic_of_sound hsound hrun
    · rw [runSteps_of_ok hrun]
      have hkeep (name : String) (h : (p.bindings.get? name).isSome) :
          ((p.advance number s value memo).bindings.get? name).isSome :=
        Bindings.isSome_get?_bind.mpr (.inl h)
      have hself : ((p.advance number s value memo).bindings.get? s.result).isSome :=
        Bindings.isSome_get?_bind.mpr (.inr rfl)
      refine .cons (ih hrest ?_ ?_)
      · intro name hname
        split at hname
        · exact hkeep name (hbound name hname)
        · rcases List.mem_cons.mp hname with rfl | hname
          · exact hself
          · exact hkeep name (hbound name hname)
      · intro name hname
        rcases List.mem_cons.mp hname with rfl | hname
        · exact hself
        · exact hkeep name (hnames name hname)

end Progress

namespace Formula

variable {f : Formula} {settings : FormulaSettings}

theorem exists_step_of_outputShape (h : f.outputShape = []) :
    ∃ s ∈ f.steps, s.result = f.output := by
  unfold outputShape at h
  split at h
  · cases h
  · split at h
    · cases h
    · next hfind =>
      rw [Bool.not_eq_true, Option.isNone_eq_false_iff, Option.isSome_iff_exists] at hfind
      obtain ⟨s, hs⟩ := hfind
      exact ⟨s, List.mem_of_find?_eq_some hs, by simpa using List.find?_some hs⟩

theorem evaluate_of_defects (hnone : f.defects settings = []) {b : Bindings}
    (hb : ∀ name ∈ f.initialNames, (b.get? name).isSome) :
    ∃ e, f.evaluate settings b = .ok e ∧ ∀ cause, e.error = some cause → cause.IsArithmetic := by
  unfold defects at hnone
  obtain ⟨hnone, -⟩ := List.append_eq_nil_iff.mp hnone
  obtain ⟨hshape, hsteps⟩ := List.append_eq_nil_iff.mp hnone
  obtain ⟨s, hs, houtput⟩ := exists_step_of_outputShape (List.append_eq_nil_iff.mp hshape).2
  have hclean : ∀ os ∈ outlooks settings.maxNestingDepth f.initialNames f.steps,
      os.2.operation.defects os.1 0 = [] := by
    intro os hos
    exact Defect.depthOnce_eq_nil.mp (List.flatMap_eq_nil_iff.mp hsteps os hos)
  have hends : Progress.EndsSanely [] f.steps
      (Progress.runSteps settings.maxNestingDepth 1 { bindings := b } f.steps) :=
    Progress.endsSanely_runSteps hclean hb (by simp)
  unfold evaluate
  rcases hrun : Progress.runSteps settings.maxNestingDepth 1 { bindings := b } f.steps
    with ⟨_ | halt, p⟩
  · rw [hrun] at hends
    obtain ⟨result, hresult⟩ := Option.isSome_iff_exists.mp (hends.2 s hs)
    rw [houtput] at hresult
    dsimp only
    rw [hresult]
    exact ⟨_, rfl, fun cause h => by cases h⟩
  · rw [hrun] at hends
    obtain ⟨cause, rfl, hcause⟩ := hends
    refine ⟨_, rfl, fun cause' h => ?_⟩
    cases h
    exact hcause

theorem bound_of_requestBindings {r : Request} {b : Bindings} (h : f.requestBindings r = .ok b) :
    ∀ name ∈ f.initialNames, (b.get? name).isSome :=
  fun _ hname => (isSome_get?_of_requestBindings h).mpr hname

end Formula

theorem Transaction.isArithmetic_of_total {ts : List Transaction} {e : PayError}
    (h : total ts = .error e) : e.IsArithmetic := by
  unfold total at h
  generalize Decimal.zero = sum at h
  induction ts generalizing sum with
  | nil => cases h
  | cons t rest ih =>
    rw [List.foldlM_cons] at h
    rcases bind_eq_error h with h | ⟨sum', -, h⟩
    · cases hadd : sum.add? t.amount with
      | none =>
        rw [hadd] at h
        cases h
        trivial
      | some a =>
        rw [hadd] at h
        cases h
    · exact ih sum' h

theorem Formula.isArithmetic_of_requestBindings {f : Formula} {r : Request} {e : PayError}
    (h : f.requestBindings r = .error e) : e.IsArithmetic := by
  unfold requestBindings at h
  rcases bind_eq_error h with h | ⟨bonuses, -, h⟩
  · exact Transaction.isArithmetic_of_total h
  rcases bind_eq_error h with h | ⟨deductions, -, h⟩
  · exact Transaction.isArithmetic_of_total h
  rcases bind_eq_error h with h | ⟨loans, -, h⟩
  · exact Transaction.isArithmetic_of_total h
  cases h

namespace Payslip

theorem isArithmetic_of_assemble {r : Request} {earnings : Earnings} {e : PayError}
    (h : assemble r earnings = .error e) : e.IsArithmetic := by
  unfold assemble at h
  rcases bind_eq_error h with h | ⟨bonuses, -, h⟩
  · exact Transaction.isArithmetic_of_total h
  rcases bind_eq_error h with h | ⟨deductions, -, h⟩
  · exact Transaction.isArithmetic_of_total h
  rcases bind_eq_error h with h | ⟨loans, -, h⟩
  · exact Transaction.isArithmetic_of_total h
  split at h
  · cases h
    trivial
  · cases h

end Payslip

namespace Pay

theorem exists_formula_of_valid {settings : FormulaSettings} {plan : Plan}
    (hvalid : (Formula.reviewPlan settings plan).isValid = true) :
    ∃ f, Formula.ofPlan plan = .ok f ∧ f.defects settings = [] := by
  unfold Formula.reviewPlan at hvalid
  cases hplan : Formula.ofPlan plan with
  | error cause =>
    rw [hplan] at hvalid
    cases hvalid
  | ok f =>
    rw [hplan] at hvalid
    exact ⟨f, rfl, List.isEmpty_iff.mp hvalid⟩

section
variable {settings : FormulaSettings} {r : Request} {f : Formula} {b : Bindings} {e : Evaluation}
variable (hplan : Formula.ofPlan r.plan = .ok f)
include hplan

theorem formulaic_of_bindings_error {cause : PayError} (h : f.requestBindings r = .error cause) :
    formulaic settings r = .error (.error cause) := by
  unfold formulaic
  rw [hplan]
  show (Halt.ofError (f.requestBindings r) >>= _) = _
  rw [h]
  rfl

theorem formulaic_of_evaluate (hb : f.requestBindings r = .ok b)
    (he : f.evaluate settings b = .ok e) :
    formulaic settings r =
      match e.error with
      | some cause => .ok ((Payslip.failure r cause.message).withTrace e.trace)
      | none =>
        (Halt.ofError (Payslip.assemble r (evaluationEarnings f e))).map
          fun p => (p.withTotal e.result).withTrace e.trace := by
  unfold formulaic
  rw [hplan]
  show (Halt.ofError (f.requestBindings r) >>= _) = _
  rw [hb]
  show ((f.evaluate settings b).mapError Halt.abort >>= _) = _
  rw [he]
  rfl

end

/-- What passes the review pays, or fails for the amounts: there is a payslip, a failed payslip with
an arithmetic cause, or an arithmetic error. -/
theorem formulaic_of_valid {settings : FormulaSettings} {r : Request}
    (hvalid : (Formula.reviewPlan settings r.plan).isValid = true) :
    (∃ p, formulaic settings r = .ok p ∧ p.succeeded = true ∧ p.error = none) ∨
      (∃ (cause : PayError) (trace : Trace), cause.IsArithmetic ∧
        formulaic settings r = .ok ((Payslip.failure r cause.message).withTrace trace)) ∨
      ∃ cause : PayError, cause.IsArithmetic ∧ formulaic settings r = .error (.error cause) := by
  obtain ⟨f, hplan, hnone⟩ := exists_formula_of_valid hvalid
  cases hb : f.requestBindings r with
  | error cause =>
    right; right
    exact ⟨cause, Formula.isArithmetic_of_requestBindings hb, formulaic_of_bindings_error hplan hb⟩
  | ok b =>
    obtain ⟨e, he, hcause⟩ :=
      Formula.evaluate_of_defects hnone (Formula.bound_of_requestBindings hb)
    rw [formulaic_of_evaluate hplan hb he]
    cases herror : e.error with
    | some cause => exact .inr (.inl ⟨cause, e.trace, hcause cause herror, rfl⟩)
    | none =>
      cases hassemble : Payslip.assemble r (evaluationEarnings f e) with
      | error cause =>
        exact .inr (.inr ⟨cause, Payslip.isArithmetic_of_assemble hassemble, rfl⟩)
      | ok p =>
        obtain ⟨hsucceeded, hnoError⟩ := Payslip.succeeded_of_assemble hassemble
        exact .inl ⟨(p.withTotal e.result).withTrace e.trace, rfl, hsucceeded, hnoError⟩

/-- A request for the ratio of sales to bonuses, which nothing but the bonuses can keep from being
paid. -/
def salesPerBonus : Request where
  employee := { id := "e" }
  plan :=
    { id := "p", type := "formula_based", name := "Sales for each bonus"
      config := .object
        [("outputVariable", .string "pay"),
          ("steps", .array
            [.object
              [("id", .string "s"), ("name", .string "Ratio"),
                ("operation", .object
                  [("type", .string "divide"),
                    ("parameters", .array [.string "salesAmount", .string "bonusTotal"])]),
                ("result", .string "pay")]])] }
  period := "2024-01"

theorem formulaic_salesPerBonus :
    (Formula.reviewPlan {} salesPerBonus.plan).isValid = true ∧
      ((∃ p, formulaic {} salesPerBonus = .ok p ∧ p.succeeded = true ∧ p.error = none) ∨
        (∃ (cause : PayError) (trace : Trace), cause.IsArithmetic ∧
          formulaic {} salesPerBonus =
            .ok ((Payslip.failure salesPerBonus cause.message).withTrace trace)) ∨
        ∃ cause : PayError, cause.IsArithmetic ∧
          formulaic {} salesPerBonus = .error (.error cause)) := by
  have hvalid : (Formula.reviewPlan {} salesPerBonus.plan).isValid = true := by decide +kernel
  exact ⟨hvalid, formulaic_of_valid hvalid⟩

end Pay

end Payroll
