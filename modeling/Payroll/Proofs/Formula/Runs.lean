import Payroll.Formula.Review.Steps
import Payroll.Proofs.Formula.Failures

/-!
# Runs of steps

Steps run until one fails. What ran before the failure was traced and left its results bound, and
nothing of what stands behind it did. So a step that cannot run ends a formula before its turn is
over, whatever else happens.
-/

set_option autoImplicit false

namespace Payroll

open Memoised

namespace Bindings

theorem isSome_get?_bind {b : Bindings} {name target : String} {value : Decimal} :
    ((b.bind target value).get? name).isSome ↔ (b.get? name).isSome ∨ target = name := by
  rw [get?_bind]
  by_cases h : name = target
  · simp [h]
  · simp [h, Ne.symm h]

theorem isSome_get?_bindAll {b : Bindings} {name : String} {more : List (String × Decimal)} :
    ((b.bindAll more).get? name).isSome ↔ (b.get? name).isSome ∨ name ∈ more.map Prod.fst := by
  induction more generalizing b with
  | nil => simp [bindAll]
  | cons entry rest ih =>
    have hcons : b.bindAll (entry :: rest) = (b.bind entry.1 entry.2).bindAll rest := rfl
    rw [hcons, ih, isSome_get?_bind, List.map_cons, List.mem_cons, or_assoc, eq_comm (a := name)]

end Bindings

theorem Formula.isSome_get?_of_requestBindings {f : Formula} {r : Request} {b : Bindings}
    {name : String} (h : f.requestBindings r = .ok b) :
    (b.get? name).isSome ↔ name ∈ f.initialNames := by
  unfold requestBindings at h
  obtain ⟨bonuses, -, h⟩ := bind_eq_ok h
  obtain ⟨deductions, -, h⟩ := bind_eq_ok h
  obtain ⟨loans, -, h⟩ := bind_eq_ok h
  cases h
  have hseeded : ((Bindings.seeded r.sales bonuses deductions loans).get? name).isSome ↔
      name ∈ Bindings.seeds := by
    simp [Bindings.get?, Bindings.seeded, Bindings.seeds, List.lookup_isSome_iff]
  rw [Bindings.isSome_get?_bindAll, hseeded, List.map_map, initialNames, List.mem_append]
  rfl

def Request.idle : Request where
  employee := { id := "e" }
  plan := { id := "p", type := "formula_based", name := "Plan" }
  period := "2024-01"

theorem Formula.requestBindings_idle {f : Formula} (h : f.declared = []) :
    f.requestBindings .idle = .ok (Bindings.seeded .zero .zero .zero .zero) := by
  unfold requestBindings
  rw [h]
  rfl

/-- What keeps a step from being evaluated: a name without a value, or too deep nesting. -/
def PayError.Blocks : PayError → Prop
  | undefinedVariable _ _ | nestingTooDeep _ _ => True
  | _ => False

def Scope.Refuses (scope : Scope) (cause : PayError) : Prop :=
  (∃ name, cause = .undefinedVariable name scope.stepId) ∨
    cause = .nestingTooDeep scope.stepId scope.limit

section
variable {scope : Scope} {cause : PayError}

theorem Scope.Refuses.blocks (h : scope.Refuses cause) : cause.Blocks := by
  rcases h with ⟨name, rfl⟩ | rfl <;> trivial

theorem Scope.refuses_of_resolve {name : String} (h : scope.resolve name = .error cause) :
    scope.Refuses cause := by
  unfold resolve at h
  split at h
  · cases h
  · cases h
    exact .inl ⟨name, rfl⟩

theorem Scope.refuses_of_checkDepth {depth : ℕ} (h : scope.checkDepth depth = .error cause) :
    scope.Refuses cause := by
  unfold checkDepth at h
  split at h
  · cases h
    exact .inr rfl
  · cases h

mutual
theorem Operation.refuses_of_check {depth : ℕ} : (o : Operation) →
    o.check scope depth = .error cause → scope.Refuses cause
  | .literal _ => fun h => by cases h
  | .reference _ => fun h => by
    rcases bind_eq_error h with h | ⟨value, -, h⟩
    · exact Scope.refuses_of_resolve h
    · cases h
  | .apply _ ps => fun h => by
    rcases bind_eq_error h with h | ⟨_, -, h⟩
    · exact Scope.refuses_of_checkDepth h
    · exact refuses_of_checkAll ps h
theorem Parameter.refuses_of_check {depth : ℕ} : (p : Parameter) →
    p.check scope depth = .error cause → scope.Refuses cause
  | .literal _ => fun h => by cases h
  | .reference _ => fun h => by
    rcases bind_eq_error h with h | ⟨value, -, h⟩
    · exact Scope.refuses_of_resolve h
    · cases h
  | .step _ o => fun h => o.refuses_of_check h
theorem refuses_of_checkAll {depth : ℕ} : (ps : List Parameter) →
    checkAll scope depth ps = .error cause → scope.Refuses cause
  | [] => fun h => by cases h
  | p :: rest => fun h => by
    rcases bind_eq_error h with h | ⟨_, -, h⟩
    · exact p.refuses_of_check h
    · exact refuses_of_checkAll rest h
end

end

/-- A step whose names or depth do not pass fails before anything in it is evaluated. -/
theorem Operation.runFrom_eval_of_check {scope : Scope} {cause : PayError} (o : Operation)
    (h : o.check scope 0 = .error cause) (m : Memo) :
    runFrom m (o.eval scope) = (.error (.error cause), m) := by
  cases o with
  | literal value => cases h
  | reference name =>
    rw [Operation.check] at h
    rcases bind_eq_error h with h | ⟨value, -, h⟩
    · rw [Operation.eval, runFrom_ofError, h]
      rfl
    · cases h
  | apply op parameters =>
    rw [← map_keyTree, map_eq_error] at h
    rw [Operation.eval]
    exact runFrom_bind_of_error (by rw [runFrom_ofError, h]; rfl) _

namespace Progress

variable {limit number : ℕ} {p q : Progress} {s : Step} {before steps rest : List Step} {h : Halt}

theorem runSteps_append_of_some (hrun : runSteps limit number p before = (some h, q)) :
    runSteps limit number p (before ++ rest) = (some h, q) := by
  induction before generalizing number p with
  | nil => cases hrun
  | cons s before ih =>
    rw [List.cons_append]
    rcases hstep : runFrom p.memo (s.operation.eval (p.scopeFor limit s)) with ⟨_ | value, memo⟩
    · rwa [runSteps_of_error hstep] at hrun ⊢
    · rw [runSteps_of_ok hstep] at hrun ⊢
      exact ih hrun

theorem runSteps_append_of_none (hrun : runSteps limit number p before = (none, q)) :
    runSteps limit number p (before ++ rest) =
      runSteps limit (number + before.length) q rest := by
  induction before generalizing number p with
  | nil =>
    cases hrun
    rfl
  | cons s before ih =>
    rw [List.cons_append]
    rcases hstep : runFrom p.memo (s.operation.eval (p.scopeFor limit s)) with ⟨_ | value, memo⟩
    · rw [runSteps_of_error hstep] at hrun
      cases hrun
    · rw [runSteps_of_ok hstep] at hrun ⊢
      rw [ih hrun, List.length_cons, Nat.add_assoc, Nat.add_comm 1]

theorem length_entries_of_none (hrun : runSteps limit number p steps = (none, q)) :
    q.entries.length = p.entries.length + steps.length := by
  induction steps generalizing number p with
  | nil =>
    cases hrun
    rfl
  | cons s rest ih =>
    rcases hstep : runFrom p.memo (s.operation.eval (p.scopeFor limit s)) with ⟨_ | value, memo⟩
    · rw [runSteps_of_error hstep] at hrun
      cases hrun
    · rw [runSteps_of_ok hstep] at hrun
      have hlength := ih hrun
      simp only [advance, List.length_cons] at hlength ⊢
      omega

theorem isSome_get?_of_none (hrun : runSteps limit number p steps = (none, q)) {name : String} :
    (q.bindings.get? name).isSome ↔
      (p.bindings.get? name).isSome ∨ ∃ s ∈ steps, s.result = name := by
  induction steps generalizing number p with
  | nil =>
    cases hrun
    simp
  | cons s rest ih =>
    rcases hstep : runFrom p.memo (s.operation.eval (p.scopeFor limit s)) with ⟨_ | value, memo⟩
    · rw [runSteps_of_error hstep] at hrun
      cases hrun
    · rw [runSteps_of_ok hstep] at hrun
      rw [ih hrun, List.exists_mem_cons_iff, advance, Bindings.isSome_get?_bind, or_assoc]

theorem exists_step_of_some (hrun : runSteps limit number p steps = (some h, q)) :
    ∃ before s after last, steps = before ++ s :: after ∧
      runSteps limit number p before = (none, last) ∧
      runFrom last.memo (s.operation.eval (last.scopeFor limit s)) = (.error h, q.memo) ∧
      q.bindings = last.bindings ∧ q.entries = last.entries := by
  induction steps generalizing number p with
  | nil => cases hrun
  | cons s rest ih =>
    rcases hstep : runFrom p.memo (s.operation.eval (p.scopeFor limit s)) with ⟨_ | value, memo⟩
    · rw [runSteps_of_error hstep] at hrun
      cases hrun
      exact ⟨[], s, rest, p, rfl, rfl, hstep, rfl, rfl⟩
    · rw [runSteps_of_ok hstep] at hrun
      obtain ⟨before, failed, after, last, rfl, hbefore, hfailed, hlast⟩ := ih hrun
      refine ⟨s :: before, failed, after, last, rfl, ?_, hfailed, hlast⟩
      rw [runSteps_of_ok hstep]
      exact hbefore

/-- If a step cannot run after those before it, then the run fails there at the latest. -/
theorem exists_some_of_stuck
    (hstuck : ∀ last, runSteps limit number p before = (none, last) →
      ∃ cause, s.operation.check (last.scopeFor limit s) 0 = .error cause) :
    ∃ h q, runSteps limit number p (before ++ s :: rest) = (some h, q) ∧
      q.entries.length ≤ p.entries.length + before.length := by
  rcases hrun : runSteps limit number p before with ⟨_ | h, last⟩
  · obtain ⟨cause, hcheck⟩ := hstuck last hrun
    have hstep := s.operation.runFrom_eval_of_check hcheck last.memo
    refine ⟨.error cause, { last with memo := last.memo }, ?_, (length_entries_of_none hrun).le⟩
    rw [runSteps_append_of_none hrun, runSteps_of_error hstep]
  · obtain ⟨earlier, failed, after, q, rfl, hearlier, -, -, hentries⟩ := exists_step_of_some hrun
    refine ⟨h, last, runSteps_append_of_some hrun, ?_⟩
    rw [hentries, length_entries_of_none hearlier, List.length_append]
    omega

end Progress

namespace Formula

variable {f : Formula} {settings : FormulaSettings} {b : Bindings} {e : Evaluation}
variable {before after : List Step} {s : Step}

theorem evaluate_of_stuck (settings : FormulaSettings) (b : Bindings)
    (hsteps : f.steps = before ++ s :: after)
    (hstuck : ∀ scope : Scope, scope.limit = settings.maxNestingDepth →
      (∀ name, (scope.bindings.get? name).isSome ↔
        (b.get? name).isSome ∨ ∃ t ∈ before, t.result = name) →
      ∃ cause, s.operation.check scope 0 = .error cause) :
    ∃ e, f.evaluate settings b = .ok e ∧ e.succeeded = false ∧
      e.trace.entries.length ≤ before.length := by
  have hfails : ∃ h q,
      Progress.runSteps settings.maxNestingDepth 1 { bindings := b } (before ++ s :: after) =
        (some h, q) ∧ q.entries.length ≤ ([] : List Trace.Entry).length + before.length := by
    apply Progress.exists_some_of_stuck
    intro last hlast
    exact hstuck _ rfl fun name => Progress.isSome_get?_of_none hlast
  obtain ⟨h, q, hrun, hlength⟩ := hfails
  rw [← hsteps] at hrun
  cases h with
  | abort cause =>
    have hne :=
      Progress.runSteps_ne_abort settings.maxNestingDepth f.steps 1 { bindings := b } cause
    rw [hrun] at hne
    exact absurd rfl hne
  | error cause =>
    refine ⟨.ofProgress q .zero (some cause), ?_, rfl, ?_⟩
    · unfold evaluate
      rw [hrun]
    · simpa [Evaluation.ofProgress] using hlength

end Formula

end Payroll
