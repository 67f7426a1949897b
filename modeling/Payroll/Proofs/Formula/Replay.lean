import Payroll.Proofs.Formula.Runs

/-!
# Replaying a trace

The trace of an evaluation is a record of it: to bind the results of its entries in turn is to
repeat the run. Without success it ends where the run did, before the step that failed, and what it
says of the steps before does not depend on those behind.
-/

set_option autoImplicit false

namespace Payroll

open Memoised

namespace PayError

def stepId? : PayError → Option String
  | undefinedVariable _ stepId | divisionByZero stepId | nestingTooDeep stepId _ => some stepId
  | _ => none

def IsOf (stepId : String) (cause : PayError) : Prop := ∀ id ∈ cause.stepId?, id = stepId

theorem isOf_of_stepId?_eq_none {stepId : String} {cause : PayError} (h : cause.stepId? = none) :
    cause.IsOf stepId := by
  intro id hid
  rw [h] at hid
  cases hid

theorem isOf_of_stepId?_eq_some {stepId : String} {cause : PayError}
    (h : cause.stepId? = some stepId) : cause.IsOf stepId := by
  intro id hid
  rw [h] at hid
  exact (Option.some.inj hid).symm

end PayError

def FailsIn {α : Type} (stepId : String) (answer : Except Halt α) : Prop :=
  ∀ cause, answer = .error (.error cause) → cause.IsOf stepId

section
variable {stepId : String} {α : Type}

theorem failsIn_ok (a : α) : FailsIn stepId (.ok a) := nofun

theorem failsIn_error {β : Type} {h : Halt}
    (hfails : FailsIn stepId (.error h : Except Halt α)) :
    FailsIn stepId (.error h : Except Halt β) := by
  intro cause hcause
  cases hcause
  exact hfails cause rfl

theorem failsIn_guarded (context : String) (x : Option α) :
    FailsIn stepId (Halt.guarded context x) := by
  intro cause h
  cases x with
  | none =>
    cases h
    exact PayError.isOf_of_stepId?_eq_none rfl
  | some a => cases h

theorem Halt.IsOverflow.isOf {cause : PayError} (h : (Halt.error cause).IsOverflow) :
    cause.IsOf stepId := by
  obtain ⟨context, h⟩ := h
  cases h
  exact PayError.isOf_of_stepId?_eq_none rfl

namespace Operator

theorem isOf_of_checkCount {op : Operator} {count : ℕ} {cause : PayError}
    (h : op.checkCount count = .error cause) : cause.IsOf stepId := by
  unfold checkCount at h
  split at h
  · cases h
    exact PayError.isOf_of_stepId?_eq_none rfl
  · split at h
    · cases h
    · cases h
      exact PayError.isOf_of_stepId?_eq_none rfl

theorem failsIn_applyTo (op : Operator) (values : List Decimal) :
    FailsIn stepId (op.applyTo stepId values) := by
  intro cause h
  cases op with
  | add | multiply => exact (isOverflow_of_foldlM h).isOf
  | subtract =>
    cases values with
    | nil => cases h
    | cons a rest => exact (isOverflow_of_subtract h).isOf
  | divide =>
    rcases values with _ | ⟨a, _ | ⟨b, rest⟩⟩
    · cases h
    · cases h
    · simp only [applyTo] at h
      split at h
      · cases h
        exact PayError.isOf_of_stepId?_eq_some rfl
      · exact failsIn_guarded _ _ cause h
  | conditional => rcases values with _ | ⟨c, _ | ⟨a, _ | ⟨b, rest⟩⟩⟩ <;> cases h
  | equal | notEqual | greaterThan | lessThan | greaterThanOrEqual | lessThanOrEqual =>
    rcases values with _ | ⟨a, _ | ⟨b, rest⟩⟩ <;> cases h
  | not | round | abs => rcases values with _ | ⟨a, rest⟩ <;> cases h
  | percent =>
    rcases values with _ | ⟨a, rest⟩
    · cases h
    · simp only [applyTo, applyTo.single] at h
      cases hdiv : a.div? .hundred <;> rw [hdiv] at h <;> cases h
  | min | max | and | or => cases h
  | unsupported tag =>
    cases h
    exact PayError.isOf_of_stepId?_eq_none rfl

end Operator

end

section
variable {scope : Scope}

theorem Scope.Refuses.isOf {cause : PayError} (h : scope.Refuses cause) :
    cause.IsOf scope.stepId := by
  rcases h with ⟨name, rfl⟩ | rfl
  · exact PayError.isOf_of_stepId?_eq_some rfl
  · exact PayError.isOf_of_stepId?_eq_some rfl

theorem ensures_failsIn_ofError {α : Type} {x : Except PayError α}
    (h : ∀ cause, x = .error cause → cause.IsOf scope.stepId) :
    Ensures (fun _ => True) (ofError x) (FailsIn scope.stepId) := by
  apply ensures_ofError
  intro cause hcause
  cases x with
  | ok a => cases hcause
  | error cause' =>
    cases hcause
    exact h cause rfl

theorem ensures_failsIn_resolve (name : String) :
    Ensures (fun _ => True) (ofError (scope.resolve name)) (FailsIn scope.stepId) :=
  ensures_failsIn_ofError fun _ h => (Scope.refuses_of_resolve h).isOf

theorem ensures_failsIn_applied (op : Operator) (count : ℕ) (key : Option String)
    {values : Memoised (List Decimal)}
    (hvalues : Ensures (fun _ => True) values (FailsIn scope.stepId)) :
    Ensures (fun _ => True) (applied scope.stepId op count key values) (FailsIn scope.stepId) := by
  refine ensures_applied ?_ (fun _ _ v _ _ => ⟨failsIn_ok v, trivial⟩) (fun _ => hvalues)
    (fun _ _ h => failsIn_error h) ?_ (fun _ v _ _ _ => ⟨failsIn_ok v, fun _ _ => trivial⟩)
  · intro cause hcount cause' h
    cases h
    exact Operator.isOf_of_checkCount hcount
  · intro values h _ _ happly
    rw [← happly]
    exact Operator.failsIn_applyTo op values

mutual
theorem Operation.ensures_failsIn : (o : Operation) →
    Ensures (fun _ => True) (o.eval scope) (FailsIn scope.stepId)
  | .literal value => by
    rw [Operation.eval]
    exact ensures_pure (failsIn_ok value)
  | .reference name => by
    rw [Operation.eval]
    exact ensures_failsIn_resolve name
  | .apply op ps => by
    rw [Operation.eval]
    have htree : Ensures (fun _ => True) (ofError (keyTree scope op ps))
        (FailsIn scope.stepId) := by
      apply ensures_failsIn_ofError
      intro cause h
      rw [← map_eq_error (f := fun _ => ()), map_keyTree] at h
      exact (Operation.refuses_of_check _ h).isOf
    refine htree.bind (fun _ h => failsIn_error h) fun tree _ => ?_
    exact ensures_failsIn_applied op ps.length tree.key (ensures_allFailIn ps tree.nested)
theorem Parameter.ensures_failsIn : (p : Parameter) → (keys : Option KeyTree) →
    Ensures (fun _ => True) (p.eval scope keys) (FailsIn scope.stepId)
  | .literal value => fun _ => by
    rw [Parameter.eval]
    exact ensures_pure (failsIn_ok value)
  | .reference name => fun _ => by
    rw [Parameter.eval]
    exact ensures_failsIn_resolve name
  | .step _ (.literal value) => fun _ => by
    rw [eval_step_literal]
    exact ensures_pure (failsIn_ok value)
  | .step _ (.reference name) => fun _ => by
    rw [eval_step_reference]
    exact ensures_failsIn_resolve name
  | .step _ (.apply op ps) => fun keys => by
    cases keys with
    | none =>
      rw [Parameter.eval]
      · exact (Operation.apply op ps).ensures_failsIn
      all_goals nofun
    | some tree =>
      rw [Parameter.eval]
      exact ensures_failsIn_applied op ps.length tree.key (ensures_allFailIn ps tree.nested)
theorem ensures_allFailIn : (ps : List Parameter) → (keys : List (Option KeyTree)) →
    Ensures (fun _ => True) (evalAll scope ps keys) (FailsIn scope.stepId)
  | [] => fun keys => by
    rw [evalAll_nil]
    exact ensures_pure (failsIn_ok [])
  | p :: rest => fun keys => by
    cases keys with
    | nil =>
      rw [evalAll]
      · exact ensures_pure (failsIn_ok [])
      all_goals nofun
    | cons key more =>
      rw [evalAll]
      refine (p.ensures_failsIn key).bind (fun _ h => failsIn_error h) fun v _ => ?_
      refine (ensures_allFailIn rest more).bind (fun _ h => failsIn_error h) fun vs _ => ?_
      exact ensures_pure (failsIn_ok (v :: vs))
end

end

namespace Trace

structure Entry.Tells (entry : Entry) (s : Step) (number : ℕ) : Prop where
  number : entry.number = number
  stepId : entry.stepId = s.id
  stepName : entry.stepName = s.name
  target : entry.target = s.result

def Tells (entries : List Entry) (steps : List Step) (number : ℕ) : Prop :=
  List.Forall₂ (fun entry (s : Step × ℕ) => entry.Tells s.1 s.2) entries (steps.zipIdx number)

def replay (b : Bindings) (entries : List Entry) : Bindings :=
  entries.foldl (fun b entry => b.bind entry.target entry.result) b

end Trace

namespace Progress

variable {limit number : ℕ} {p q : Progress} {b : Bindings} {before steps rest : List Step}

/-- The step lemma is `runSteps_of_ok`: a step that ran adds its entry and binds its result. -/
theorem exists_entries_of_none (hrun : runSteps limit number p steps = (none, q)) :
    ∃ entries, q.entries.reverse = p.entries.reverse ++ entries ∧
      Trace.Tells entries steps number ∧ Trace.replay p.bindings entries = q.bindings := by
  induction steps generalizing number p with
  | nil =>
    cases hrun
    exact ⟨[], (List.append_nil _).symm, .nil, rfl⟩
  | cons s rest ih =>
    rcases hstep : runFrom p.memo (s.operation.eval (p.scopeFor limit s)) with ⟨_ | value, memo⟩
    · rw [runSteps_of_error hstep] at hrun
      cases hrun
    · rw [runSteps_of_ok hstep] at hrun
      obtain ⟨entries, hentries, htells, hreplay⟩ := ih hrun
      rw [advance, List.reverse_cons, List.append_assoc] at hentries
      exact ⟨_ :: entries, hentries, .cons ⟨rfl, rfl, rfl, rfl⟩ htells, hreplay⟩

theorem length_reverse_of_none (hrun : runSteps limit number { bindings := b } steps = (none, q)) :
    q.entries.reverse.length = steps.length := by
  rw [List.length_reverse, length_entries_of_none hrun]
  exact Nat.zero_add _

theorem exists_of_append_of_none (hrun : runSteps limit number p (before ++ rest) = (none, q)) :
    ∃ last, runSteps limit number p before = (none, last) ∧
      runSteps limit (number + before.length) last rest = (none, q) := by
  rcases hbefore : runSteps limit number p before with ⟨_ | h, last⟩
  · exact ⟨last, rfl, (runSteps_append_of_none hbefore).symm.trans hrun⟩
  · rw [runSteps_append_of_some hbefore] at hrun
    cases hrun

end Progress

namespace Formula

def upTo (f : Formula) (n : ℕ) : Formula := { f with steps := f.steps.take n }

end Formula

/-- What the trace of an evaluation from `b` tells of it. -/
structure Evaluation.Recorded (settings : FormulaSettings) (f : Formula) (b : Bindings)
    (e : Evaluation) : Prop where
  /-- The entries are those of the first steps, in order and numbered from one. -/
  tells : Trace.Tells e.trace.entries (f.steps.take e.trace.entries.length) 1
  /-- Nothing is bound but what the entries say. -/
  replays : Trace.replay b e.trace.entries = e.bindings
  succeeds : e.error = none →
    e.trace.entries.length = f.steps.length ∧ e.bindings.get? f.output = some e.result
  /-- The output is missing, or the first step without an entry failed: the formula up to that step
  has the same evaluation. -/
  fails : ∀ cause, e.error = some cause → e.result = .zero ∧
    (cause = .outputMissing f.output ∧ e.trace.entries.length = f.steps.length ∧
        e.bindings.get? f.output = none ∨
      ∃ s, f.steps[e.trace.entries.length]? = some s ∧ cause.IsOf s.id ∧
        (f.upTo (e.trace.entries.length + 1)).evaluate settings b = .ok e)
  /-- Without the steps behind them, the first steps have the same entries. -/
  cut : ∀ n ≤ e.trace.entries.length, ∃ e', (f.upTo n).evaluate settings b = .ok e' ∧
    e'.trace.entries = e.trace.entries.take n

namespace Formula

variable {f : Formula} {settings : FormulaSettings} {b : Bindings} {q : Progress}

theorem exists_evaluate_of_none
    (hrun : Progress.runSteps settings.maxNestingDepth 1 { bindings := b } f.steps = (none, q)) :
    ∃ e, f.evaluate settings b = .ok e ∧ e.bindings = q.bindings ∧
      e.trace.entries = q.entries.reverse ∧
      (e.error = none ∧ q.bindings.get? f.output = some e.result ∨
        e.error = some (.outputMissing f.output) ∧ q.bindings.get? f.output = none ∧
          e.result = .zero) := by
  unfold evaluate
  rw [hrun]
  dsimp only
  cases houtput : q.bindings.get? f.output with
  | some result => exact ⟨_, rfl, rfl, rfl, .inl ⟨rfl, rfl⟩⟩
  | none => exact ⟨_, rfl, rfl, rfl, .inr ⟨rfl, rfl, rfl⟩⟩

/-- What stands behind a step that fails has no part in the evaluation. -/
theorem evaluate_upTo_of_some {n : ℕ} {h : Halt}
    (hrun : Progress.runSteps settings.maxNestingDepth 1 { bindings := b } (f.upTo n).steps =
      (some h, q)) : (f.upTo n).evaluate settings b = f.evaluate settings b := by
  have hall :
      Progress.runSteps settings.maxNestingDepth 1 { bindings := b } f.steps = (some h, q) := by
    rw [← List.take_append_drop n f.steps]
    exact Progress.runSteps_append_of_some hrun
  unfold evaluate
  rw [hrun, hall]
  rfl

section
variable {before after : List Step} {last : Progress} {e : Evaluation}
variable (hsteps : f.steps = before ++ after)
variable (hbefore :
  Progress.runSteps settings.maxNestingDepth 1 { bindings := b } before = (none, last))
include hsteps hbefore

theorem exists_evaluate_upTo {n : ℕ} (hn : n ≤ before.length) :
    ∃ e, (f.upTo n).evaluate settings b = .ok e ∧
      e.trace.entries = last.entries.reverse.take n := by
  have htake : (f.upTo n).steps = before.take n := by
    rw [upTo, hsteps, List.take_append_of_le_length hn]
  rw [← List.take_append_drop n before] at hbefore
  obtain ⟨middle, hmiddle, hrest⟩ := Progress.exists_of_append_of_none hbefore
  rw [← htake] at hmiddle
  obtain ⟨e, he, -, hentries, -⟩ := exists_evaluate_of_none hmiddle
  refine ⟨e, he, ?_⟩
  obtain ⟨more, hmore, -, -⟩ := Progress.exists_entries_of_none hrest
  have hlength : middle.entries.reverse.length = n := by
    rw [Progress.length_reverse_of_none hmiddle, htake, List.length_take, Nat.min_eq_left hn]
  rw [hentries, hmore, List.take_left' hlength]

/-- What a trace tells of the steps that ran, however the evaluation ended. -/
theorem recorded_of_run (hbindings : e.bindings = last.bindings)
    (hentries : e.trace.entries = last.entries.reverse)
    (hsucceeds : e.error = none → after = [] ∧ last.bindings.get? f.output = some e.result)
    (hfails : ∀ cause, e.error = some cause → e.result = .zero ∧
      (cause = .outputMissing f.output ∧ after = [] ∧ last.bindings.get? f.output = none ∨
        ∃ s rest, after = s :: rest ∧ cause.IsOf s.id ∧
          (f.upTo (before.length + 1)).evaluate settings b = .ok e)) :
    e.Recorded settings f b := by
  have hlength : e.trace.entries.length = before.length := by
    rw [hentries, Progress.length_reverse_of_none hbefore]
  have hall (h : after = []) : e.trace.entries.length = f.steps.length := by
    rw [hlength, hsteps, h, List.append_nil]
  obtain ⟨entries, hnew, htells, hreplay⟩ := Progress.exists_entries_of_none hbefore
  obtain rfl : e.trace.entries = entries := hentries.trans hnew
  constructor
  · rwa [hlength, hsteps, List.take_left]
  · exact hreplay.trans hbindings.symm
  · intro herror
    obtain ⟨hafter, houtput⟩ := hsucceeds herror
    exact ⟨hall hafter, hbindings ▸ houtput⟩
  · intro cause herror
    obtain ⟨hzero, ⟨rfl, hafter, houtput⟩ | ⟨s, rest, rfl, hof, heval⟩⟩ := hfails cause herror
    · exact ⟨hzero, .inl ⟨rfl, hall hafter, hbindings ▸ houtput⟩⟩
    · refine ⟨hzero, .inr ⟨s, ?_, hof, hlength ▸ heval⟩⟩
      rw [hlength, hsteps, List.getElem?_append_right (Nat.le_refl _), Nat.sub_self]
      rfl
  · intro n hn
    rw [hlength] at hn
    rw [hentries]
    exact exists_evaluate_upTo hsteps hbefore hn

end

theorem exists_recorded_of_none
    (hrun : Progress.runSteps settings.maxNestingDepth 1 { bindings := b } f.steps = (none, q)) :
    ∃ e, f.evaluate settings b = .ok e ∧ e.Recorded settings f b := by
  obtain ⟨e, he, hbindings, hentries, hend⟩ := exists_evaluate_of_none hrun
  refine ⟨e, he, recorded_of_run (List.append_nil _).symm hrun hbindings hentries ?_ ?_⟩
  · intro herror
    rcases hend with ⟨-, houtput⟩ | ⟨hmissing, -⟩
    · exact ⟨rfl, houtput⟩
    · rw [herror] at hmissing
      cases hmissing
  · intro cause herror
    rcases hend with ⟨hnone, -⟩ | ⟨hmissing, houtput, hzero⟩
    · rw [herror] at hnone
      cases hnone
    · rw [herror] at hmissing
      cases hmissing
      exact ⟨hzero, .inl ⟨rfl, rfl, houtput⟩⟩

theorem exists_recorded_of_error {cause : PayError}
    (hrun : Progress.runSteps settings.maxNestingDepth 1 { bindings := b } f.steps =
      (some (.error cause), q)) :
    ∃ e, f.evaluate settings b = .ok e ∧ e.Recorded settings f b := by
  obtain ⟨before, s, after, last, hsteps, hbefore, hfailed, hbindings, hentries⟩ :=
    Progress.exists_step_of_some hrun
  have heval : f.evaluate settings b = .ok (.ofProgress q .zero (some cause)) := by
    unfold evaluate
    rw [hrun]
  have hof : FailsIn s.id (runFrom last.memo
      (s.operation.eval (last.scopeFor settings.maxNestingDepth s))).1 :=
    (s.operation.ensures_failsIn last.memo trivial).1
  rw [hfailed] at hof
  have hupTo : (f.upTo (before.length + 1)).steps = before ++ [s] := by
    rw [upTo, hsteps, List.take_length_add_append]
    rfl
  have hcut : Progress.runSteps settings.maxNestingDepth 1 { bindings := b }
      (f.upTo (before.length + 1)).steps =
        (some (.error cause), { last with memo := q.memo }) := by
    rw [hupTo, Progress.runSteps_append_of_none hbefore, Progress.runSteps_of_error hfailed]
  refine ⟨_, heval, recorded_of_run hsteps hbefore hbindings ?_ nofun ?_⟩
  · exact congrArg List.reverse hentries
  · intro cause' herror
    cases herror
    exact ⟨rfl, .inr ⟨s, after, rfl, hof cause rfl, (evaluate_upTo_of_some hcut).trans heval⟩⟩

/-- Every evaluation, be it a success or not, is told exactly by its trace. -/
theorem evaluate_recorded (settings : FormulaSettings) (f : Formula) (b : Bindings) :
    ∃ e, f.evaluate settings b = .ok e ∧ e.Recorded settings f b := by
  rcases hrun : Progress.runSteps settings.maxNestingDepth 1 { bindings := b } f.steps
    with ⟨_ | cause | cause, q⟩
  · exact exists_recorded_of_none hrun
  · exact exists_recorded_of_error hrun
  · have hne :=
      Progress.runSteps_ne_abort settings.maxNestingDepth f.steps 1 { bindings := b } cause
    rw [hrun] at hne
    exact absurd rfl hne

end Formula

end Payroll
