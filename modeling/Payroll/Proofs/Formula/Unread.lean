import Payroll.Proofs.Formula.Runs

/-!
# Names that no step reads

A step sees the values of the names that it refers to, and of no others. So a name that no step
refers to may be bound to anything: the steps compute and record the same, and only the name itself
is left with another value, unless one of them binds it.
-/

set_option autoImplicit false

namespace Payroll

open Memoised

/-- Two scopes of one step in which these names stand for the same. -/
structure Scope.Alike (names : List String) (s t : Scope) : Prop where
  stepId : s.stepId = t.stepId
  limit : s.limit = t.limit
  resolve : ∀ name ∈ names, s.resolve name = t.resolve name

namespace Scope.Alike

variable {names more : List String} {s t : Scope}

theorem of_append (h : Alike (names ++ more) s t) : Alike names s t ∧ Alike more s t := by
  obtain ⟨hnames, hmore⟩ := List.forall_mem_append.mp h.resolve
  exact ⟨⟨h.stepId, h.limit, hnames⟩, ⟨h.stepId, h.limit, hmore⟩⟩

theorem checkDepth (h : Alike names s t) (depth : ℕ) : s.checkDepth depth = t.checkDepth depth := by
  unfold Scope.checkDepth
  rw [h.limit, h.stepId]

theorem keyTree {ps : List Parameter} (h : Alike (referencesOf ps) s t) (op : Operator) :
    keyTree s op ps = keyTree t op ps := by
  refine keyTree_congr h.checkDepth op fun name hname => ?_
  rw [h.resolve name hname]

end Scope.Alike

section
variable {s t : Scope}

mutual
/-- An operation is the same computation wherever the names that it refers to stand for the same. -/
theorem Operation.eval_congr : (o : Operation) → Scope.Alike o.references s t → o.eval s = o.eval t
  | .literal _ => fun _ => by rw [Operation.eval, Operation.eval]
  | .reference name => fun h => by
    rw [Operation.eval, Operation.eval, h.resolve name (List.mem_singleton_self name)]
  | .apply op ps => fun h => by
    rw [Operation.eval, Operation.eval, Scope.Alike.keyTree h, h.stepId]
    congr 1
    funext tree
    rw [evalAll_congr ps tree.nested h]
theorem Parameter.eval_congr : (p : Parameter) → (keys : Option KeyTree) →
    Scope.Alike p.references s t → p.eval s keys = p.eval t keys
  | .literal _ => fun _ _ => by rw [Parameter.eval, Parameter.eval]
  | .reference name => fun _ h => by
    rw [Parameter.eval, Parameter.eval, h.resolve name (List.mem_singleton_self name)]
  | .step heading (.literal value) => fun _ _ => by rw [eval_step_literal, eval_step_literal]
  | .step heading (.reference name) => fun _ h => by
    rw [eval_step_reference, eval_step_reference, h.resolve name (List.mem_singleton_self name)]
  | .step heading (.apply op ps) => fun keys h => by
    cases keys with
    | none =>
      rw [Parameter.eval, Parameter.eval]
      · exact (Operation.apply op ps).eval_congr h
      all_goals nofun
    | some tree =>
      rw [Parameter.eval, Parameter.eval, h.stepId, evalAll_congr ps tree.nested h]
theorem evalAll_congr : (ps : List Parameter) → (keys : List (Option KeyTree)) →
    Scope.Alike (referencesOf ps) s t → evalAll s ps keys = evalAll t ps keys
  | [] => fun _ _ => by rw [evalAll_nil, evalAll_nil]
  | p :: rest => fun keys h => by
    obtain ⟨hp, hrest⟩ := Scope.Alike.of_append h
    cases keys with
    | nil =>
      rw [evalAll, evalAll]
      all_goals nofun
    | cons key more =>
      rw [evalAll, evalAll, p.eval_congr key hp, evalAll_congr rest more hrest]
end

end

section
variable {b c : Bindings}

theorem Trace.reference_congr {name : String} (h : b.get? name = c.get? name) :
    Trace.reference b name = Trace.reference c name := by
  unfold Trace.reference
  rw [h]

theorem Trace.map_parameter_congr (ps : List Parameter)
    (h : ∀ name ∈ referencesOf ps, b.get? name = c.get? name) :
    ps.map (Trace.parameter b) = ps.map (Trace.parameter c) := by
  induction ps with
  | nil => rfl
  | cons p rest ih =>
    obtain ⟨hp, hrest⟩ := List.forall_mem_append.mp h
    rw [List.map_cons, List.map_cons, ih hrest]
    congr 1
    cases p with
    | literal _ => rfl
    | step _ _ => rfl
    | reference name => exact Trace.reference_congr (hp name (List.mem_singleton_self name))

theorem Trace.inputsOf_congr (o : Operation)
    (h : ∀ name ∈ o.references, b.get? name = c.get? name) :
    Trace.inputsOf b o = Trace.inputsOf c o := by
  cases o with
  | literal _ => rfl
  | reference name =>
    have hname := Trace.reference_congr (h name (List.mem_singleton_self name))
    exact congrArg (fun input => Json.array [input]) hname
  | apply op ps => exact congrArg Json.array (Trace.map_parameter_congr ps h)

end

namespace Bindings

/-- All names but this one are bound to the same values. -/
def SameBut (name : String) (b c : Bindings) : Prop :=
  ∀ other, other ≠ name → b.get? other = c.get? other

variable {name : String} {b c : Bindings}

theorem SameBut.refl (name : String) (b : Bindings) : b.SameBut name b :=
  fun _ _ => rfl

theorem SameBut.bind (h : b.SameBut name c) (target : String) (value : Decimal) :
    (b.bind target value).SameBut name (c.bind target value) := by
  intro other hother
  rw [get?_bind, get?_bind, h other hother]

theorem SameBut.bind_name (h : b.SameBut name c) (v w : Decimal) :
    (b.bind name v).SameBut name (c.bind name w) := by
  intro other hother
  rw [get?_bind, get?_bind, if_neg hother, if_neg hother, h other hother]

theorem valueOrZero_bind_eq_iff {target : String} {value : Decimal} :
    (b.bind target value).valueOrZero name = (c.bind target value).valueOrZero name ↔
      target = name ∨ b.valueOrZero name = c.valueOrZero name := by
  unfold valueOrZero
  rw [get?_bind, get?_bind]
  by_cases h : name = target
  · rw [if_pos h, if_pos h]
    exact iff_of_true rfl (.inl h.symm)
  · rw [if_neg h, if_neg h]
    exact (or_iff_right (Ne.symm h)).symm

theorem SameBut.scope (h : b.SameBut name c) {names : List String} (hnames : name ∉ names)
    (stepId : String) (limit : ℕ) :
    Scope.Alike names { bindings := b, stepId, limit } { bindings := c, stepId, limit } := by
  refine ⟨rfl, rfl, fun other hother => ?_⟩
  unfold Scope.resolve resolve?
  dsimp only
  rw [h other (ne_of_mem_of_not_mem hother hnames)]

end Bindings

structure Progress.SameBut (name : String) (p q : Progress) : Prop where
  bindings : p.bindings.SameBut name q.bindings
  memo : p.memo = q.memo
  entries : p.entries = q.entries

namespace Progress

variable {name : String} {p q : Progress} {s : Step}

theorem SameBut.runFrom_eval (h : p.SameBut name q) (limit : ℕ)
    (hs : name ∉ s.operation.references) :
    runFrom p.memo (s.operation.eval (p.scopeFor limit s)) =
      runFrom q.memo (s.operation.eval (q.scopeFor limit s)) := by
  have hscope : Scope.Alike s.operation.references (p.scopeFor limit s) (q.scopeFor limit s) :=
    h.bindings.scope hs s.id limit
  rw [h.memo, s.operation.eval_congr hscope]

theorem SameBut.advance (h : p.SameBut name q) (hs : name ∉ s.operation.references)
    (number : ℕ) (value : Decimal) (memo : Memo) :
    (p.advance number s value memo).SameBut name (q.advance number s value memo) := by
  have hinputs : Trace.inputsOf p.bindings s.operation = Trace.inputsOf q.bindings s.operation :=
    Trace.inputsOf_congr s.operation fun other hother =>
      h.bindings other (ne_of_mem_of_not_mem hother hs)
  refine ⟨h.bindings.bind s.result value, rfl, ?_⟩
  unfold Progress.advance
  dsimp only
  rw [hinputs, h.entries]

/-- The run lemma: the steps end alike, and the name has one value in the end if it had before or if
one of them binds it. -/
theorem SameBut.runSteps {steps : List Step} (h : p.SameBut name q) (limit number : ℕ)
    (hunread : ∀ s ∈ steps, name ∉ s.operation.references) :
    ∃ halt p' q', runSteps limit number p steps = (halt, p') ∧
      runSteps limit number q steps = (halt, q') ∧ p'.SameBut name q' ∧
        (halt = none → (p'.bindings.valueOrZero name = q'.bindings.valueOrZero name ↔
          (∃ s ∈ steps, s.result = name) ∨
            p.bindings.valueOrZero name = q.bindings.valueOrZero name)) := by
  induction steps generalizing number p q with
  | nil => exact ⟨none, p, q, rfl, rfl, h, fun _ => by simp⟩
  | cons s rest ih =>
    obtain ⟨hs, hrest⟩ := List.forall_mem_cons.mp hunread
    have hstep := h.runFrom_eval limit hs
    rcases hp : runFrom p.memo (s.operation.eval (p.scopeFor limit s)) with ⟨halt | value, memo⟩
    · rw [hp] at hstep
      rw [runSteps_of_error hp, runSteps_of_error hstep.symm]
      exact ⟨some halt, _, _, rfl, rfl, ⟨h.bindings, rfl, h.entries⟩, nofun⟩
    · rw [hp] at hstep
      rw [runSteps_of_ok hp, runSteps_of_ok hstep.symm]
      obtain ⟨halt, p', q', hp', hq', hsame, hname⟩ :=
        ih (h.advance hs number value memo) (number + 1) hrest
      refine ⟨halt, p', q', hp', hq', hsame, fun hnone => ?_⟩
      rw [hname hnone, Progress.advance, Progress.advance, Bindings.valueOrZero_bind_eq_iff,
        List.exists_mem_cons_iff, or_left_comm, or_assoc]

end Progress

structure Evaluation.SameBut (name : String) (e e' : Evaluation) : Prop where
  result : e.result = e'.result
  trace : e.trace = e'.trace
  error : e.error = e'.error
  bindings : e.bindings.SameBut name e'.bindings

theorem Progress.SameBut.ofProgress {name : String} {p q : Progress} (h : p.SameBut name q)
    (result : Decimal) (error : Option PayError) :
    (Evaluation.ofProgress p result error).SameBut name (.ofProgress q result error) := by
  refine ⟨rfl, ?_, rfl, h.bindings⟩
  unfold Evaluation.ofProgress
  dsimp only
  rw [h.memo, h.entries]

/-- A formula that neither refers to a name nor answers with it evaluates to the same whatever the
name is bound to. -/
theorem Formula.exists_evaluate_sameBut {f : Formula} {name : String} (settings : FormulaSettings)
    (hunread : ∀ s ∈ f.steps, name ∉ s.operation.references) (houtput : f.output ≠ name)
    {b c : Bindings} (h : b.SameBut name c) :
    ∃ e e', f.evaluate settings b = .ok e ∧ f.evaluate settings c = .ok e' ∧ e.SameBut name e' ∧
      (e.error = none → (e.valueOrZero name = e'.valueOrZero name ↔
        (∃ s ∈ f.steps, s.result = name) ∨ b.valueOrZero name = c.valueOrZero name)) := by
  have hstart : Progress.SameBut name { bindings := b } { bindings := c } := ⟨h, rfl, rfl⟩
  obtain ⟨halt, p, q, hp, hq, hsame, hname⟩ :=
    hstart.runSteps settings.maxNestingDepth 1 hunread
  obtain ⟨e, he⟩ := f.exists_evaluate settings b
  unfold evaluate at he ⊢
  rw [hp] at he ⊢
  rw [hq]
  rcases halt with _ | cause | cause
  · have hresult := hsame.bindings f.output houtput
    dsimp only
    rw [← hresult]
    cases p.bindings.get? f.output with
    | none => exact ⟨_, _, rfl, rfl, hsame.ofProgress _ _, nofun⟩
    | some result => exact ⟨_, _, rfl, rfl, hsame.ofProgress _ _, fun _ => hname rfl⟩
  · exact ⟨_, _, rfl, rfl, hsame.ofProgress _ _, nofun⟩
  · cases he

end Payroll
