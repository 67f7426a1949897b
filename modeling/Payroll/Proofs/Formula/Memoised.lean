import Mathlib.Data.Nat.Notation
import Payroll.Formula.Evaluation
import Payroll.Proofs.Outcome

/-!
# Computations with a memo

Rules for what a computation answers and what it leaves in its memo, one for each way to build one,
and then for the steps of a run.
-/

set_option autoImplicit false

namespace Payroll

namespace Memo

def hit (m : Memo) : Memo := { m with hits := m.hits + 1 }

end Memo

namespace Memoised

variable {α β : Type}

/-- What a computation answers from a memo, and the memo that it leaves. -/
def runFrom (m : Memo) (c : Memoised α) : Except Halt α × Memo := c.run.run m

theorem runFrom_ofError (m : Memo) (x : Except PayError α) :
    runFrom m (ofError x) = (Halt.ofError x, m) := by
  cases x <;> rfl

theorem runFrom_ofError_of_ok (m : Memo) {x : Except PayError α} {a : α} (h : x = .ok a) :
    runFrom m (ofError x) = (.ok a, m) := by
  rw [runFrom_ofError, h]
  rfl

theorem runFrom_bind_of_error {m m' : Memo} {c : Memoised α} {h : Halt}
    (hc : runFrom m c = (.error h, m')) (k : α → Memoised β) :
    runFrom m (c >>= k) = (.error h, m') := by
  unfold runFrom at hc ⊢
  rw [ExceptT.run_bind, StateT.run_bind, hc]
  rfl

theorem runFrom_bind_of_ok {m m' : Memo} {c : Memoised α} {a : α}
    (hc : runFrom m c = (.ok a, m')) (k : α → Memoised β) :
    runFrom m (c >>= k) = runFrom m' (k a) := by
  unfold runFrom at hc ⊢
  rw [ExceptT.run_bind, StateT.run_bind, hc]
  rfl

/-- From a memo with `I`, a computation answers with `Q` and leaves a memo with `I`. -/
def Ensures (I : Memo → Prop) (c : Memoised α) (Q : Except Halt α → Prop) : Prop :=
  ∀ m, I m → Q (runFrom m c).1 ∧ I (runFrom m c).2

variable {I : Memo → Prop} {Q : Except Halt α → Prop}

theorem ensures_pure {a : α} (h : Q (.ok a)) : Ensures I (pure a) Q :=
  fun _ hm => ⟨h, hm⟩

theorem ensures_ofError {x : Except PayError α} (h : Q (Halt.ofError x)) :
    Ensures I (ofError x) Q := by
  intro m hm
  rw [runFrom_ofError]
  exact ⟨h, hm⟩

theorem Ensures.bind {R : Except Halt β → Prop} {c : Memoised β} {k : β → Memoised α}
    (hc : Ensures I c R) (herror : ∀ h, R (.error h) → Q (.error h))
    (hk : ∀ b, R (.ok b) → Ensures I (k b) Q) : Ensures I (c >>= k) Q := by
  intro m hm
  obtain ⟨hR, hI⟩ := hc m hm
  rcases hrun : runFrom m c with ⟨h | b, m'⟩
  · rw [hrun] at hR hI
    rw [runFrom_bind_of_error hrun]
    exact ⟨herror h hR, hI⟩
  · rw [hrun] at hR hI
    rw [runFrom_bind_of_ok hrun]
    exact hk b hR m' hI

/-- Computations are the same if they are so for every answer that the first one can give. -/
theorem bind_congr_of_ensures {R : Except Halt β → Prop} {c : Memoised β} {k l : β → Memoised α}
    (hc : Ensures (fun _ => True) c R) (h : ∀ b, R (.ok b) → k b = l b) : c >>= k = c >>= l := by
  funext m
  show runFrom m (c >>= k) = runFrom m (c >>= l)
  obtain ⟨hR, -⟩ := hc m trivial
  rcases hrun : runFrom m c with ⟨e | b, m'⟩
  · rw [runFrom_bind_of_error hrun, runFrom_bind_of_error hrun]
  · rw [hrun] at hR
    rw [runFrom_bind_of_ok hrun, runFrom_bind_of_ok hrun, h b hR]

section applied
variable {Q : Except Halt Decimal → Prop} {R : Except Halt (List Decimal) → Prop}
variable {stepId : String} {op : Operator} {count : ℕ} {key : Option String}
variable {values : Memoised (List Decimal)}

theorem runFrom_get_bind (m : Memo) (k : Memo → Memoised α) :
    runFrom m (get >>= k) = runFrom m (k m) :=
  runFrom_bind_of_ok (c := get) rfl k

theorem runFrom_applied_of_count {e : PayError} (h : op.checkCount count = .error e) (m : Memo) :
    runFrom m (applied stepId op count key values) = (.error (.error e), m) := by
  unfold applied
  exact runFrom_bind_of_error (by rw [runFrom_ofError, h]; rfl) _

theorem runFrom_applied_of_hit {m : Memo} {v : Decimal} (h : op.checkCount count = .ok ())
    (hfind : m.find? key = some v) :
    runFrom m (applied stepId op count key values) = (.ok v, m.hit) := by
  unfold applied
  rw [runFrom_bind_of_ok (runFrom_ofError_of_ok m h), runFrom_get_bind, hfind]
  rfl

theorem runFrom_applied_of_miss {m : Memo} (h : op.checkCount count = .ok ())
    (hfind : m.find? key = none) :
    runFrom m (applied stepId op count key values) =
      match runFrom m values with
      | (.error h, m') => (.error h, m')
      | (.ok vs, m') =>
        match op.applyTo stepId vs with
        | .error h => (.error h, m')
        | .ok v => (.ok v, m'.remember key v) := by
  unfold applied
  rw [runFrom_bind_of_ok (runFrom_ofError_of_ok m h), runFrom_get_bind, hfind]
  rcases hrun : runFrom m values with ⟨e | vs, m'⟩
  · exact runFrom_bind_of_error hrun _
  · dsimp only
    rw [runFrom_bind_of_ok hrun]
    cases happly : op.applyTo stepId vs with
    | error e =>
      exact runFrom_bind_of_error (show runFrom m' (throw e) = (.error e, m') from rfl) _
    | ok v =>
      exact runFrom_bind_of_ok (show runFrom m' (pure v) = (.ok v, m') from rfl) _

/-- The values of the parameters matter only after a miss, and only if there are enough of them. -/
theorem ensures_applied
    (hcount : ∀ e, op.checkCount count = .error e → Q (.error (.error e)))
    (hhit : op.checkCount count = .ok () →
      ∀ m v, I m → m.find? key = some v → Q (.ok v) ∧ I m.hit)
    (hvalues : op.checkCount count = .ok () → Ensures I values R)
    (herror : ∀ h, op.checkCount count = .ok () → R (.error h) → Q (.error h))
    (hfail : ∀ vs h, op.checkCount count = .ok () → R (.ok vs) → op.applyTo stepId vs = .error h →
      Q (.error h))
    (hok : ∀ vs v, op.checkCount count = .ok () → R (.ok vs) → op.applyTo stepId vs = .ok v →
      Q (.ok v) ∧ ∀ m, I m → I (m.remember key v)) :
    Ensures I (applied stepId op count key values) Q := by
  intro m hm
  rcases hcheck : op.checkCount count with e | _
  · rw [runFrom_applied_of_count hcheck]
    exact ⟨hcount e hcheck, hm⟩
  · cases hfind : m.find? key with
    | some v =>
      rw [runFrom_applied_of_hit hcheck hfind]
      exact hhit hcheck m v hm hfind
    | none =>
      obtain ⟨hR, hI⟩ := hvalues hcheck m hm
      rw [runFrom_applied_of_miss hcheck hfind]
      rcases hrun : runFrom m values with ⟨h | vs, m'⟩
      · rw [hrun] at hR hI
        exact ⟨herror h hcheck hR, hI⟩
      · rw [hrun] at hR hI
        dsimp only
        cases happly : op.applyTo stepId vs with
        | error h => exact ⟨hfail vs h hcheck hR happly, hI⟩
        | ok v =>
          obtain ⟨hQ, hremember⟩ := hok vs v hcheck hR happly
          exact ⟨hQ, hremember m' hI⟩

end applied

end Memoised

theorem eval_step_literal (scope : Scope) (heading : Heading) (value : Decimal)
    (keys : Option KeyTree) :
    (Parameter.step heading (.literal value)).eval scope keys = pure value := by
  rw [Parameter.eval, Operation.eval]
  intros
  contradiction

theorem eval_step_reference (scope : Scope) (heading : Heading) (name : String)
    (keys : Option KeyTree) :
    (Parameter.step heading (.reference name)).eval scope keys =
      Memoised.ofError (scope.resolve name) := by
  rw [Parameter.eval, Operation.eval]
  intros
  contradiction

theorem evalAll_nil (scope : Scope) (keys : List (Option KeyTree)) :
    evalAll scope [] keys = pure [] := by
  rw [evalAll]
  intros
  contradiction

namespace Progress

variable {limit number : ℕ} {p : Progress} {s : Step} {rest : List Step} {memo : Memo}

def scopeFor (p : Progress) (limit : ℕ) (s : Step) : Scope :=
  { bindings := p.bindings, stepId := s.id, limit }

def advance (p : Progress) (number : ℕ) (s : Step) (value : Decimal) (memo : Memo) : Progress :=
  { bindings := p.bindings.bind s.result value, memo
    entries :=
      { number, stepId := s.id, stepName := s.name
        inputs := Trace.inputsOf p.bindings s.operation
        result := value, target := s.result } :: p.entries }

theorem get?_result_advance (p : Progress) (number : ℕ) (s : Step) (value : Decimal)
    (memo : Memo) : (p.advance number s value memo).bindings.get? s.result = some value := by
  unfold advance
  dsimp only
  rw [Bindings.get?_bind, if_pos rfl]

theorem runSteps_of_error {h : Halt}
    (hrun : Memoised.runFrom p.memo (s.operation.eval (p.scopeFor limit s)) = (.error h, memo)) :
    runSteps limit number p (s :: rest) = (some h, { p with memo }) := by
  unfold Memoised.runFrom scopeFor at hrun
  rw [runSteps, hrun]

theorem runSteps_of_ok {value : Decimal}
    (hrun : Memoised.runFrom p.memo (s.operation.eval (p.scopeFor limit s)) = (.ok value, memo)) :
    runSteps limit number p (s :: rest) =
      runSteps limit (number + 1) (p.advance number s value memo) rest := by
  unfold Memoised.runFrom scopeFor at hrun
  rw [runSteps, hrun]
  rfl

end Progress

end Payroll
