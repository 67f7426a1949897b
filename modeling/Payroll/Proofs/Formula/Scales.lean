import Payroll.Proofs.Formula.Transparency

/-!
# Evaluation sees values only

Two evaluations of a formula, from the same names bound to equal values, go through the same keys:
a key spells values in their shortest form. So both find the same operators in the memo, whatever is
found is of equal value, and both end alike.
-/

set_option autoImplicit false

namespace Payroll

open Decimal Memoised

theorem keyTree_of_matches {s t : Scope} (hst : s.Matches t) (op : Operator)
    (ps : List Parameter) : keyTree s op ps = keyTree t op ps := by
  refine keyTree_congr (checkDepth_of_matches hst) op fun name _ => ?_
  have h := hst.resolve name
  cases hs : s.resolve name with
  | error cause => rw [eq_error_of_map_eq h hs]
  | ok v =>
    obtain ⟨w, ht, hw⟩ := exists_ok_of_map_eq h hs
    rw [ht]
    exact congrArg Except.ok (Key.reference_congr name hw.symm)

def Memo.Matches (m n : Memo) : Prop :=
  ∀ key, (m.find? key).map value = (n.find? key).map value

theorem Memo.Matches.remember {m n : Memo} (h : m.Matches n) (key : Option String)
    {v w : Decimal} (hvw : v.value = w.value) :
    (m.remember key v).Matches (n.remember key w) := by
  intro other
  cases key with
  | none => exact h other
  | some key =>
    cases other with
    | none => rfl
    | some other =>
      simp only [Memo.remember, Memo.find?, Option.bind_some, List.lookup_cons]
      split
      · exact congrArg some hvw
      · exact h (some other)

namespace Memoised

section
variable {α β γ : Type} {f : α → γ} {c d : Memoised α}

/-- From memos that match, two computations answer what agrees under `f`, and leave memos that
match. -/
def Agree (f : α → γ) (c d : Memoised α) : Prop :=
  ∀ m n, m.Matches n → (runFrom m c).1.map f = (runFrom n d).1.map f ∧
    (runFrom m c).2.Matches (runFrom n d).2

theorem agree_pure {a b : α} (h : f a = f b) : Agree f (pure a) (pure b) := by
  intro m n hmn
  exact ⟨congrArg Except.ok h, hmn⟩

theorem agree_ofError {x y : Except PayError α}
    (h : (Halt.ofError x).map f = (Halt.ofError y).map f) : Agree f (ofError x) (ofError y) := by
  intro m n hmn
  rw [runFrom_ofError, runFrom_ofError]
  exact ⟨h, hmn⟩

theorem Agree.cases (h : Agree f c d) {m n : Memo} (hmn : m.Matches n) :
    (∃ halt m' n', runFrom m c = (.error halt, m') ∧ runFrom n d = (.error halt, n') ∧
        m'.Matches n') ∨
      ∃ a b m' n', runFrom m c = (.ok a, m') ∧ runFrom n d = (.ok b, n') ∧ f a = f b ∧
        m'.Matches n' := by
  obtain ⟨hanswer, hmemo⟩ := h m n hmn
  rcases hc : runFrom m c with ⟨halt | a, m'⟩
  · rw [hc] at hanswer hmemo
    have hd := eq_error_of_map_eq hanswer rfl
    exact .inl ⟨halt, m', (runFrom n d).2, rfl, Prod.ext hd rfl, hmemo⟩
  · rw [hc] at hanswer hmemo
    obtain ⟨b, hd, hab⟩ := exists_ok_of_map_eq hanswer rfl
    exact .inr ⟨a, b, m', (runFrom n d).2, rfl, Prod.ext hd rfl, hab.symm, hmemo⟩

theorem Agree.bind {δ : Type} {g : β → δ} {k l : α → Memoised β} (h : Agree f c d)
    (hk : ∀ a b, f a = f b → Agree g (k a) (l b)) : Agree g (c >>= k) (d >>= l) := by
  intro m n hmn
  rcases h.cases hmn with ⟨halt, m', n', hc, hd, hmemo⟩ | ⟨a, b, m', n', hc, hd, hab, hmemo⟩
  · rw [runFrom_bind_of_error hc, runFrom_bind_of_error hd]
    exact ⟨rfl, hmemo⟩
  · rw [runFrom_bind_of_ok hc, runFrom_bind_of_ok hd]
    exact hk a b hab m' n' hmemo

end

/-- The step lemma: one key finds equal values, and parameters of equal values are applied alike. -/
theorem agree_applied (stepId : String) (op : Operator) (count : ℕ) (key : Option String)
    {vs ws : Memoised (List Decimal)} (h : Agree (List.map value) vs ws) :
    Agree value (applied stepId op count key vs) (applied stepId op count key ws) := by
  intro m n hmn
  rcases hcount : op.checkCount count with cause | _
  · rw [runFrom_applied_of_count hcount, runFrom_applied_of_count hcount]
    exact ⟨rfl, hmn⟩
  have hfound := hmn key
  cases hm : m.find? key with
  | some v =>
    rw [hm] at hfound
    obtain ⟨w, hn, hvalue⟩ := Option.map_eq_some_iff.mp hfound.symm
    rw [runFrom_applied_of_hit hcount hm, runFrom_applied_of_hit hcount hn]
    exact ⟨congrArg Except.ok hvalue.symm, hmn⟩
  | none =>
    rw [hm] at hfound
    have hn := Option.map_eq_none_iff.mp hfound.symm
    rw [runFrom_applied_of_miss hcount hm, runFrom_applied_of_miss hcount hn]
    rcases h.cases hmn with
      ⟨halt, m', n', hvs, hws, hmemo⟩ | ⟨values, values', m', n', hvs, hws, hvalues, hmemo⟩
    · rw [hvs, hws]
      exact ⟨rfl, hmemo⟩
    · have happly := Operator.map_applyTo_congr op stepId (Operator.sameValues_iff.mpr hvalues)
      rw [hvs, hws]
      dsimp only
      cases hv : op.applyTo stepId values with
      | error halt =>
        rw [eq_error_of_map_eq happly hv]
        exact ⟨rfl, hmemo⟩
      | ok v =>
        obtain ⟨w, hw, hvalue⟩ := exists_ok_of_map_eq happly hv
        rw [hw]
        exact ⟨congrArg Except.ok hvalue.symm, hmemo.remember key hvalue.symm⟩

end Memoised

section
variable {s t : Scope}

mutual
theorem Operation.agree_eval (hst : s.Matches t) : (o : Operation) →
    Agree value (o.eval s) (o.eval t)
  | .literal _ => by
    rw [Operation.eval, Operation.eval]
    exact agree_pure rfl
  | .reference name => by
    rw [Operation.eval, Operation.eval]
    exact agree_ofError (map_value_reference_of_matches hst name)
  | .apply op ps => by
    rw [Operation.eval, Operation.eval, keyTree_of_matches hst, hst.stepId]
    -- The trees are the same, not only their values.
    apply (agree_ofError rfl : Agree id _ _).bind
    rintro tree _ rfl
    exact agree_applied _ _ _ _ (agree_evalAll hst ps tree.nested)
theorem Parameter.agree_eval (hst : s.Matches t) : (p : Parameter) → (keys : Option KeyTree) →
    Agree value (p.eval s keys) (p.eval t keys)
  | .literal _ => fun keys => by
    rw [Parameter.eval, Parameter.eval]
    exact agree_pure rfl
  | .reference name => fun keys => by
    rw [Parameter.eval, Parameter.eval]
    exact agree_ofError (map_value_reference_of_matches hst name)
  | .step heading (.literal v) => fun keys => by
    rw [eval_step_literal, eval_step_literal]
    exact agree_pure rfl
  | .step heading (.reference name) => fun keys => by
    rw [eval_step_reference, eval_step_reference]
    exact agree_ofError (map_value_reference_of_matches hst name)
  | .step heading (.apply op ps) => fun keys => by
    cases keys with
    | none =>
      rw [Parameter.eval, Parameter.eval]
      · exact (Operation.apply op ps).agree_eval hst
      all_goals nofun
    | some tree =>
      rw [Parameter.eval, Parameter.eval, hst.stepId]
      exact agree_applied _ _ _ _ (agree_evalAll hst ps tree.nested)
theorem agree_evalAll (hst : s.Matches t) : (ps : List Parameter) →
    (keys : List (Option KeyTree)) → Agree (List.map value) (evalAll s ps keys) (evalAll t ps keys)
  | [] => fun keys => by
    rw [evalAll_nil, evalAll_nil]
    exact agree_pure rfl
  | p :: rest => fun keys => by
    cases keys with
    | nil =>
      rw [evalAll, evalAll]
      · exact agree_pure rfl
      all_goals nofun
    | cons key more =>
      rw [evalAll, evalAll]
      apply (p.agree_eval hst key).bind
      intro v w hvw
      apply (agree_evalAll hst rest more).bind
      intro vs ws hvalues
      exact agree_pure (congrArg₂ List.cons hvw hvalues)
end

end

structure Progress.Matches (p q : Progress) : Prop where
  bindings : p.bindings.Matches q.bindings
  memo : p.memo.Matches q.memo

/-- The run lemma: two runs of the same steps end alike. -/
theorem Progress.runSteps_congr (limit number : ℕ) (steps : List Step) {p q : Progress}
    (hpq : p.Matches q) :
    (runSteps limit number p steps).1 = (runSteps limit number q steps).1 ∧
      (runSteps limit number p steps).2.Matches (runSteps limit number q steps).2 := by
  induction steps generalizing number p q with
  | nil => exact ⟨rfl, hpq⟩
  | cons s rest ih =>
    have hscope : (p.scopeFor limit s).Matches (q.scopeFor limit s) :=
      hpq.bindings.scope s.id limit
    rcases (s.operation.agree_eval hscope).cases hpq.memo with
      ⟨halt, m, n, hp, hq, hmemo⟩ | ⟨v, w, m, n, hp, hq, hvw, hmemo⟩
    · rw [runSteps_of_error hp, runSteps_of_error hq]
      exact ⟨rfl, hpq.bindings, hmemo⟩
    · rw [runSteps_of_ok hp, runSteps_of_ok hq]
      apply ih (number + 1)
      exact ⟨hpq.bindings.bind s.result hvw, hmemo⟩

/-- Two evaluations succeed with equal values or fail with one error, and leave the same names bound
to equal values. -/
structure Evaluation.Matches (e e' : Evaluation) : Prop where
  result : e.result.value = e'.result.value
  bindings : e.bindings.Matches e'.bindings
  error : e.error = e'.error

theorem Formula.evaluate_congr (settings : FormulaSettings) (f : Formula) {b c : Bindings}
    (hbc : b.Matches c) {e e' : Evaluation} (he : f.evaluate settings b = .ok e)
    (he' : f.evaluate settings c = .ok e') : e.Matches e' := by
  have hstart : Progress.Matches { bindings := b } { bindings := c } := ⟨hbc, fun _ => rfl⟩
  obtain ⟨hhalt, hend⟩ := Progress.runSteps_congr settings.maxNestingDepth 1 f.steps hstart
  unfold evaluate at he he'
  rcases hp : Progress.runSteps settings.maxNestingDepth 1 { bindings := b } f.steps
    with ⟨halt, p⟩
  rcases hq : Progress.runSteps settings.maxNestingDepth 1 { bindings := c } f.steps
    with ⟨halt', q⟩
  rw [hp] at hhalt hend he
  rw [hq] at hhalt hend he'
  obtain rfl : halt = halt' := hhalt
  rcases halt with _ | cause | cause
  · have houtput := hend.bindings f.output
    dsimp only at he he' houtput
    cases hresult : p.bindings.get? f.output with
    | none =>
      rw [hresult] at he houtput
      rw [Option.map_eq_none_iff.mp houtput.symm] at he'
      cases he
      cases he'
      exact ⟨rfl, hend.bindings, rfl⟩
    | some v =>
      rw [hresult] at he houtput
      obtain ⟨w, hw, hvalue⟩ := Option.map_eq_some_iff.mp houtput.symm
      rw [hw] at he'
      cases he
      cases he'
      exact ⟨hvalue.symm, hend.bindings, rfl⟩
  · cases he
    cases he'
    exact ⟨rfl, hend.bindings, rfl⟩
  · cases he

end Payroll
