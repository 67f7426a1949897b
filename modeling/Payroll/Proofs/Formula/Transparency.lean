import Payroll.Proofs.Formula.Meaning
import Payroll.Proofs.Formula.Memoised
import Payroll.Proofs.Formula.Spelling

/-!
# When a memo cannot be seen

Evaluation with a memo agrees with direct evaluation if no two operators that share a key have
different values. The invariant of a run is that every value in the memo is the value of an operator
with its key. Conversely, from two operators that share a key and differ one can build a formula
that tells the evaluations apart.
-/

set_option autoImplicit false

namespace Payroll

open Decimal Memoised

/-- Operations, with every operation that is nested in one of them. -/
structure Vocabulary where
  Has : Operation → Prop
  literal : ∀ value, Has (.literal value)
  nested : ∀ {op parameters heading o}, Has (.apply op parameters) →
    Parameter.step heading o ∈ parameters → Has o

def Scope.Spells (s : Scope) (key : String) (op : Operator) (ps : List Parameter) : Prop :=
  ∃ tree, keyTree s op ps = .ok tree ∧ tree.key = some key

namespace Vocabulary

/-- Operators that share a key share a value: where one has a value, and the other is supported and
has as many parameters as it takes, the other has an equal value. -/
def Faithful (V : Vocabulary) : Prop :=
  ∀ {key : String} {s t : Scope} {op op' : Operator} {ps ps' : List Parameter} {v : Decimal},
    V.Has (.apply op ps) → s.Spells key op ps → V.Has (.apply op' ps') → t.Spells key op' ps' →
      op'.checkCount ps'.length = .ok () → (Operation.apply op ps).value s = .ok v →
        ∃ w, (Operation.apply op' ps').value t = .ok w ∧ w.value = v.value

/-- Every value in the memo is the value of an operator with its key. -/
def Recalls (V : Vocabulary) (m : Memo) : Prop :=
  ∀ key v, m.find? (some key) = some v →
    ∃ s op ps w, V.Has (.apply op ps) ∧ s.Spells key op ps ∧
      (Operation.apply op ps).value s = .ok w ∧ w.value = v.value

variable {V : Vocabulary}

theorem recalls_empty : V.Recalls {} := by
  intro key v h
  cases h

theorem Recalls.remember {m : Memo} (hm : V.Recalls m) {s : Scope} {op : Operator}
    {ps : List Parameter} {key : Option String} {v w : Decimal} (hhas : V.Has (.apply op ps))
    (hkey : ∀ k, key = some k → s.Spells k op ps) (hw : (Operation.apply op ps).value s = .ok w)
    (hvalue : w.value = v.value) : V.Recalls (m.remember key v) := by
  cases key with
  | none => exact hm
  | some k =>
    intro key' v' h
    unfold Memo.remember Memo.find? at h
    dsimp only at h
    rw [Option.bind_some, List.lookup_cons] at h
    split at h
    · next hk =>
      cases h
      rw [beq_iff_eq.mp hk]
      exact ⟨s, op, ps, w, hhas, hkey k rfl, hw, hvalue⟩
    · exact hm key' v' h

section
variable {s : Scope}

theorem value_of_checkCount {op : Operator} {ps : List Parameter}
    (hcount : op.checkCount ps.length = .ok ()) :
    (Operation.apply op ps).value s = valuesOf s ps >>= op.applyTo s.stepId := by
  rw [Operation.value, hcount]
  rfl

theorem exists_valuesOf_of_map_eq {op : Operator} {ps : List Parameter} {vs : List Decimal}
    (h : (Except.ok vs).map (List.map value) = (valuesOf s ps).map (List.map value)) :
    ∃ ws, valuesOf s ps = .ok ws ∧
      (op.applyTo s.stepId vs).map value = (op.applyTo s.stepId ws).map value := by
  obtain ⟨ws, hws, hsame⟩ := exists_ok_of_map_eq h rfl
  exact ⟨ws, hws, Operator.map_applyTo_congr op s.stepId (Operator.sameValues_iff.mpr hsame.symm)⟩

theorem Recalls.exists_value (hV : V.Faithful) {m : Memo} (hm : V.Recalls m) {op : Operator}
    {ps : List Parameter} {key : Option String} {v : Decimal} (hhas : V.Has (.apply op ps))
    (hkey : ∀ k, key = some k → s.Spells k op ps) (hcount : op.checkCount ps.length = .ok ())
    (hfind : m.find? key = some v) :
    ∃ w, (Operation.apply op ps).value s = .ok w ∧ w.value = v.value := by
  cases key with
  | none => cases hfind
  | some k =>
    obtain ⟨s', op', ps', w, hhas', hspells', hw, hvalue⟩ := hm k v hfind
    obtain ⟨w', hw', hvalue'⟩ := hV hhas' hspells' hhas (hkey k rfl) hcount hw
    exact ⟨w', hw', hvalue'.trans hvalue⟩

/-- The step lemma: an operator over parameters that agree agrees, found or not. -/
theorem ensures_applied_value (hV : V.Faithful) {depth : ℕ} {op : Operator} {ps : List Parameter}
    {parts : List (Option String × Option KeyTree)} {values : Memoised (List Decimal)}
    (hhas : V.Has (.apply op ps)) (hparts : keyParts s depth ps = .ok parts)
    (hvalues : Ensures V.Recalls values
      fun out => out.map (List.map value) = (valuesOf s ps).map (List.map value)) :
    Ensures V.Recalls (applied s.stepId op ps.length (KeyTree.ofParts op parts).key values)
      fun out => out.map value = ((Operation.apply op ps).value s).map value := by
  have hspells (k : String) (hk : (KeyTree.ofParts op parts).key = some k) : s.Spells k op ps :=
    ⟨_, keyTree_of_keyParts hparts, hk⟩
  refine ensures_applied
    (R := fun out => out.map (List.map value) = (valuesOf s ps).map (List.map value))
    ?_ ?_ (fun _ => hvalues) ?_ ?_ ?_
  · intro e he
    rw [Operation.value, he]
    rfl
  · intro hcount m v hm hfind
    obtain ⟨w, hw, hvalue⟩ := hm.exists_value hV hhas hspells hcount hfind
    rw [hw]
    exact ⟨congrArg Except.ok hvalue.symm, hm⟩
  · intro h hcount hR
    rw [value_of_checkCount hcount, eq_error_of_map_eq hR rfl]
    rfl
  · intro vs h hcount hR happly
    obtain ⟨ws, hws, happly'⟩ := exists_valuesOf_of_map_eq hR
    rw [value_of_checkCount hcount, hws]
    exact (congrArg _ happly).symm.trans happly'
  · intro vs v hcount hR happly
    obtain ⟨ws, hws, happly'⟩ := exists_valuesOf_of_map_eq hR
    obtain ⟨w, hw, hvalue⟩ := exists_ok_of_map_eq happly' happly
    have hmeans : (Operation.apply op ps).value s = .ok w := by
      rw [value_of_checkCount hcount, hws]
      exact hw
    refine ⟨?_, fun m hm => hm.remember hhas hspells hmeans hvalue⟩
    rw [hmeans]
    exact congrArg Except.ok hvalue.symm

mutual
theorem ensures_value (hV : V.Faithful) {depth : ℕ} {part : Option String × Option KeyTree} :
    (p : Parameter) → (∀ heading o, p = .step heading o → V.Has o) →
      p.keyPart s depth = .ok part →
      Ensures V.Recalls (p.eval s part.2) fun out => out.map value = (p.value s).map value
  | .literal _ => fun _ _ => by
    rw [Parameter.eval, Parameter.value]
    exact ensures_pure rfl
  | .reference _ => fun _ _ => by
    rw [Parameter.eval, Parameter.value]
    exact ensures_ofError rfl
  | .step _ (.literal _) => fun _ _ => by
    rw [eval_step_literal, Parameter.value, Operation.value]
    exact ensures_pure rfl
  | .step _ (.reference _) => fun _ _ => by
    rw [eval_step_reference, Parameter.value, Operation.value]
    exact ensures_ofError rfl
  | .step heading (.apply op ps) => fun hhas hpart => by
    obtain ⟨parts, -, hparts, rfl⟩ := keyPart_step_apply_eq_ok hpart
    have hop := hhas heading (.apply op ps) rfl
    rw [Parameter.eval, Parameter.value]
    exact ensures_applied_value hV hop hparts
      (ensures_values hV ps (fun _ _ hmem => V.nested hop hmem) hparts)
theorem ensures_values (hV : V.Faithful) {depth : ℕ}
    {parts : List (Option String × Option KeyTree)} :
    (ps : List Parameter) → (∀ heading o, .step heading o ∈ ps → V.Has o) →
      keyParts s depth ps = .ok parts →
      Ensures V.Recalls (evalAll s ps (parts.map Prod.snd))
        fun out => out.map (List.map value) = (valuesOf s ps).map (List.map value)
  | [] => fun _ _ => by
    rw [evalAll_nil]
    exact ensures_pure rfl
  | p :: rest => fun hhas hparts => by
    obtain ⟨part, parts', hpart, hparts', rfl⟩ := keyParts_cons_eq_ok hparts
    rw [List.map_cons, evalAll, valuesOf]
    refine (ensures_value hV p (fun heading o hp => hhas heading o (hp ▸ List.mem_cons_self))
      hpart).bind (fun h hh => ?_) fun v hv => ?_
    · rw [eq_error_of_map_eq hh rfl]
      rfl
    obtain ⟨w, hw, hvw⟩ := exists_ok_of_map_eq hv rfl
    rw [hw]
    have hhas' := fun heading o hmem => hhas heading o (List.mem_cons_of_mem _ hmem)
    refine (ensures_values hV rest hhas' hparts').bind (fun h hh => ?_) fun vs hvs => ?_
    · rw [eq_error_of_map_eq hh rfl]
      rfl
    obtain ⟨ws, hws, hsame⟩ := exists_ok_of_map_eq hvs rfl
    rw [hws]
    exact ensures_pure (congrArg Except.ok (congrArg₂ List.cons hvw.symm hsame.symm))
end

theorem ensures_step (hV : V.Faithful) {o : Operation} (hhas : V.Has o) :
    Ensures V.Recalls (o.eval s)
      fun out => out.map value = (do Halt.ofError (o.check s 0); o.value s).map value := by
  cases o with
  | literal v =>
    rw [Operation.eval]
    exact ensures_pure rfl
  | reference name =>
    rw [Operation.eval]
    refine ensures_ofError ?_
    rw [Operation.check, Operation.value]
    cases s.resolve name <;> rfl
  | apply op ps =>
    rw [Operation.eval]
    cases htree : keyTree s op ps with
    | error e =>
      have hcheck : (Operation.apply op ps).check s 0 = .error e := by
        rw [← map_keyTree, htree]
        rfl
      intro m hm
      rw [hcheck]
      exact ⟨rfl, hm⟩
    | ok tree =>
      have hcheck : (Operation.apply op ps).check s 0 = .ok () := by
        rw [← map_keyTree, htree]
        rfl
      obtain ⟨parts, hparts, rfl⟩ := keyTree_eq_ok htree
      rw [hcheck]
      exact ensures_applied_value hV hhas hparts
        (ensures_values hV ps (fun _ _ hmem => V.nested hhas hmem) hparts)

end

end Vocabulary

def Bindings.Matches (b c : Bindings) : Prop :=
  ∀ name, (b.get? name).map Decimal.value = (c.get? name).map Decimal.value

namespace Bindings

theorem Matches.bind {b c : Bindings} (h : b.Matches c) (name : String) {v w : Decimal}
    (hvw : v.value = w.value) : (b.bind name v).Matches (c.bind name w) := by
  intro other
  rw [get?_bind, get?_bind]
  split
  · exact congrArg some hvw
  · exact h other

theorem Matches.scope {b c : Bindings} (h : b.Matches c) (stepId : String) (limit : ℕ) :
    Scope.Matches { bindings := b, stepId, limit } { bindings := c, stepId, limit } := by
  refine ⟨rfl, rfl, fun name => ?_⟩
  have hname := h name
  unfold Scope.resolve resolve?
  dsimp only
  cases hb : b.get? name with
  | none =>
    rw [hb] at hname
    rw [Option.map_eq_none_iff.mp hname.symm]
  | some v =>
    rw [hb] at hname
    obtain ⟨w, hw, hvalue⟩ := Option.map_eq_some_iff.mp hname.symm
    rw [hw]
    exact congrArg Except.ok hvalue.symm

end Bindings

namespace Vocabulary

variable {V : Vocabulary}

/-- The run lemma: both ways of running steps end alike. -/
theorem runSteps_matches (hV : V.Faithful) (limit number : ℕ) {steps : List Step}
    (hhas : ∀ s ∈ steps, V.Has s.operation) {p : Progress} {b : Bindings}
    (hp : V.Recalls p.memo) (hb : p.bindings.Matches b) :
    (Progress.runSteps limit number p steps).1 = (Formula.runDirect limit b steps).1 ∧
      (Progress.runSteps limit number p steps).2.bindings.Matches
        (Formula.runDirect limit b steps).2 := by
  induction steps generalizing number p b with
  | nil => exact ⟨rfl, hb⟩
  | cons s rest ih =>
    obtain ⟨hs, hrest⟩ := List.forall_mem_cons.mp hhas
    have hscope := hb.scope s.id limit
    obtain ⟨hmeans, hmemo⟩ := ensures_step (s := p.scopeFor limit s) hV hs p.memo hp
    have hvalue : (runFrom p.memo (s.operation.eval (p.scopeFor limit s))).1.map value =
        (s.value limit b).map value := by
      refine hmeans.trans ?_
      unfold Step.value
      dsimp only
      rw [← Operation.check_of_matches hscope]
      exact map_bind_congr_right fun _ => Operation.map_value_of_matches hscope s.operation
    rcases hrun : runFrom p.memo (s.operation.eval (p.scopeFor limit s)) with ⟨h | v, memo⟩
    · rw [hrun] at hvalue
      rw [Progress.runSteps_of_error hrun, Formula.runDirect, eq_error_of_map_eq hvalue rfl]
      exact ⟨rfl, hb⟩
    · rw [hrun] at hvalue hmemo
      obtain ⟨w, hw, hvw⟩ := exists_ok_of_map_eq hvalue rfl
      rw [Progress.runSteps_of_ok hrun, Formula.runDirect, hw]
      exact ih (number + 1) hrest hmemo (hb.bind s.result hvw.symm)

end Vocabulary

namespace Formula

/-- An evaluation agrees with a direct one: it succeeds with an equal value, or fails with the same
error, and leaves the same names bound to equal values. -/
structure Agrees (e : Evaluation) (d : Except Halt Decimal × Bindings) : Prop where
  bindings : e.bindings.Matches d.2
  success : e.error = none → ∃ v, d.1 = .ok v ∧ v.value = e.result.value
  failure : ∀ cause, e.error = some cause → d.1 = .error (.error cause)

theorem unaborted_runDirect {limit : ℕ} {steps : List Step} {b : Bindings} {cause : Abort} :
    (runDirect limit b steps).1 ≠ some (.abort cause) := by
  induction steps generalizing b with
  | nil => exact nofun
  | cons s rest ih =>
    rw [runDirect]
    cases hvalue : s.value limit b with
    | ok v => exact ih
    | error h =>
      intro habort
      have hclean : Unaborted (s.value limit b) :=
        (Halt.unaborted_ofError _).bind fun _ _ => s.operation.unaborted_value
      exact hclean cause (hvalue.trans (congrArg _ (Option.some.inj habort)))

end Formula

namespace Vocabulary

/-- Every formula of the vocabulary evaluates as it would without a memo. -/
def Transparent (V : Vocabulary) : Prop :=
  ∀ f : Formula, (∀ s ∈ f.steps, V.Has s.operation) → ∀ (settings : FormulaSettings) (b : Bindings),
    ∃ e, f.evaluate settings b = .ok e ∧ Formula.Agrees e (f.direct settings.maxNestingDepth b)

variable {V : Vocabulary}

theorem Faithful.transparent (hV : V.Faithful) : V.Transparent := by
  intro f hhas settings b
  have hmatches : b.Matches b := fun _ => rfl
  obtain ⟨hhalt, hbindings⟩ :=
    runSteps_matches hV settings.maxNestingDepth 1 hhas (p := { bindings := b }) recalls_empty
      hmatches
  unfold Formula.evaluate Formula.direct
  rcases hrun : Progress.runSteps settings.maxNestingDepth 1 { bindings := b } f.steps
    with ⟨halt, p⟩
  rcases hdirect : Formula.runDirect settings.maxNestingDepth b f.steps with ⟨halt', b'⟩
  rw [hrun, hdirect] at hhalt hbindings
  obtain rfl : halt = halt' := hhalt
  change p.bindings.Matches b' at hbindings
  rcases halt with _ | cause | cause
  · have houtput := hbindings f.output
    cases hresult : p.bindings.get? f.output with
    | some v =>
      rw [hresult] at houtput
      obtain ⟨w, hw, hvalue⟩ := Option.map_eq_some_iff.mp houtput.symm
      dsimp only
      rw [hresult, hw]
      exact ⟨_, rfl, hbindings, fun _ => ⟨w, rfl, hvalue⟩, nofun⟩
    | none =>
      rw [hresult] at houtput
      dsimp only
      rw [hresult, Option.map_eq_none_iff.mp houtput.symm]
      refine ⟨_, rfl, hbindings, nofun, fun cause h => ?_⟩
      cases h
      rfl
  · refine ⟨_, rfl, hbindings, nofun, fun cause' h => ?_⟩
    cases h
    rfl
  · exact absurd (congrArg Prod.fst hdirect) Formula.unaborted_runDirect

end Vocabulary

namespace Memoised

theorem find?_of_miss {m m' : Memo} {stepId : String} {op : Operator} {count : ℕ} {key : String}
    {values : Memoised (List Decimal)} {v : Decimal} (hmiss : m.find? (some key) = none)
    (hrun : runFrom m (applied stepId op count (some key) values) = (.ok v, m')) :
    m'.find? (some key) = some v := by
  rcases hcount : op.checkCount count with e | _
  · rw [runFrom_applied_of_count hcount] at hrun
    cases hrun
  · rw [runFrom_applied_of_miss hcount hmiss] at hrun
    rcases hvalues : runFrom m values with ⟨e | vs, m₁⟩
    · rw [hvalues] at hrun
      cases hrun
    · rw [hvalues] at hrun
      dsimp only at hrun
      cases happly : op.applyTo stepId vs with
      | error h =>
        rw [happly] at hrun
        cases hrun
      | ok w =>
        rw [happly] at hrun
        cases hrun
        unfold Memo.remember Memo.find?
        dsimp only
        rw [Option.bind_some, List.lookup_cons_self]

end Memoised

def Scope.amountOf (t : Scope) (name : String) : Decimal := (t.bindings.resolve? name).getD .zero

namespace Formula

def rebinding (t : Scope) (names : List String) : List Step :=
  names.map fun name => { result := name, operation := .literal (t.amountOf name) }

def rebound (t : Scope) (names : List String) (b : Bindings) : Bindings :=
  b.bindAll (names.map fun name => (name, t.amountOf name))

theorem get?_rebound {t : Scope} {names : List String} {b : Bindings} {name : String}
    (h : b.get? name = some (t.amountOf name) ∨ name ∈ names) :
    (rebound t names b).get? name = some (t.amountOf name) := by
  induction names generalizing b with
  | nil =>
    rcases h with h | h
    · exact h
    · cases h
  | cons first rest ih =>
    refine ih ?_
    rw [Bindings.get?_bind]
    split
    · next hname =>
      subst hname
      exact .inl rfl
    · next hname =>
      rcases h with h | h
      · exact .inl h
      · exact .inr ((List.mem_cons.mp h).resolve_left hname)

section
variable {t u : Scope} {names : List String} {b : Bindings}

theorem amountOf_of_resolve {name : String} {v : Decimal} (h : t.resolve name = .ok v) :
    t.amountOf name = v := by
  unfold Scope.resolve at h
  unfold Scope.amountOf
  cases hresolve : t.bindings.resolve? name with
  | none =>
    rw [hresolve] at h
    cases h
  | some w =>
    rw [hresolve] at h
    cases h
    rfl

theorem resolve_rebound (hu : u.bindings = rebound t names b) {name : String} (h : name ∈ names) :
    u.resolve name = .ok (t.amountOf name) := by
  unfold Scope.resolve Bindings.resolve?
  rw [hu, get?_rebound (.inr h)]

theorem extends_rebound (hu : u.bindings = rebound t names b) : Scope.Extends names t u := by
  intro name hname v hv
  rw [resolve_rebound hu hname, amountOf_of_resolve hv]

theorem rebound_extends (hu : u.bindings = rebound t names b)
    (hnames : ∀ name ∈ names, ∃ v, t.resolve name = .ok v) : Scope.Extends names u t := by
  intro name hname v hv
  obtain ⟨w, hw⟩ := hnames name hname
  rw [resolve_rebound hu hname, amountOf_of_resolve hw] at hv
  cases hv
  exact hw

end

theorem runSteps_rebinding (limit number : ℕ) (p : Progress) (t : Scope) (names : List String) :
    ∃ p' number', p'.memo = p.memo ∧ p'.bindings = rebound t names p.bindings ∧
      ∀ rest, Progress.runSteps limit number p (rebinding t names ++ rest) =
        Progress.runSteps limit number' p' rest := by
  induction names generalizing number p with
  | nil => exact ⟨p, number, rfl, rfl, fun _ => rfl⟩
  | cons name rest ih =>
    let first : Step := { result := name, operation := .literal (t.amountOf name) }
    obtain ⟨p', number', hmemo, hbindings, hrest⟩ :=
      ih (number + 1) (p.advance number first (t.amountOf name) p.memo)
    refine ⟨p', number', hmemo, hbindings, fun more => ?_⟩
    have hrun : Memoised.runFrom p.memo (first.operation.eval (p.scopeFor limit first)) =
        (.ok (t.amountOf name), p.memo) := by
      rw [Operation.eval]
      rfl
    exact (Progress.runSteps_of_ok hrun).trans (hrest more)

theorem runDirect_rebinding (limit : ℕ) (b : Bindings) (t : Scope) (names : List String)
    (rest : List Step) :
    runDirect limit b (rebinding t names ++ rest) = runDirect limit (rebound t names b) rest := by
  induction names generalizing b with
  | nil => rfl
  | cons name others ih => exact ih (b.bind name (t.amountOf name))

/-- Runs an operator as in one scope and then another as in a second scope. -/
def inTurn (s t : Scope) (first second : Operation) : Formula where
  steps := { id := s.stepId, operation := first } ::
    (rebinding t second.references ++ [{ id := t.stepId, operation := second }])

end Formula

namespace Vocabulary

variable {V : Vocabulary}

theorem has_inTurn {s t : Scope} {first second : Operation} (hfirst : V.Has first)
    (hsecond : V.Has second) :
    ∀ step ∈ (Formula.inTurn s t first second).steps, V.Has step.operation := by
  intro step hstep
  rcases List.mem_cons.mp hstep with rfl | hstep
  · exact hfirst
  rcases List.mem_append.mp hstep with hstep | hstep
  · obtain ⟨name, -, rfl⟩ := List.mem_map.mp hstep
    exact V.literal _
  · rw [List.mem_singleton.mp hstep]
    exact hsecond

section
variable {s : Scope} {op : Operator} {ps : List Parameter} {tree : KeyTree} {v : Decimal}
variable {limit : ℕ}
variable (hlimit : s.limit ≤ limit) (htree : keyTree s op ps = .ok tree)
include hlimit htree

theorem keyTree_within : keyTree { s with limit } op ps = .ok tree := by
  obtain ⟨parts, hparts, rfl⟩ := keyTree_eq_ok htree
  exact keyTree_of_keyParts (keyParts_of_extends (s := s) (t := { s with limit })
    (Nat.add_le_add_left hlimit 0) ps (fun _ _ _ h => h) parts hparts)

theorem stepValue_within (hv : (Operation.apply op ps).value s = .ok v) :
    Step.value limit s.bindings { id := s.stepId, operation := .apply op ps } = .ok v := by
  have hcheck : (Operation.apply op ps).check { s with limit } 0 = .ok () := by
    rw [← map_keyTree, keyTree_within hlimit htree]
    rfl
  have hvalue : (Operation.apply op ps).value { s with limit } = .ok v :=
    Operation.value_of_extends (s := s) (t := { s with limit }) _ (fun _ _ _ h => h) v hv
  unfold Step.value
  dsimp only
  rw [hcheck]
  exact hvalue

theorem Transparent.find?_of_one_step (hV : V.Transparent) (hhas : V.Has (.apply op ps))
    {key : String} (hkey : tree.key = some key) (hv : (Operation.apply op ps).value s = .ok v) :
    ∃ w memo, runFrom {} ((Operation.apply op ps).eval { s with limit }) = (.ok w, memo) ∧
      w.value = v.value ∧ memo.find? (some key) = some w := by
  let step : Step := { id := s.stepId, operation := .apply op ps }
  let start : Progress := { bindings := s.bindings }
  obtain ⟨e, he, hagrees⟩ := hV { steps := [step] } (by simpa [step] using hhas)
    { maxNestingDepth := limit } s.bindings
  have hdirect : Formula.direct limit { steps := [step] } s.bindings =
      (.ok v, s.bindings.bind "" v) := by
    unfold Formula.direct Formula.runDirect
    dsimp only
    rw [stepValue_within hlimit htree hv]
    unfold Formula.runDirect
    dsimp only
    rw [Bindings.get?_bind, if_pos rfl]
  dsimp only at hagrees
  rw [hdirect] at hagrees
  rcases hrun : runFrom {} ((Operation.apply op ps).eval { s with limit }) with ⟨h | w, memo⟩
  · exfalso
    unfold Formula.evaluate at he
    rw [Progress.runSteps_of_error (p := start) (s := step) hrun] at he
    rcases h with cause | cause
    · cases he
      cases hagrees.failure cause rfl
    · cases he
  · unfold Formula.evaluate at he
    rw [Progress.runSteps_of_ok (p := start) (s := step) hrun, Progress.runSteps] at he
    have hget := start.get?_result_advance 1 step w memo
    dsimp only [step] at he hget
    rw [hget] at he
    cases he
    obtain ⟨v', hv', hvalue⟩ := hagrees.success rfl
    cases hv'
    refine ⟨w, memo, rfl, hvalue.symm, ?_⟩
    rw [Operation.eval, keyTree_within hlimit htree] at hrun
    change runFrom {} (applied s.stepId op ps.length tree.key _) = _ at hrun
    rw [hkey] at hrun
    exact find?_of_miss rfl hrun

end

theorem evaluate_inTurn {s t : Scope} {op op' : Operator} {ps ps' : List Parameter} {limit : ℕ}
    {key : String} {tree : KeyTree} {w : Decimal} {memo : Memo} (hlimit : t.limit ≤ limit)
    (hrun : runFrom {} ((Operation.apply op ps).eval { s with limit }) = (.ok w, memo))
    (hfind : memo.find? (some key) = some w) (htree : keyTree t op' ps' = .ok tree)
    (hkey : tree.key = some key) (hcount : op'.checkCount ps'.length = .ok ()) :
    ∃ e, (Formula.inTurn s t (.apply op ps) (.apply op' ps')).evaluate
      { maxNestingDepth := limit } s.bindings = .ok e ∧ e.error = none ∧ e.result = w := by
  let first : Step := { id := s.stepId, operation := .apply op ps }
  let second : Step := { id := t.stepId, operation := .apply op' ps' }
  let start : Progress := { bindings := s.bindings }
  obtain ⟨p, number, hmemo, hbindings, hskip⟩ := Formula.runSteps_rebinding limit 2
    (start.advance 1 first w memo) t second.operation.references
  obtain ⟨parts, hparts, rfl⟩ := keyTree_eq_ok htree
  have htree' : keyTree (p.scopeFor limit second) op' ps' = .ok (.ofParts op' parts) :=
    keyTree_of_keyParts (keyParts_of_extends (s := t) (d := 0) (e := 0)
      (Nat.add_le_add_left hlimit 0) ps' (Formula.extends_rebound hbindings) parts hparts)
  have hsecond : runFrom p.memo (second.operation.eval (p.scopeFor limit second)) =
      (.ok w, memo.hit) := by
    rw [Operation.eval, htree', hmemo]
    refine runFrom_applied_of_hit hcount ?_
    rw [hkey]
    exact hfind
  have hget := p.get?_result_advance number second w memo.hit
  have hall : Progress.runSteps limit 1 start
      (Formula.inTurn s t (.apply op ps) (.apply op' ps')).steps =
        (none, p.advance number second w memo.hit) := by
    unfold Formula.inTurn
    rw [Progress.runSteps_of_ok (p := start) (s := first) hrun, hskip,
      Progress.runSteps_of_ok hsecond, Progress.runSteps]
  unfold Formula.evaluate
  dsimp only
  rw [hall]
  dsimp only [Formula.inTurn, second] at hget ⊢
  rw [hget]
  exact ⟨_, rfl, rfl, rfl⟩

theorem direct_inTurn {s t : Scope} {first second : Operation} {limit : ℕ} {v : Decimal}
    (hfirst : Step.value limit s.bindings { id := s.stepId, operation := first } = .ok v) :
    ((Formula.inTurn s t first second).direct limit s.bindings).1 =
      Step.value limit (Formula.rebound t second.references (s.bindings.bind "" v))
        { id := t.stepId, operation := second } := by
  have hall : Formula.runDirect limit s.bindings (Formula.inTurn s t first second).steps =
      Formula.runDirect limit (Formula.rebound t second.references (s.bindings.bind "" v))
        [{ id := t.stepId, operation := second }] := by
    unfold Formula.inTurn
    rw [Formula.runDirect, hfirst]
    exact Formula.runDirect_rebinding _ _ _ _ _
  unfold Formula.direct
  rw [hall, Formula.runDirect]
  cases Step.value limit (Formula.rebound t second.references (s.bindings.bind "" v))
    { id := t.stepId, operation := second } with
  | error h => rfl
  | ok w =>
    dsimp only [Formula.runDirect, Formula.inTurn]
    rw [Bindings.get?_bind, if_pos rfl]

/-- A vocabulary that is not faithful has a formula whose second operator finds the value of the
first. -/
theorem Transparent.faithful (hV : V.Transparent) : V.Faithful := by
  intro key s t op op' ps ps' v hhas ⟨tree, htree, hkey⟩ hhas' ⟨tree', htree', hkey'⟩ hcount hv
  let limit := max s.limit t.limit
  have hs : s.limit ≤ limit := Nat.le_max_left _ _
  have ht : t.limit ≤ limit := Nat.le_max_right _ _
  obtain ⟨w, memo, hrun, hvw, hfind⟩ := hV.find?_of_one_step hs htree hhas hkey hv
  obtain ⟨e, he, hnoError, hresult⟩ := evaluate_inTurn ht hrun hfind htree' hkey' hcount
  obtain ⟨e', he', hagrees⟩ := hV (Formula.inTurn s t (.apply op ps) (.apply op' ps'))
    (has_inTurn hhas hhas') { maxNestingDepth := limit } s.bindings
  rw [he] at he'
  cases he'
  obtain ⟨x, hx, hxw⟩ := hagrees.success hnoError
  dsimp only at hx
  rw [direct_inTurn (stepValue_within hs htree hv)] at hx
  obtain ⟨_, -, hx⟩ := bind_eq_ok hx
  obtain ⟨parts', hparts', -⟩ := keyTree_eq_ok htree'
  let b := Formula.rebound t (referencesOf ps') (s.bindings.bind "" v)
  have hnames := Formula.rebound_extends (u := { bindings := b, stepId := t.stepId, limit }) rfl
    (exists_resolve_of_keyParts ps' hparts')
  exact ⟨x, Operation.value_of_extends (.apply op' ps') hnames x hx, by rw [hxw, hresult, hvw]⟩

theorem isPlain_of_mem {ps : List Parameter} (h : AllPlain ps) {p : Parameter} (hp : p ∈ ps) :
    p.IsPlain := by
  induction ps with
  | nil => cases hp
  | cons first rest ih =>
    rcases List.mem_cons.mp hp with rfl | hp
    · exact h.1
    · exact ih h.2 hp

def plain : Vocabulary where
  Has := Operation.IsPlain
  literal _ := trivial
  nested h hmem := (isPlain_of_mem h.2 hmem).2

theorem plain_faithful : plain.Faithful := by
  intro key s t op op' ps ps' v hplain ⟨tree, htree, hkey⟩ hplain' ⟨tree', htree', hkey'⟩ _ hv
  obtain ⟨rfl, halike⟩ := alike_of_key hplain hplain' htree htree' hkey hkey'
  exact halike.carries.value_apply hv

/-- A memo cannot be seen exactly where equal keys mean equal values. That is so where names do not
contain an equals sign, identifiers no opening parenthesis, and tags neither a bar nor a closing
parenthesis. -/
theorem transparent_iff (V : Vocabulary) :
    (V.Transparent ↔ V.Faithful) ∧ ((∀ o, V.Has o → plain.Has o) → V.Transparent) := by
  refine ⟨⟨Transparent.faithful, Faithful.transparent⟩, fun hplain => ?_⟩
  intro f hhas
  exact plain_faithful.transparent f fun s hs => hplain s.operation (hhas s hs)

end Vocabulary

namespace Formula

/-- The second step adds up one name, which is spelled like the two names of the first step. -/
def colliding : Formula where
  declared :=
    [{ name := "a", default := .one }, { name := "b", default := .hundred },
      { name := "a=1|var:b", default := .hundred }]
  steps :=
    [{ id := "s1", name := "Two names", result := "x"
       operation := .apply .add [.reference "a", .reference "b"] },
      { id := "s2", name := "One name", result := "y"
        operation := .apply .add [.reference "a=1|var:b"] }]
  output := "y"

theorem not_agrees_colliding :
    ¬∃ e, colliding.evaluate {} (colliding.previewBindings .zero) = .ok e ∧
      Agrees e (colliding.direct 32 (colliding.previewBindings .zero)) := by
  rintro ⟨e, he, hagrees⟩
  have hmemo : (colliding.evaluate {} (colliding.previewBindings .zero)).toOption.map
      (fun e => (e.error, e.result.value)) = some (none, 101) := by decide +kernel
  have hdirect : ((colliding.direct 32 (colliding.previewBindings .zero)).1).toOption.map
      Decimal.value = some 100 := by decide +kernel
  rw [he] at hmemo
  obtain ⟨herror, hresult⟩ := Prod.mk.inj (Option.some.inj hmemo)
  obtain ⟨v, hv, hvalue⟩ := hagrees.success herror
  rw [hv] at hdirect
  have hv : v.value = 100 := Option.some.inj hdirect
  rw [hv, hresult] at hvalue
  exact absurd hvalue (by decide)

end Formula

end Payroll
