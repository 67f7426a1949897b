import Mathlib.Data.Nat.Notation
import Payroll.Formula.Direct
import Payroll.Formula.Evaluation
import Payroll.Proofs.Outcome

/-!
# Making keys

Making the keys of a step fails exactly when its names and its depth do not pass, and what is made
for a nested operator is the tree that it would make itself. Keys depend on what names stand for and
on nothing else.
-/

set_option autoImplicit false

namespace Payroll

namespace Scope

theorem checkDepth_eq_ok_iff {s : Scope} {depth : ℕ} :
    s.checkDepth depth = .ok () ↔ depth ≤ s.limit := by
  unfold checkDepth
  split
  · simp only [reduceCtorEq, false_iff]
    omega
  · simp only [true_iff]
    omega

end Scope

mutual
/-- Making a key fails exactly when the check of names and depth does, and with the same error. -/
theorem Parameter.map_keyPart (scope : Scope) (depth : ℕ) : (p : Parameter) →
    (p.keyPart scope depth).map (fun _ => ()) = p.check scope depth
  | .literal _ => rfl
  | .reference name => by
    rw [Parameter.keyPart, Parameter.check]
    cases scope.resolve name <;> rfl
  | .step heading operation => by
    rw [Parameter.keyPart, Parameter.check]
    exact operation.map_keyPart scope heading.id (depth + 1)
theorem Operation.map_keyPart (scope : Scope) (id : String) (depth : ℕ) : (o : Operation) →
    (o.keyPart scope id depth).map (fun _ => ()) = o.check scope depth
  | .literal _ => rfl
  | .reference name => by
    rw [Operation.keyPart, Operation.check]
    cases scope.resolve name <;> rfl
  | .apply op parameters => by
    rw [Operation.keyPart, Operation.check, ← map_keyParts scope depth parameters]
    cases scope.checkDepth depth with
    | error e => rfl
    | ok u => cases keyParts scope depth parameters <;> rfl
theorem map_keyParts (scope : Scope) (depth : ℕ) : (ps : List Parameter) →
    (keyParts scope depth ps).map (fun _ => ()) = checkAll scope depth ps
  | [] => rfl
  | p :: rest => by
    rw [keyParts, checkAll, ← p.map_keyPart scope depth, ← map_keyParts scope depth rest]
    cases p.keyPart scope depth with
    | error e => rfl
    | ok part => cases keyParts scope depth rest <;> rfl
end

theorem map_keyTree (scope : Scope) (op : Operator) (parameters : List Parameter) :
    (keyTree scope op parameters).map (fun _ => ()) = (Operation.apply op parameters).check scope 0
    := by
  rw [keyTree, Operation.check, ← map_keyParts]
  cases scope.checkDepth 0 with
  | error e => rfl
  | ok u => cases keyParts scope 0 parameters <;> rfl

section parts
variable {scope : Scope} {depth : ℕ}

theorem keyParts_cons_eq_ok {p : Parameter} {rest : List Parameter}
    {parts : List (Option String × Option KeyTree)}
    (h : keyParts scope depth (p :: rest) = .ok parts) :
    ∃ part parts', p.keyPart scope depth = .ok part ∧ keyParts scope depth rest = .ok parts' ∧
      parts = part :: parts' := by
  rw [keyParts] at h
  obtain ⟨part, hpart, h⟩ := bind_eq_ok h
  obtain ⟨parts', hrest, h⟩ := bind_eq_ok h
  cases h
  exact ⟨part, parts', hpart, hrest, rfl⟩

theorem keyPart_step_apply_eq_ok {heading : Heading} {op : Operator} {ps : List Parameter}
    {part : Option String × Option KeyTree}
    (h : (Parameter.step heading (.apply op ps)).keyPart scope depth = .ok part) :
    ∃ parts, depth + 1 ≤ scope.limit ∧ keyParts scope (depth + 1) ps = .ok parts ∧
      part = (Key.step? heading.id (KeyTree.ofParts op parts).key, some (.ofParts op parts)) := by
  rw [Parameter.keyPart, Operation.keyPart] at h
  obtain ⟨_, hdepth, h⟩ := bind_eq_ok h
  obtain ⟨parts, hparts, h⟩ := bind_eq_ok h
  cases h
  exact ⟨parts, Scope.checkDepth_eq_ok_iff.mp hdepth, hparts, rfl⟩

theorem keyTree_eq_ok {op : Operator} {ps : List Parameter} {tree : KeyTree}
    (h : keyTree scope op ps = .ok tree) :
    ∃ parts, keyParts scope 0 ps = .ok parts ∧ tree = .ofParts op parts := by
  rw [keyTree] at h
  obtain ⟨_, -, h⟩ := bind_eq_ok h
  obtain ⟨parts, hparts, h⟩ := bind_eq_ok h
  cases h
  exact ⟨parts, hparts, rfl⟩

def Operation.operands : Operation → List Parameter
  | .literal value => [.literal value]
  | .reference name => [.reference name]
  | .apply _ parameters => parameters

/-- The key of any nested step lists operands behind what kind of step it is. -/
theorem keyPart_step_eq_ok {heading : Heading} {o : Operation}
    {part : Option String × Option KeyTree}
    (h : (Parameter.step heading o).keyPart scope depth = .ok part) :
    ∃ parts, keyParts scope (depth + 1) o.operands = .ok parts ∧
      part.1 = Key.step? heading.id (Key.join? (Trace.kindOf o) (parts.map Prod.fst)) := by
  cases o with
  | literal value =>
    cases h
    exact ⟨[(some (Key.literal value), none)], rfl, rfl⟩
  | reference name =>
    rw [Parameter.keyPart, Operation.keyPart] at h
    obtain ⟨value, hvalue, h⟩ := bind_eq_ok h
    cases h
    refine ⟨[(some (Key.reference name value), none)], ?_, rfl⟩
    rw [Operation.operands, keyParts, Parameter.keyPart, hvalue]
    rfl
  | apply op ps =>
    obtain ⟨parts, -, hparts, rfl⟩ := keyPart_step_apply_eq_ok h
    exact ⟨parts, hparts, rfl⟩

end parts

/-- Names stand for the same in another scope if they stand for anything. -/
def Scope.Extends (names : List String) (s t : Scope) : Prop :=
  ∀ name ∈ names, ∀ value, s.resolve name = .ok value → t.resolve name = .ok value

theorem Scope.extends_append {names more : List String} {s t : Scope} :
    Extends (names ++ more) s t ↔ Extends names s t ∧ Extends more s t :=
  List.forall_mem_append

section
variable {s t : Scope}

mutual
theorem Parameter.keyPart_of_extends {d e : ℕ} (hroom : e + s.limit ≤ d + t.limit) :
    (p : Parameter) → Scope.Extends p.references s t → ∀ part, p.keyPart s d = .ok part →
      p.keyPart t e = .ok part
  | .literal _ => fun _ _ h => h
  | .reference name => fun hnames part h => by
    rw [Parameter.keyPart] at h ⊢
    obtain ⟨value, hvalue, h⟩ := bind_eq_ok h
    rw [hnames name (List.mem_singleton_self name) value hvalue]
    exact h
  | .step heading o => fun hnames part h => by
    rw [Parameter.keyPart] at h ⊢
    exact o.keyPart_of_extends (by omega) hnames heading.id part h
theorem Operation.keyPart_of_extends {d e : ℕ} (hroom : e + s.limit ≤ d + t.limit) :
    (o : Operation) → Scope.Extends o.references s t → ∀ id part, o.keyPart s id d = .ok part →
      o.keyPart t id e = .ok part
  | .literal _ => fun _ _ _ h => h
  | .reference name => fun hnames id part h => by
    rw [Operation.keyPart] at h ⊢
    obtain ⟨value, hvalue, h⟩ := bind_eq_ok h
    rw [hnames name (List.mem_singleton_self name) value hvalue]
    exact h
  | .apply op parameters => fun hnames id part h => by
    rw [Operation.keyPart] at h ⊢
    obtain ⟨_, hdepth, h⟩ := bind_eq_ok h
    obtain ⟨parts, hparts, h⟩ := bind_eq_ok h
    have hdepth := Scope.checkDepth_eq_ok_iff.mp hdepth
    rw [Scope.checkDepth_eq_ok_iff.mpr (by omega),
      keyParts_of_extends hroom parameters hnames parts hparts]
    exact h
theorem keyParts_of_extends {d e : ℕ} (hroom : e + s.limit ≤ d + t.limit) : (ps : List Parameter) →
    Scope.Extends (referencesOf ps) s t → ∀ parts, keyParts s d ps = .ok parts →
      keyParts t e ps = .ok parts
  | [] => fun _ _ h => h
  | p :: rest => fun hnames parts h => by
    obtain ⟨hp, hrest⟩ := Scope.extends_append.mp hnames
    obtain ⟨part, parts', hpart, hparts', rfl⟩ := keyParts_cons_eq_ok h
    rw [keyParts, p.keyPart_of_extends hroom hp part hpart,
      keyParts_of_extends hroom rest hrest parts' hparts']
    rfl
end

end

def Scope.SameKeys (names : List String) (s t : Scope) : Prop :=
  ∀ name ∈ names,
    (s.resolve name).map (Key.reference name) = (t.resolve name).map (Key.reference name)

theorem Scope.sameKeys_append {names more : List String} {s t : Scope} :
    SameKeys (names ++ more) s t ↔ SameKeys names s t ∧ SameKeys more s t :=
  List.forall_mem_append

theorem Parameter.keyPart_reference (scope : Scope) (depth : ℕ) (name : String) :
    (Parameter.reference name).keyPart scope depth =
      ((scope.resolve name).map (Key.reference name)).map fun key => (some key, none) := by
  rw [Parameter.keyPart]
  cases scope.resolve name <;> rfl

theorem Operation.keyPart_reference (scope : Scope) (id : String) (depth : ℕ) (name : String) :
    (Operation.reference name).keyPart scope id depth =
      ((scope.resolve name).map (Key.reference name)).map fun key =>
        (Key.step? id (Key.join? "reference" [some key]), none) := by
  rw [Operation.keyPart]
  cases scope.resolve name <;> rfl

section
variable {s t : Scope}

mutual
/-- Keys see no more of a scope than how its names read. -/
theorem Parameter.keyPart_congr (hdepth : ∀ depth, s.checkDepth depth = t.checkDepth depth)
    {depth : ℕ} : (p : Parameter) → Scope.SameKeys p.references s t →
      p.keyPart s depth = p.keyPart t depth
  | .literal _ => fun _ => rfl
  | .reference name => fun hnames => by
    rw [Parameter.keyPart_reference, Parameter.keyPart_reference,
      hnames name (List.mem_singleton_self name)]
  | .step heading o => fun hnames => by
    rw [Parameter.keyPart, Parameter.keyPart]
    exact o.keyPart_congr hdepth hnames heading.id
theorem Operation.keyPart_congr (hdepth : ∀ depth, s.checkDepth depth = t.checkDepth depth)
    {depth : ℕ} : (o : Operation) → Scope.SameKeys o.references s t →
      ∀ id, o.keyPart s id depth = o.keyPart t id depth
  | .literal _ => fun _ _ => rfl
  | .reference name => fun hnames id => by
    rw [Operation.keyPart_reference, Operation.keyPart_reference,
      hnames name (List.mem_singleton_self name)]
  | .apply op ps => fun hnames id => by
    rw [Operation.keyPart, Operation.keyPart, hdepth, keyParts_congr hdepth ps hnames]
theorem keyParts_congr (hdepth : ∀ depth, s.checkDepth depth = t.checkDepth depth)
    {depth : ℕ} : (ps : List Parameter) → Scope.SameKeys (referencesOf ps) s t →
      keyParts s depth ps = keyParts t depth ps
  | [] => fun _ => rfl
  | p :: rest => fun hnames => by
    obtain ⟨hp, hrest⟩ := Scope.sameKeys_append.mp hnames
    rw [keyParts, keyParts, p.keyPart_congr hdepth hp, keyParts_congr hdepth rest hrest]
end

theorem keyTree_congr (hdepth : ∀ depth, s.checkDepth depth = t.checkDepth depth)
    (op : Operator) {ps : List Parameter} (hnames : Scope.SameKeys (referencesOf ps) s t) :
    keyTree s op ps = keyTree t op ps := by
  rw [keyTree, keyTree, hdepth, keyParts_congr hdepth ps hnames]

end

section
variable {scope : Scope}

mutual
theorem Parameter.exists_resolve_of_keyPart {depth : ℕ} {part : Option String × Option KeyTree} :
    (p : Parameter) → p.keyPart scope depth = .ok part →
      ∀ name ∈ p.references, ∃ value, scope.resolve name = .ok value
  | .literal _ => fun _ _ hname => by cases hname
  | .reference name => fun h other hother => by
    rw [Parameter.keyPart] at h
    obtain ⟨value, hvalue, -⟩ := bind_eq_ok h
    rw [Parameter.references, List.mem_singleton] at hother
    exact ⟨value, hother ▸ hvalue⟩
  | .step heading o => fun h => by
    rw [Parameter.keyPart] at h
    exact o.exists_resolve_of_keyPart h
theorem Operation.exists_resolve_of_keyPart {id : String} {depth : ℕ}
    {part : Option String × Option KeyTree} :
    (o : Operation) → o.keyPart scope id depth = .ok part →
      ∀ name ∈ o.references, ∃ value, scope.resolve name = .ok value
  | .literal _ => fun _ _ hname => by cases hname
  | .reference name => fun h other hother => by
    rw [Operation.keyPart] at h
    obtain ⟨value, hvalue, -⟩ := bind_eq_ok h
    rw [Operation.references, List.mem_singleton] at hother
    exact ⟨value, hother ▸ hvalue⟩
  | .apply op parameters => fun h => by
    rw [Operation.keyPart] at h
    obtain ⟨_, -, h⟩ := bind_eq_ok h
    obtain ⟨parts, hparts, -⟩ := bind_eq_ok h
    exact exists_resolve_of_keyParts parameters hparts
theorem exists_resolve_of_keyParts {depth : ℕ} {parts : List (Option String × Option KeyTree)} :
    (ps : List Parameter) → keyParts scope depth ps = .ok parts →
      ∀ name ∈ referencesOf ps, ∃ value, scope.resolve name = .ok value
  | [] => fun _ _ hname => by cases hname
  | p :: rest => fun h name hname => by
    obtain ⟨part, parts', hpart, hparts', -⟩ := keyParts_cons_eq_ok h
    rw [referencesOf, List.mem_append] at hname
    rcases hname with hname | hname
    · exact p.exists_resolve_of_keyPart hpart name hname
    · exact exists_resolve_of_keyParts rest hparts' name hname
end

end

theorem keyTree_of_keyParts {scope : Scope} {depth : ℕ} {op : Operator} {ps : List Parameter}
    {parts : List (Option String × Option KeyTree)} (h : keyParts scope depth ps = .ok parts) :
    keyTree scope op ps = .ok (.ofParts op parts) := by
  rw [keyTree, Scope.checkDepth_eq_ok_iff.mpr (Nat.zero_le _),
    keyParts_of_extends (by omega) ps (fun _ _ _ h => h) parts h]
  rfl

end Payroll
