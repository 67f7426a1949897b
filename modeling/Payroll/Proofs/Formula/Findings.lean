import Payroll.Formula.Review

/-!
# What findings say

The errors of a report tell three kinds of defects apart: circular dependencies, names without a
value, and operators that are nested too deeply. Two of these share the kind of other defects and
are known by how their messages begin. Its warnings tell which variables are not used.
-/

set_option autoImplicit false

namespace Payroll

namespace Report.Finding

def IsCircular (e : Finding ErrorKind) : Prop :=
  e.kind = .structural ∧ "Circular dependency detected: ".toList <+: e.message.toList

def IsTooDeep (e : Finding ErrorKind) : Prop :=
  e.kind = .structural ∧ "Nesting depth limit of ".toList <+: e.message.toList

/-- The errors of a step that cannot run: a name without a value, or too deep nesting. -/
def Blocks (e : Finding ErrorKind) : Prop := e.kind = .binding ∨ e.IsTooDeep

instance : DecidablePred IsCircular := fun _ => inferInstanceAs (Decidable (_ ∧ _))

end Report.Finding

namespace Defect

variable {d : Defect}

/-- Names and depth are what a run checks before it evaluates a step. -/
def Blocks : Defect → Prop
  | undefinedVariable _ _ _ | nestingTooDeep _ _ => True
  | _ => False

inductive Aspect where
  | shape
  | steps
  | cycles
  | reading
deriving DecidableEq

def aspect : Defect → Aspect
  | noSteps | missingField _ _ | duplicateId _ | noOutput | outputNotProduced _ => .shape
  | nestingTooDeep _ _ | unsupportedOperator _ _ | arity _ _ _ _ | divisionByZero _
    | undefinedVariable _ _ _ => .steps
  | circular _ _ => .cycles
  | unreadable _ => .reading

/-- The letter that the message of a structural defect begins with. -/
def initial : Defect → Char
  | circular _ _ => 'C'
  | nestingTooDeep _ _ => 'N'
  | outputNotProduced _ => 'O'
  | _ => 'F'

theorem head?_message (h : d.finding.kind = .structural) :
    d.finding.message.toList.head? = some d.initial := by
  unfold finding at h ⊢
  cases d with
  | noSteps | noOutput => rfl
  | outputNotProduced name | circular stepId path => simp [initial]
  | nestingTooDeep stepId limit =>
    unfold PayError.message
    simp [initial]
  | _ => cases h

theorem initial_eq {opening : String} {c : Char} (hkind : d.finding.kind = .structural)
    (hopening : opening.toList.head? = some c)
    (hmessage : opening.toList <+: d.finding.message.toList) : d.initial = c := by
  obtain ⟨rest, hrest⟩ := hmessage
  have hhead : (opening.toList ++ rest).head? = some c := by
    rw [List.head?_append, hopening, Option.some_or]
  rw [hrest, head?_message hkind] at hhead
  exact Option.some.inj hhead

theorem finding_isCircular_iff : d.finding.IsCircular ↔ d.aspect = .cycles := by
  constructor
  · rintro ⟨hkind, hmessage⟩
    have hinitial := initial_eq hkind (c := 'C') (by rfl) hmessage
    cases d with
    | circular stepId path => rfl
    | _ => simp [initial] at hinitial
  · intro haspect
    cases d with
    | circular stepId path =>
      refine ⟨rfl, ?_⟩
      rw [finding, String.toList_append]
      exact List.prefix_append _ _
    | _ => cases haspect

theorem finding_isTooDeep_iff :
    d.finding.IsTooDeep ↔ ∃ stepId limit, d = .nestingTooDeep stepId limit := by
  constructor
  · rintro ⟨hkind, hmessage⟩
    have hinitial := initial_eq hkind (c := 'N') (by rfl) hmessage
    cases d with
    | nestingTooDeep stepId limit => exact ⟨stepId, limit, rfl⟩
    | _ => simp [initial] at hinitial
  · rintro ⟨stepId, limit, rfl⟩
    refine ⟨rfl, ?_⟩
    unfold finding PayError.message
    simp only [String.toList_append, List.append_assoc]
    exact List.prefix_append _ _

theorem finding_blocks_iff : d.finding.Blocks ↔ d.Blocks := by
  unfold Report.Finding.Blocks
  rw [finding_isTooDeep_iff]
  cases d <;> simp [finding, Blocks]

theorem aspect_of_blocks (h : d.Blocks) : d.aspect = .steps := by
  cases d <;> first | rfl | cases h

theorem aspect_of_mem_ite {c : Prop} [Decidable c] {reported : Defect}
    (h : d ∈ if c then [reported] else []) : d.aspect = reported.aspect := by
  rw [List.mem_singleton.mp (List.mem_ite_nil_right.mp h).2]

theorem depthOnce_eq_nil {ds : List Defect} : depthOnce ds = [] ↔ ds = [] := by
  cases ds with
  | nil => rfl
  | cons d rest =>
    refine iff_of_false ?_ (List.cons_ne_nil d rest)
    cases d <;> exact List.cons_ne_nil _ _

theorem mem_of_mem_depthOnce {ds : List Defect} (h : d ∈ depthOnce ds) : d ∈ ds := by
  induction ds with
  | nil => exact h
  | cons first rest ih =>
    cases first with
    | nestingTooDeep stepId limit =>
      rcases List.mem_cons.mp h with rfl | h
      · exact List.mem_cons_self
      · exact List.mem_cons_of_mem _ ((List.mem_filter.mp h).1)
    | _ =>
      rcases List.mem_cons.mp h with rfl | h
      · exact List.mem_cons_self
      · exact List.mem_cons_of_mem _ (ih h)

end Defect

section
variable {o : Outlook} {d : Defect}

theorem Outlook.aspect_of_mem_referenceDefects {name : String} {position : Option Nat}
    (h : d ∈ o.referenceDefects name position) : d.aspect = .steps := by
  unfold referenceDefects at h
  rw [List.mem_singleton.mp (List.mem_ite_nil_left.mp h).2]
  rfl

theorem Outlook.cases_of_mem_operatorDefects {op : Operator} {ps : List Parameter}
    (h : d ∈ o.operatorDefects op ps) :
    d = .unsupportedOperator o.stepId op.tag ∨
      (∃ expected, d = .arity o.stepId op.tag expected ps.length) ∨
      d = .divisionByZero o.stepId := by
  unfold operatorDefects at h
  split at h
  · exact .inl (List.mem_singleton.mp h)
  split at h
  · exact .inr (.inl ⟨_, List.mem_singleton.mp h⟩)
  split at h
  · exact .inr (.inr (List.mem_singleton.mp (List.mem_ite_nil_right.mp h).2))
  · cases h

mutual
theorem Operation.aspect_of_mem_defects {depth : Nat} : (operation : Operation) →
    d ∈ operation.defects o depth → d.aspect = .steps
  | .literal _ => fun h => by cases h
  | .reference _ => fun h => Outlook.aspect_of_mem_referenceDefects h
  | .apply op parameters => fun h => by
    rw [Operation.defects] at h
    split at h
    · rw [List.mem_singleton.mp h]
      rfl
    · rcases List.mem_append.mp h with h | h
      · rcases Outlook.cases_of_mem_operatorDefects h with rfl | ⟨_, rfl⟩ | rfl <;> rfl
      · exact aspect_of_mem_defectsOf parameters h
theorem Parameter.aspect_of_mem_defects {depth position : Nat} : (p : Parameter) →
    d ∈ p.defects o depth position → d.aspect = .steps
  | .literal _ => fun h => by cases h
  | .reference _ => fun h => Outlook.aspect_of_mem_referenceDefects h
  | .step _ operation => fun h => operation.aspect_of_mem_defects h
theorem aspect_of_mem_defectsOf {depth position : Nat} : (ps : List Parameter) →
    d ∈ defectsOf o depth position ps → d.aspect = .steps
  | [] => fun h => by cases h
  | p :: rest => fun h => by
    rw [defectsOf, List.mem_append] at h
    rcases h with h | h
    · exact p.aspect_of_mem_defects h
    · exact aspect_of_mem_defectsOf rest h
end

end

namespace Formula

variable {f : Formula} {d : Defect} {limit : Nat}

theorem aspect_of_mem_stepShape {steps : List Step} {seen : List String} {place : Nat}
    (h : d ∈ stepShape seen place steps) : d.aspect = .shape := by
  induction steps generalizing seen place with
  | nil => cases h
  | cons s rest ih =>
    simp only [stepShape, List.mem_append] at h
    rcases h with (h | h) | h
    · obtain ⟨⟨field, value⟩, -, hd⟩ := List.mem_filterMap.mp h
      dsimp only at hd
      split at hd
      · cases hd
        rfl
      · cases hd
    · exact Defect.aspect_of_mem_ite h
    · exact ih h

theorem aspect_of_mem_shapeDefects (h : d ∈ f.shapeDefects) : d.aspect = .shape := by
  simp only [shapeDefects, List.mem_append] at h
  rcases h with (h | h) | h
  · exact Defect.aspect_of_mem_ite h
  · exact aspect_of_mem_stepShape h
  · unfold outputShape at h
    split at h
    · rw [List.mem_singleton.mp h]
      rfl
    · exact Defect.aspect_of_mem_ite h

theorem aspect_of_mem_stepDefects (h : d ∈ f.stepDefects limit) : d.aspect = .steps := by
  obtain ⟨⟨o, s⟩, -, hd⟩ := List.mem_flatMap.mp h
  exact s.operation.aspect_of_mem_defects (Defect.mem_of_mem_depthOnce hd)

theorem aspect_of_mem_cycleDefects (h : d ∈ f.cycleDefects) : d.aspect = .cycles := by
  unfold cycleDefects at h
  split at h
  · rw [List.mem_singleton.mp h]
    rfl
  · cases h

variable {settings : FormulaSettings}

theorem mem_stepDefects_iff :
    d ∈ f.stepDefects settings.maxNestingDepth ↔ d ∈ f.defects settings ∧ d.aspect = .steps := by
  unfold defects
  rw [List.mem_append, List.mem_append]
  constructor
  · intro h
    exact ⟨.inl (.inr h), aspect_of_mem_stepDefects h⟩
  · rintro ⟨(h | h) | h, haspect⟩
    · rw [aspect_of_mem_shapeDefects h] at haspect
      cases haspect
    · exact h
    · rw [aspect_of_mem_cycleDefects h] at haspect
      cases haspect

theorem mem_cycleDefects_iff :
    d ∈ f.cycleDefects ↔ d ∈ f.defects settings ∧ d.aspect = .cycles := by
  unfold defects
  rw [List.mem_append, List.mem_append]
  constructor
  · intro h
    exact ⟨.inr h, aspect_of_mem_cycleDefects h⟩
  · rintro ⟨(h | h) | h, haspect⟩
    · rw [aspect_of_mem_shapeDefects h] at haspect
      cases haspect
    · rw [aspect_of_mem_stepDefects h] at haspect
      cases haspect
    · exact h

end Formula

section
variable {o : Outlook} {c : Concern}

theorem Outlook.kind_of_mem_operatorConcerns {op : Operator} {ps : List Parameter}
    (h : c ∈ o.operatorConcerns op ps) : c.finding.kind = .potentialError := by
  unfold operatorConcerns at h
  split at h
  · unfold divisorConcerns at h
    split at h
    · rw [List.mem_singleton.mp (List.mem_ite_nil_right.mp h).2]
      rfl
    · cases h
  · cases h

mutual
theorem Operation.kind_of_mem_concerns {depth : Nat} : (operation : Operation) →
    c ∈ operation.concerns o depth → c.finding.kind = .potentialError
  | .literal _ => fun h => by cases h
  | .reference _ => fun h => by cases h
  | .apply op ps => fun h => by
    rw [Operation.concerns] at h
    split at h
    · cases h
    · rcases List.mem_append.mp h with h | h
      · exact Outlook.kind_of_mem_operatorConcerns h
      · exact kind_of_mem_concernsOf ps h
theorem Parameter.kind_of_mem_concerns {depth : Nat} : (p : Parameter) →
    c ∈ p.concerns o depth → c.finding.kind = .potentialError
  | .literal _ => fun h => by cases h
  | .reference _ => fun h => by cases h
  | .step _ operation => fun h => operation.kind_of_mem_concerns h
theorem kind_of_mem_concernsOf {depth : Nat} : (ps : List Parameter) →
    c ∈ concernsOf o depth ps → c.finding.kind = .potentialError
  | [] => fun h => by cases h
  | p :: rest => fun h => by
    rw [concernsOf, List.mem_append] at h
    rcases h with h | h
    · exact p.kind_of_mem_concerns h
    · exact kind_of_mem_concernsOf rest h
end

end

namespace Concern

variable {c : Concern} {name : String}

theorem finding_eq_unusedVariable_iff :
    c.finding = (unusedVariable name).finding ↔ c = .unusedVariable name := by
  constructor
  · intro h
    cases c with
    | unusedVariable other =>
      have hname : some other = some name := congrArg Report.Finding.name h
      rw [Option.some.inj hname]
    | _ => cases congrArg Report.Finding.kind h
  · rintro rfl
    rfl

end Concern

namespace Formula

variable {f : Formula} {settings : FormulaSettings} {name : String}

theorem mem_unusedVariables_iff :
    .unusedVariable name ∈ f.unusedVariables ↔
      (∃ v ∈ f.declared, v.name = name) ∧
        (∀ s ∈ f.steps, name ∉ s.operation.references) ∧ f.output ≠ name := by
  unfold unusedVariables
  simp only [List.mem_filterMap]
  constructor
  · rintro ⟨v, hv, h⟩
    split at h
    · cases h
    · next hused =>
      cases h
      rw [Bool.or_eq_true, not_or, List.contains_iff_mem, List.mem_flatMap, decide_eq_true_eq]
        at hused
      exact ⟨⟨v, hv, rfl⟩, fun s hs hname => hused.1 ⟨s, hs, hname⟩, Ne.symm hused.2⟩
  · rintro ⟨⟨v, hv, rfl⟩, hunread, houtput⟩
    refine ⟨v, hv, if_neg ?_⟩
    rw [Bool.or_eq_true, not_or, List.contains_iff_mem, List.mem_flatMap, decide_eq_true_eq]
    exact ⟨fun ⟨s, hs, hname⟩ => hunread s hs hname, Ne.symm houtput⟩

/-- A review calls a variable unused if no step refers to it and it is not the answer. -/
theorem warns_unused_iff :
    (Concern.unusedVariable name).finding ∈ (f.review settings).warnings ↔
      (∃ v ∈ f.declared, v.name = name) ∧
        (∀ s ∈ f.steps, name ∉ s.operation.references) ∧ f.output ≠ name := by
  rw [← mem_unusedVariables_iff]
  constructor
  · intro h
    obtain ⟨c, hc, hfinding⟩ := List.mem_map.mp h
    rw [Concern.finding_eq_unusedVariable_iff] at hfinding
    subst hfinding
    simp only [concerns, List.mem_append] at hc
    rcases hc with (hc | hc) | hc
    · obtain ⟨⟨o, s⟩, -, hc⟩ := List.mem_flatMap.mp hc
      cases s.operation.kind_of_mem_concerns hc
    · exact hc
    · unfold sizeConcerns at hc
      cases List.mem_singleton.mp (List.mem_ite_nil_right.mp hc).2
  · intro h
    exact List.mem_map_of_mem (List.mem_append_left _ (List.mem_append_right _ h))

end Formula

end Payroll
