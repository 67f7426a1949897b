import Mathlib.Order.Bounds.Basic
import Payroll.Proofs.Formula.Cycles
import Payroll.Proofs.Formula.Runs

/-!
# Alarms that are real

A step that a review finds to refer to a name without a value, or to nest too deeply, fails in every
run that gets to it. A circle of results keeps a formula from running too, as long as no name on it
has a value from elsewhere.
-/

set_option autoImplicit false

namespace Payroll

/-- No name is bound but those that a review counts as bound, and it knows the limit of nesting. -/
structure Outlook.Bounds (o : Outlook) (scope : Scope) : Prop where
  bound : ∀ name, (scope.bindings.get? name).isSome → name ∈ o.bound
  limit : o.limit = scope.limit

section
variable {o : Outlook} {scope : Scope}

theorem Outlook.referenceDefects_of_resolve (hbounds : o.Bounds scope) {name : String}
    {position : Option ℕ} (h : ∃ value, scope.resolve name = .ok value) :
    o.referenceDefects name position = [] := by
  obtain ⟨value, hvalue⟩ := h
  unfold referenceDefects
  rw [if_pos]
  unfold Scope.resolve Bindings.resolve? at hvalue
  rw [Bool.or_eq_true, List.contains_iff_mem]
  cases hget : scope.bindings.get? name with
  | some amount =>
    right
    apply hbounds.bound
    rw [hget]
    rfl
  | none =>
    left
    rw [hget] at hvalue
    unfold numeral?
    cases hnumeral : Decimal.ofAmount? (Text.trim name) with
    | some amount => rfl
    | none =>
      rw [hnumeral] at hvalue
      cases hvalue

theorem resolve_of_check {name : String}
    (h : (do let _ ← scope.resolve name; return () : Except PayError Unit) = .ok ()) :
    ∃ value, scope.resolve name = .ok value := by
  obtain ⟨value, hvalue, -⟩ := bind_eq_ok h
  exact ⟨value, hvalue⟩

mutual
theorem Operation.not_blocks_of_check (hbounds : o.Bounds scope) {depth : ℕ} {d : Defect} :
    (operation : Operation) → operation.check scope depth = .ok () →
      d ∈ operation.defects o depth → ¬d.Blocks
  | .literal _ => fun _ hd => by cases hd
  | .reference name => fun hcheck hd => by
    rw [Operation.check] at hcheck
    rw [Operation.defects, o.referenceDefects_of_resolve hbounds (resolve_of_check hcheck)] at hd
    cases hd
  | .apply op ps => fun hcheck hd => by
    rw [Operation.check] at hcheck
    obtain ⟨_, hdepth, hall⟩ := bind_eq_ok hcheck
    rw [Scope.checkDepth_eq_ok_iff, ← hbounds.limit, ← Nat.not_lt] at hdepth
    rw [Operation.defects, if_neg hdepth, List.mem_append] at hd
    rcases hd with hd | hd
    · rcases Outlook.cases_of_mem_operatorDefects hd with rfl | ⟨_, rfl⟩ | rfl <;> exact id
    · exact not_blocks_of_checkAll hbounds ps hall hd
theorem Parameter.not_blocks_of_check (hbounds : o.Bounds scope) {depth position : ℕ}
    {d : Defect} : (p : Parameter) → p.check scope depth = .ok () →
      d ∈ p.defects o depth position → ¬d.Blocks
  | .literal _ => fun _ hd => by cases hd
  | .reference name => fun hcheck hd => by
    rw [Parameter.check] at hcheck
    rw [Parameter.defects, o.referenceDefects_of_resolve hbounds (resolve_of_check hcheck)] at hd
    cases hd
  | .step _ operation => fun hcheck hd => operation.not_blocks_of_check hbounds hcheck hd
theorem not_blocks_of_checkAll (hbounds : o.Bounds scope) {depth position : ℕ} {d : Defect} :
    (ps : List Parameter) → checkAll scope depth ps = .ok () →
      d ∈ defectsOf o depth position ps → ¬d.Blocks
  | [] => fun _ hd => by cases hd
  | p :: rest => fun hcheck hd => by
    obtain ⟨_, hp, hrest⟩ := bind_eq_ok hcheck
    rw [defectsOf, List.mem_append] at hd
    rcases hd with hd | hd
    · exact p.not_blocks_of_check hbounds hp hd
    · exact not_blocks_of_checkAll hbounds rest hrest hd
end

theorem Operation.check_of_blocks (hbounds : o.Bounds scope) {operation : Operation} {depth : ℕ}
    {d : Defect} (hd : d ∈ operation.defects o depth) (hblocks : d.Blocks) :
    ∃ cause, operation.check scope depth = .error cause := by
  cases hcheck : operation.check scope depth with
  | error cause => exact ⟨cause, rfl⟩
  | ok _ => exact absurd hblocks (operation.not_blocks_of_check hbounds hcheck hd)

end

namespace Formula

variable {f : Formula} {settings : FormulaSettings} {limit : ℕ}

theorem exists_of_mem_zipIdx_outlooks {steps : List Step} {bound : List String} {o : Outlook}
    {s : Step} {place first : ℕ}
    (h : ((o, s), place) ∈ (outlooks limit bound steps).zipIdx first) :
    ∃ before after, steps = before ++ s :: after ∧ place = first + before.length ∧
      o.limit = limit ∧
      ∀ name, name ∈ o.bound ↔ name ∈ bound ∨ ∃ t ∈ before, t.result = name ∧ name ≠ "" := by
  induction steps generalizing bound first with
  | nil => cases h
  | cons t rest ih =>
    rw [outlooks, List.zipIdx_cons, List.mem_cons] at h
    rcases h with h | h
    · cases h
      exact ⟨[], rest, rfl, rfl, rfl, by simp⟩
    · obtain ⟨before, after, rfl, rfl, hlimit, hbound⟩ := ih h
      refine ⟨t :: before, after, rfl, by rw [List.length_cons]; omega, hlimit, ?_⟩
      intro name
      rw [hbound, List.exists_mem_cons_iff, ← or_assoc]
      refine or_congr_left ?_
      -- A review does not count an empty result as bound.
      by_cases hresult : t.result = ""
      · rw [if_pos (String.isEmpty_iff.mpr hresult)]
        refine (or_iff_left ?_).symm
        rintro ⟨rfl, hne⟩
        exact hne hresult
      · rw [if_neg (by simpa using hresult), List.mem_cons, or_comm]
        refine or_congr_right ⟨?_, fun hname => hname.1.symm⟩
        rintro rfl
        exact ⟨rfl, hresult⟩

def stepFindings (f : Formula) (limit : ℕ) : List (List (Report.Finding Report.ErrorKind)) :=
  (outlooks limit f.initialNames f.steps).map fun os =>
    (Defect.depthOnce (os.2.operation.defects os.1 0)).map Defect.finding

theorem flatten_stepFindings (f : Formula) (limit : ℕ) :
    (f.stepFindings limit).flatten = (f.stepDefects limit).map Defect.finding := by
  unfold stepFindings stepDefects
  rw [List.flatMap_def, List.map_flatten, List.map_map]
  rfl

/-- A review reports at this place, counted from one, that a step cannot run. -/
def BlockedAt (f : Formula) (settings : FormulaSettings) (place : ℕ) : Prop :=
  ∃ findings, (findings, place) ∈ (f.stepFindings settings.maxNestingDepth).zipIdx 1 ∧
    ∃ e ∈ findings, e.Blocks

theorem exists_blockedAt (hreported : ∃ e ∈ (f.review settings).errors, e.Blocks) :
    ∃ place, f.BlockedAt settings place := by
  obtain ⟨e, he, hblocks⟩ := hreported
  obtain ⟨d, hd, rfl⟩ := List.mem_map.mp he
  have haspect := Defect.aspect_of_blocks (Defect.finding_blocks_iff.mp hblocks)
  have hfinding : d.finding ∈ (f.stepDefects settings.maxNestingDepth).map Defect.finding :=
    List.mem_map_of_mem (mem_stepDefects_iff.mpr ⟨hd, haspect⟩)
  rw [← flatten_stepFindings, List.mem_flatten] at hfinding
  obtain ⟨findings, hfindings, he⟩ := hfinding
  rw [← List.zipIdx_map_fst 1 (f.stepFindings _), List.mem_map] at hfindings
  obtain ⟨⟨findings, place⟩, hplace, rfl⟩ := hfindings
  exact ⟨place, findings, hplace, _, he, hblocks⟩

theorem evaluate_of_blockedAt (hresults : ∀ s ∈ f.steps, s.result ≠ "") {b : Bindings}
    (hb : ∀ name, (b.get? name).isSome → name ∈ f.initialNames) {place : ℕ}
    (hblocked : f.BlockedAt settings place) :
    ∃ e, f.evaluate settings b = .ok e ∧ e.succeeded = false ∧ e.trace.entries.length < place := by
  obtain ⟨findings, hplace, finding, hfinding, hblocks⟩ := hblocked
  rw [stepFindings, List.zipIdx_map, List.mem_map] at hplace
  obtain ⟨⟨⟨o, s⟩, place⟩, hos, heq⟩ := hplace
  cases heq
  obtain ⟨d, hd, rfl⟩ := List.mem_map.mp hfinding
  obtain ⟨before, after, hsteps, rfl, hlimit, hbound⟩ := exists_of_mem_zipIdx_outlooks hos
  obtain ⟨e, he, hfailed, hlength⟩ := evaluate_of_stuck settings b hsteps
    fun scope hscope hnames => by
      refine Operation.check_of_blocks ⟨?_, hlimit.trans hscope.symm⟩
        (Defect.mem_of_mem_depthOnce hd) (Defect.finding_blocks_iff.mp hblocks)
      intro name hname
      rw [hbound]
      rcases (hnames name).mp hname with hname | ⟨t, ht, rfl⟩
      · exact .inl (hb name hname)
      · exact .inr ⟨t, ht, rfl, hresults t (by simp [hsteps, ht])⟩
  have hbefore : e.trace.entries.length < 1 + before.length := by omega
  exact ⟨e, he, hfailed, hbefore⟩

/-- Reports of undefined variables and of too deep nesting are no false alarms: with them a formula
fails for every request, before the first step that they are about is over. -/
theorem evaluate_of_blocks {r : Request} {b : Bindings}
    (hresults : ∀ s ∈ f.steps, s.result ≠ "") (hb : f.requestBindings r = .ok b)
    (hreported : ∃ e ∈ (f.review settings).errors, e.Blocks) :
    ∃ place e, IsLeast {n | f.BlockedAt settings n} place ∧ f.evaluate settings b = .ok e ∧
      e.succeeded = false ∧ e.trace.entries.length < place := by
  have hplaces : ∃ place, f.BlockedAt settings place := exists_blockedAt hreported
  classical
  have hfirst := Nat.find_spec hplaces
  obtain ⟨e, he⟩ := evaluate_of_blockedAt hresults
    (fun name hname => (isSome_get?_of_requestBindings hb).mp hname) hfirst
  exact ⟨Nat.find hplaces, e, ⟨hfirst, fun n hn => Nat.find_min' hplaces hn⟩, he⟩

def missingRate : Formula where
  steps :=
    [{ id := "s1", name := "Base", result := "base", operation := .literal .one },
      { id := "s2", name := "Pay", result := "pay"
        operation :=
          .apply .multiply
            [.reference "base", .step {} (.apply .add [.reference "base", .reference "rate"])] }]
  output := "pay"

theorem evaluate_missingRate :
    (∀ s ∈ missingRate.steps, s.result ≠ "") ∧
      missingRate.requestBindings .idle = .ok (Bindings.seeded .zero .zero .zero .zero) ∧
      (∃ e ∈ (missingRate.review {}).errors, e.Blocks) ∧
      ∃ place e, IsLeast {n | missingRate.BlockedAt {} n} place ∧
        missingRate.evaluate {} (Bindings.seeded .zero .zero .zero .zero) = .ok e ∧
        e.succeeded = false ∧ e.trace.entries.length < place := by
  have hresults : ∀ s ∈ missingRate.steps, s.result ≠ "" := by simp [missingRate]
  have hb : missingRate.requestBindings .idle = .ok (Bindings.seeded .zero .zero .zero .zero) :=
    requestBindings_idle rfl
  have herrors : (missingRate.review {}).errors =
      [(Defect.undefinedVariable "s2" "rate" (some 1)).finding] := by rfl
  have hreported : ∃ e ∈ (missingRate.review {}).errors, e.Blocks := by
    rw [herrors]
    exact ⟨_, List.mem_singleton_self _, .inl rfl⟩
  exact ⟨hresults, hb, hreported, evaluate_of_blocks hresults hb hreported⟩

end Formula

theorem Operation.exists_resolve_of_check {scope : Scope} {depth : ℕ} {o : Operation}
    (hcheck : o.check scope depth = .ok ()) {name : String} (hname : o.Mentions name) :
    ∃ value, scope.resolve name = .ok value := by
  rw [← o.map_keyPart scope "" depth] at hcheck
  obtain ⟨part, hpart⟩ := exists_map_eq_ok.mp ⟨_, hcheck⟩
  exact o.exists_resolve_of_keyPart hpart name (Operation.mem_references_iff.mpr hname)

theorem Operation.check_of_mentions {scope : Scope} {depth : ℕ} {o : Operation} {name : String}
    (hname : o.Mentions name) (hnone : scope.bindings.resolve? name = none) :
    ∃ cause, o.check scope depth = .error cause := by
  cases hcheck : o.check scope depth with
  | error cause => exact ⟨cause, rfl⟩
  | ok _ =>
    obtain ⟨value, hvalue⟩ := exists_resolve_of_check hcheck hname
    unfold Scope.resolve at hvalue
    rw [hnone] at hvalue
    cases hvalue

theorem Bindings.resolve?_eq_none {b : Bindings} {name : String} (hget : ¬(b.get? name).isSome)
    (hnumeral : Outlook.numeral? name = none) : b.resolve? name = none := by
  rw [Option.not_isSome_iff_eq_none] at hget
  unfold resolve?
  rw [hget]
  exact hnumeral

namespace Formula

variable {f : Formula} {settings : FormulaSettings} {path : List String}

/-- The first step whose result is on a loop refers to a name on it, if no other step binds the same
result. -/
theorem exists_step_of_isLoop (hloop : IsLoop f.DependsOn path)
    (hfirst : ∀ s, f.steps.find? (·.result ∈ path) = some s →
      (∀ t ∈ f.steps, t.result = s.result → t = s) ∨ ∃ next ∈ path, s.operation.Mentions next) :
    ∃ before s after next, f.steps = before ++ s :: after ∧ next ∈ path ∧
      s.operation.Mentions next ∧ ∀ t ∈ before, t.result ∉ path := by
  have hsome : (f.steps.find? (·.result ∈ path)).isSome := by
    obtain ⟨first, between, hpath, -⟩ := id hloop
    obtain ⟨next, -, ⟨s, hs, rfl, -⟩, -⟩ := hloop.exists_next (a := first) (by simp [hpath])
    rw [List.find?_isSome]
    exact ⟨s, hs, by simp [hpath]⟩
  obtain ⟨s, hfind⟩ := Option.isSome_iff_exists.mp hsome
  obtain ⟨hs, before, after, hsteps, hbefore⟩ := List.find?_eq_some_iff_append.mp hfind
  have hmentions : ∃ next ∈ path, s.operation.Mentions next := by
    rcases hfirst s hfind with hsole | hmentions
    · obtain ⟨next, hnext, ⟨t, ht, hresult, -, hmentions⟩, -⟩ :=
        hloop.exists_next (a := s.result) (by simpa using hs)
      rw [hsole t ht hresult] at hmentions
      exact ⟨next, hnext, hmentions⟩
    · exact hmentions
  obtain ⟨next, hnext, hmentions⟩ := hmentions
  exact ⟨before, s, after, next, hsteps, hnext, hmentions, by simpa using hbefore⟩

/-- A circle of results is no false alarm either, if no name on it reads as an amount, and the first
step that binds a name on it is the only one to bind this name or refers to the circle itself. Then
the formula fails for every request, at the latest where a name of the circle is used that is not
bound by then. -/
theorem evaluate_of_circular {r : Request} {b : Bindings} {stepId : Option String}
    (hb : f.requestBindings r = .ok b) (hreported : .circular stepId path ∈ f.defects settings)
    (hnumeral : ∀ name ∈ path, Outlook.numeral? name = none)
    (hfirst : ∀ s, f.steps.find? (·.result ∈ path) = some s →
      (∀ t ∈ f.steps, t.result = s.result → t = s) ∨ ∃ next ∈ path, s.operation.Mentions next) :
    ∃ before s after next e, f.steps = before ++ s :: after ∧ s.operation.Mentions next ∧
      b.resolve? next = none ∧ (∀ t ∈ before, t.result ≠ next) ∧
      f.evaluate settings b = .ok e ∧ e.succeeded = false ∧
      e.trace.entries.length ≤ before.length := by
  have hloop := isLoop_of_circular hreported
  obtain ⟨before, s, after, next, hsteps, hnext, hmentions, hbefore⟩ :=
    exists_step_of_isLoop hloop hfirst
  obtain ⟨previous, -, -, -, hinitial⟩ := hloop.exists_previous hnext
  have hunbound : ¬(b.get? next).isSome := by rwa [isSome_get?_of_requestBindings hb]
  have hothers : ∀ t ∈ before, t.result ≠ next := by
    rintro t ht rfl
    exact hbefore t ht hnext
  obtain ⟨e, he⟩ := evaluate_of_stuck settings b hsteps
    fun scope _ hnames => by
      refine Operation.check_of_mentions hmentions
        (Bindings.resolve?_eq_none ?_ (hnumeral next hnext))
      rw [hnames]
      rintro (hbound | ⟨t, ht, hresult⟩)
      · exact hunbound hbound
      · exact hothers t ht hresult
  exact ⟨before, s, after, next, e, hsteps, hmentions,
    Bindings.resolve?_eq_none hunbound (hnumeral next hnext), hothers, he⟩

def mutualResults : Formula where
  steps :=
    [{ id := "s1", name := "Start", result := "base", operation := .literal .one },
      { id := "s2", name := "There", result := "bonus"
        operation := .apply .add [.reference "base", .reference "share"] },
      { id := "s3", name := "Back", result := "share"
        operation := .apply .multiply [.reference "bonus", .reference "base"] }]
  output := "share"

theorem evaluate_mutualResults :
    mutualResults.requestBindings .idle = .ok (Bindings.seeded .zero .zero .zero .zero) ∧
      .circular (some "s2") ["bonus", "share", "bonus"] ∈ mutualResults.defects {} ∧
      (∀ name ∈ ["bonus", "share", "bonus"], Outlook.numeral? name = none) ∧
      (∀ s, mutualResults.steps.find? (·.result ∈ ["bonus", "share", "bonus"]) = some s →
        (∀ t ∈ mutualResults.steps, t.result = s.result → t = s) ∨
          ∃ next ∈ ["bonus", "share", "bonus"], s.operation.Mentions next) ∧
      ∃ before s after next e, mutualResults.steps = before ++ s :: after ∧
        s.operation.Mentions next ∧
        (Bindings.seeded .zero .zero .zero .zero).resolve? next = none ∧
        (∀ t ∈ before, t.result ≠ next) ∧
        mutualResults.evaluate {} (Bindings.seeded .zero .zero .zero .zero) = .ok e ∧
        e.succeeded = false ∧ e.trace.entries.length ≤ before.length := by
  have hb : mutualResults.requestBindings .idle = .ok (Bindings.seeded .zero .zero .zero .zero) :=
    requestBindings_idle rfl
  have hcycles : mutualResults.cycleDefects =
      [.circular (some "s2") ["bonus", "share", "bonus"]] := by rfl
  have hreported :
      .circular (some "s2") ["bonus", "share", "bonus"] ∈ mutualResults.defects {} := by
    refine (mem_cycleDefects_iff.mp ?_).1
    rw [hcycles]
    exact List.mem_singleton_self _
  have hnumeral : ∀ name ∈ ["bonus", "share", "bonus"], Outlook.numeral? name = none := by
    decide +kernel
  have hfirst : ∀ s, mutualResults.steps.find? (·.result ∈ ["bonus", "share", "bonus"]) = some s →
      (∀ t ∈ mutualResults.steps, t.result = s.result → t = s) ∨
        ∃ next ∈ ["bonus", "share", "bonus"], s.operation.Mentions next := by
    intro s hs
    cases hs
    left
    simp [mutualResults]
  exact ⟨hb, hreported, hnumeral, hfirst, evaluate_of_circular hb hreported hnumeral hfirst⟩

def raised : Formula where
  steps :=
    [{ id := "s1", name := "Start", result := "pay", operation := .literal .one },
      { id := "s2", name := "Raise", result := "pay"
        operation := .apply .add [.reference "pay", .literal .one] }]
  output := "pay"

/-- The circle is reported, and yet the formula has an answer. -/
theorem succeeded_raised :
    (∃ e ∈ (raised.review {}).errors, e.IsCircular) ∧
      ∃ b e, raised.requestBindings .idle = .ok b ∧ raised.evaluate {} b = .ok e ∧
        e.succeeded = true ∧ e.result.value = 2 := by
  have herrors : (raised.review {}).errors =
      [(Defect.circular (some "s1") ["pay", "pay"]).finding] := by rfl
  constructor
  · rw [herrors]
    exact ⟨_, List.mem_singleton_self _, Defect.finding_isCircular_iff.mpr rfl⟩
  · have hanswer : (raised.evaluate {} (Bindings.seeded .zero .zero .zero .zero)).toOption.map
        (fun e => (e.succeeded, e.result.value)) = some (true, 2) := by decide +kernel
    obtain ⟨e, he, hvalue⟩ := exists_ok_of_toOption_map hanswer
    rw [Prod.mk.injEq] at hvalue
    exact ⟨_, e, requestBindings_idle rfl, he, hvalue⟩

end Formula

end Payroll
