import Payroll.Calculator
import Payroll.Proofs.Formula.Findings
import Payroll.Proofs.Formula.Unread
import Payroll.Proofs.Formula.Validity

/-!
# Unused variables

A review warns of variables that no step refers to and that are not the answer. How such a variable
is declared has no part in what the formula computes. But a payslip reads three names itself, and a
variable of one of these is shown as an item, used or not.
-/

set_option autoImplicit false

namespace Payroll

namespace Formula

/-- Two formulas that differ in how the variables of one name are declared. -/
structure SameBut (name : String) (f f' : Formula) : Prop where
  declared : List.Forall₂ (fun v v' => v = v' ∨ v.name = name ∧ v'.name = name)
    f.declared f'.declared
  steps : f.steps = f'.steps
  output : f.output = f'.output

def declaredValue (f : Formula) (r : Request) (name : String) : Decimal :=
  ((f.declared.reverse.map fun v => (v.name, v.valueIn r)).lookup name).getD .zero

end Formula

def Pay.itemNames : List String := [baseName, commissionName, targetBonusName]

/-- A payslip reads this name, and finds what is declared for it, because no step binds it. -/
def Formula.ShowsAsItem (f : Formula) (name : String) : Prop :=
  name ∈ Pay.itemNames ∧ ¬∃ s ∈ f.steps, s.result = name

def EitherPays (x y : Except Halt Payslip) : Prop :=
  ∃ p, (x = .ok p ∨ y = .ok p) ∧ p.succeeded = true

theorem Bindings.get?_bindAll {b : Bindings} {name : String} {more : List (String × Decimal)} :
    (b.bindAll more).get? name = (more.reverse.lookup name).or (b.get? name) := by
  induction more generalizing b with
  | nil => rfl
  | cons entry rest ih =>
    obtain ⟨n, v⟩ := entry
    have hcons : b.bindAll ((n, v) :: rest) = (b.bind n v).bindAll rest := rfl
    rw [hcons, ih, get?_bind, List.reverse_cons, List.lookup_append, Option.or_assoc]
    by_cases h : name = n
    · simp [h]
    · simp [h, List.lookup_cons, beq_false_of_ne h]

theorem Bindings.SameBut.bindVariables {name : String} {b c : Bindings} (h : b.SameBut name c)
    (r : Request) {vs vs' : List Variable}
    (hvs : List.Forall₂ (fun v v' => v = v' ∨ v.name = name ∧ v'.name = name) vs vs') :
    (b.bindAll (vs.map fun v => (v.name, v.valueIn r))).SameBut name
      (c.bindAll (vs'.map fun v => (v.name, v.valueIn r))) := by
  induction hvs generalizing b c with
  | nil => exact h
  | @cons v v' rest rest' hv _ ih =>
    rw [List.map_cons, List.map_cons]
    rcases hv with rfl | ⟨hname, hname'⟩
    · exact ih (h.bind v.name (v.valueIn r))
    · rw [hname, hname']
      exact ih (h.bind_name (v.valueIn r) (v'.valueIn r))

namespace Formula

variable {f f' : Formula} {r : Request} {name : String} {b : Bindings}

theorem requestBindings_eq_map (f : Formula) (r : Request) :
    f.requestBindings r = (({} : Formula).requestBindings r).map
      (·.bindAll (f.declared.map fun v => (v.name, v.valueIn r))) := by
  unfold requestBindings
  cases r.bonusTotal with
  | error cause => rfl
  | ok bonuses =>
    cases r.deductionsTotal with
    | error cause => rfl
    | ok deductions => cases r.loansTotal <;> rfl

theorem valueOrZero_of_requestBindings (hb : f.requestBindings r = .ok b)
    (hname : name ∈ f.declared.map (·.name)) : b.valueOrZero name = f.declaredValue r name := by
  rw [requestBindings_eq_map] at hb
  cases hseeded : ({} : Formula).requestBindings r with
  | error cause =>
    rw [hseeded] at hb
    cases hb
  | ok seeded =>
    rw [hseeded] at hb
    cases hb
    obtain ⟨v, hv, rfl⟩ := List.mem_map.mp hname
    have hmem : (v.name, v.valueIn r) ∈ f.declared.reverse.map fun v => (v.name, v.valueIn r) :=
      List.mem_map_of_mem (List.mem_reverse.mpr hv)
    have hsome :
        ((f.declared.reverse.map fun v => (v.name, v.valueIn r)).lookup v.name).isSome := by
      rw [List.lookup_isSome_iff]
      exact ⟨_, hmem, by simp⟩
    unfold Bindings.valueOrZero declaredValue
    rw [Bindings.get?_bindAll, ← List.map_reverse, Option.or_of_isSome hsome]

theorem SameBut.map_name (h : f.SameBut name f') :
    f.declared.map (·.name) = f'.declared.map (·.name) := by
  rw [← List.forall₂_eq_eq_eq, List.forall₂_map_left_iff, List.forall₂_map_right_iff]
  refine h.declared.imp fun v v' hv => ?_
  rcases hv with rfl | ⟨hname, hname'⟩
  · rfl
  · rw [hname, hname']

theorem SameBut.requestBindings (h : f.SameBut name f') (r : Request) :
    (∃ cause, f.requestBindings r = .error cause ∧ f'.requestBindings r = .error cause) ∨
      ∃ b c, f.requestBindings r = .ok b ∧ f'.requestBindings r = .ok c ∧ b.SameBut name c := by
  rw [requestBindings_eq_map f, requestBindings_eq_map f']
  cases ({} : Formula).requestBindings r with
  | error cause => exact .inl ⟨cause, rfl, rfl⟩
  | ok seeded =>
    have hseeded := Bindings.SameBut.refl name seeded
    exact .inr ⟨_, _, rfl, rfl, hseeded.bindVariables r h.declared⟩

end Formula

namespace Pay

variable {f f' : Formula} {e e' : Evaluation} {name : String}

theorem evaluationEarnings_congr (houtput : f.output = f'.output) (hresult : e.result = e'.result)
    (hbase : (evaluationEarnings f e).base = (evaluationEarnings f' e').base)
    (hcommission : (evaluationEarnings f e).commission = (evaluationEarnings f' e').commission)
    (htargetBonus : (evaluationEarnings f e).targetBonus = (evaluationEarnings f' e').targetBonus) :
    evaluationEarnings f e = evaluationEarnings f' e' := by
  unfold evaluationEarnings at hbase hcommission htargetBonus ⊢
  dsimp only at hbase hcommission htargetBonus ⊢
  rw [hbase, hcommission, htargetBonus, houtput, hresult]

/-- Where one name differs, earnings differ if it is an item. -/
theorem evaluationEarnings_eq_iff (houtput : f.output = f'.output) (he : e.SameBut name e') :
    evaluationEarnings f e = evaluationEarnings f' e' ↔
      (name ∈ itemNames → e.valueOrZero name = e'.valueOrZero name) := by
  constructor
  · intro h hname
    simp only [itemNames, List.mem_cons, List.not_mem_nil, or_false] at hname
    rcases hname with rfl | rfl | rfl
    · exact congrArg Earnings.base h
    · exact congrArg Earnings.commission h
    · exact congrArg Earnings.targetBonus h
  · intro h
    have hitem : ∀ item ∈ itemNames, e.valueOrZero item = e'.valueOrZero item := by
      intro item hitem
      by_cases hname : item = name
      · subst hname
        exact h hitem
      · unfold Evaluation.valueOrZero Bindings.valueOrZero
        rw [he.bindings item hname]
    exact evaluationEarnings_congr houtput he.result (hitem baseName (by simp [itemNames]))
      (hitem commissionName (by simp [itemNames])) (hitem targetBonusName (by simp [itemNames]))

end Pay

namespace Payslip

variable {r : Request} {e e' : Earnings} {p p' : Payslip}

theorem error_eq_of_assemble {cause cause' : PayError} (h : assemble r e = .error cause)
    (h' : assemble r e' = .error cause') : cause = cause' := by
  unfold assemble at h h'
  cases hbonuses : r.bonusTotal with
  | error _ =>
    rw [hbonuses] at h h'
    cases h
    cases h'
    rfl
  | ok bonuses =>
  cases hdeductions : r.deductionsTotal with
  | error _ =>
    rw [hbonuses, hdeductions] at h h'
    cases h
    cases h'
    rfl
  | ok deductions =>
  cases hloans : r.loansTotal with
  | error _ =>
    rw [hbonuses, hdeductions, hloans] at h h'
    cases h
    cases h'
    rfl
  | ok loans =>
    rw [hbonuses, hdeductions, hloans] at h h'
    dsimp only [bind, Except.bind] at h h'
    split at h
    · split at h'
      · cases h
        cases h'
        rfl
      · cases h'
    · cases h

end Payslip

namespace Pay

def settled (r : Request) (total : Decimal) (trace : Trace) (e : Earnings) : Except Halt Payslip :=
  (Halt.ofError (Payslip.assemble r e)).map fun p => (p.withTotal total).withTrace trace

variable {r : Request} {total : Decimal} {trace : Trace} {e e' : Earnings}

theorem items_of_settled {p : Payslip} (h : settled r total trace e = .ok p) :
    p.base = e.base ∧ p.commission = e.commission ∧ p.targetBonus = e.targetBonus := by
  unfold settled at h
  cases hassemble : Payslip.assemble r e with
  | error cause =>
    rw [hassemble] at h
    cases h
  | ok assembled =>
    rw [hassemble] at h
    cases h
    obtain ⟨_, _, _, _, -, -, -, -, rfl⟩ := Payslip.assemble_eq_ok hassemble
    exact ⟨rfl, rfl, rfl⟩

theorem settled_cases (r : Request) (total : Decimal) (trace : Trace) (e : Earnings) :
    (∃ p, settled r total trace e = .ok p ∧ p.succeeded = true) ∨
      ∃ cause, settled r total trace e = .error (.error cause) ∧
        Payslip.assemble r e = .error cause := by
  unfold settled
  cases hassemble : Payslip.assemble r e with
  | error cause => exact .inr ⟨cause, rfl, rfl⟩
  | ok p => exact .inl ⟨_, rfl, (Payslip.succeeded_of_assemble hassemble).1⟩

theorem settled_eq_iff (hitems : e.base = e'.base → e.commission = e'.commission →
      e.targetBonus = e'.targetBonus → e = e') :
    settled r total trace e = settled r total trace e' ↔
      (EitherPays (settled r total trace e) (settled r total trace e') → e = e') := by
  constructor
  · rintro heq ⟨p, hp, -⟩
    rw [heq, or_self] at hp
    obtain ⟨hbase, hcommission, htargetBonus⟩ := items_of_settled (heq.trans hp)
    obtain ⟨hbase', hcommission', htargetBonus'⟩ := items_of_settled hp
    exact hitems (hbase.symm.trans hbase') (hcommission.symm.trans hcommission')
      (htargetBonus.symm.trans htargetBonus')
  · intro h
    rcases settled_cases r total trace e with ⟨p, hp, hsucceeded⟩ | ⟨cause, hcause, hassemble⟩
    · rw [h ⟨p, .inl hp, hsucceeded⟩]
    rcases settled_cases r total trace e' with
      ⟨p', hp', hsucceeded⟩ | ⟨cause', hcause', hassemble'⟩
    · rw [h ⟨p', .inr hp', hsucceeded⟩]
    · rw [hcause, hcause', Payslip.error_eq_of_assemble hassemble hassemble']

/-- A formula pays the same whatever a name is bound to that it neither refers to nor answers with,
unless the payslip shows the name. -/
theorem formulaic_eq_iff {settings : FormulaSettings} {r : Request} {config : Json}
    {f f' : Formula} {b b' : Bindings} {name : String} (hplan : Formula.ofPlan r.plan = .ok f)
    (hplan' : Formula.ofPlan (r.withConfig config).plan = .ok f')
    (hb : f.requestBindings r = .ok b) (hb' : f'.requestBindings (r.withConfig config) = .ok b')
    (hsame : f.SameBut name f') (hbb' : b.SameBut name b')
    (hunread : ∀ s ∈ f.steps, name ∉ s.operation.references) (houtput : f.output ≠ name) :
    formulaic settings r = formulaic settings (r.withConfig config) ↔
      (EitherPays (formulaic settings r) (formulaic settings (r.withConfig config)) →
        f.ShowsAsItem name → b.valueOrZero name = b'.valueOrZero name) := by
  -- Payslips do not show the configuration.
  have hfailure (message : String) :
      Payslip.failure (r.withConfig config) message = Payslip.failure r message := rfl
  have hassemble (e : Earnings) :
      Payslip.assemble (r.withConfig config) e = Payslip.assemble r e := rfl
  obtain ⟨e, e', he, he', hee', hname⟩ :=
    Formula.exists_evaluate_sameBut settings hunread houtput hbb'
  have he' : f'.evaluate settings b' = .ok e' := by
    unfold Formula.evaluate at he' ⊢
    rw [← hsame.steps, ← hsame.output]
    exact he'
  rw [formulaic_of_evaluate hplan hb he, formulaic_of_evaluate hplan' hb' he', ← hee'.error,
    ← hee'.trace, ← hee'.result]
  simp only [hfailure, hassemble]
  cases herror : e.error with
  | some cause =>
    refine iff_of_true rfl ?_
    rintro ⟨p, h | h, hsucceeded⟩ <;> cases h <;> cases hsucceeded
  | none =>
    have hshown : evaluationEarnings f e = evaluationEarnings f' e' ↔
        (f.ShowsAsItem name → b.valueOrZero name = b'.valueOrZero name) := by
      rw [evaluationEarnings_eq_iff hsame.output hee', hname herror, Formula.ShowsAsItem, and_imp]
      exact imp_congr_right fun _ => or_iff_not_imp_left
    rw [← hshown]
    exact settled_eq_iff (evaluationEarnings_congr hsame.output hee'.result)

end Pay

/-- However a variable is declared that a review calls unused, one thing is paid. The exception is a
variable that the payslip shows as an item, if a payslip is made at all. -/
theorem Calculator.compute_eq_iff_of_unused {c : Calculator} (hc : c.kind = .formulaBased)
    {r : Request} {config : Json} {f f' : Formula} {name : String} {review : FormulaSettings}
    (hplan : Formula.ofPlan r.plan = .ok f)
    (hplan' : Formula.ofPlan (r.withConfig config).plan = .ok f')
    (hwarned : (Concern.unusedVariable name).finding ∈ (Formula.reviewPlan review r.plan).warnings)
    (hsame : f.SameBut name f') :
    c.compute r = c.compute (r.withConfig config) ↔
      (EitherPays (c.compute r) (c.compute (r.withConfig config)) → f.ShowsAsItem name →
        f.declaredValue r name = f'.declaredValue r name) := by
  have hreview : Formula.reviewPlan review r.plan = f.review review := by
    unfold Formula.reviewPlan
    rw [hplan]
  rw [hreview, Formula.warns_unused_iff] at hwarned
  obtain ⟨hdeclared, hunread, houtput⟩ := hwarned
  have hdeclared : name ∈ f.declared.map (·.name) := List.mem_map.mpr hdeclared
  have hcompute (r : Request) : c.compute r = Pay.formulaic c.formula r := by
    unfold compute
    rw [hc]
  have hbound : f'.requestBindings (r.withConfig config) = f'.requestBindings r := rfl
  rw [hcompute, hcompute]
  rcases hsame.requestBindings r with ⟨cause, hb, hb'⟩ | ⟨b, b', hb, hb', hbb'⟩
  · rw [Pay.formulaic_of_bindings_error hplan hb,
      Pay.formulaic_of_bindings_error hplan' (hbound.trans hb')]
    refine iff_of_true rfl ?_
    rintro ⟨p, h | h, -⟩ <;> cases h
  · rw [← Formula.valueOrZero_of_requestBindings hb hdeclared,
      ← Formula.valueOrZero_of_requestBindings hb' (hsame.map_name ▸ hdeclared)]
    exact Pay.formulaic_eq_iff hplan hplan' hb (hbound.trans hb') hsame hbb' hunread houtput

def constantFormula (name : String) (value : Decimal) : Formula where
  declared := [{ name, default := value }]
  steps := [{ id := "s1", name := "Pay", operation := .literal .one, result := "pay" }]
  output := "pay"

theorem sameBut_constantFormula (name : String) (v w : Decimal) :
    (constantFormula name v).SameBut name (constantFormula name w) :=
  ⟨.cons (.inr ⟨rfl, rfl⟩) .nil, rfl, rfl⟩

def constantConfig (name amount : String) : Json :=
  .object
    [("variables", .array
        [.object [("name", .string name), ("defaultValue", .string amount)]]),
      ("steps", .array
        [.object
          [("id", .string "s1"), ("name", .string "Pay"), ("operation", .string "1"),
            ("result", .string "pay")]]),
      ("outputVariable", .string "pay")]

def constantRequest (name amount : String) : Request where
  employee := { id := "e1" }
  plan := { id := "p1", type := "formula", name := "Plan", config := constantConfig name amount }
  period := "2024-01"

theorem Calculator.compute_eq_constantRequest :
    Formula.ofPlan (constantRequest "rate" "1").plan = .ok (constantFormula "rate" .one) ∧
      Formula.ofPlan ((constantRequest "rate" "1").withConfig (constantConfig "rate" "100")).plan =
        .ok (constantFormula "rate" .hundred) ∧
      (Concern.unusedVariable "rate").finding ∈
        (Formula.reviewPlan {} (constantRequest "rate" "1").plan).warnings ∧
      (constantFormula "rate" .one).SameBut "rate" (constantFormula "rate" .hundred) ∧
      ({ kind := .formulaBased } : Calculator).compute (constantRequest "rate" "1") =
        ({ kind := .formulaBased } : Calculator).compute
          ((constantRequest "rate" "1").withConfig (constantConfig "rate" "100")) := by
  have hwarned : (Concern.unusedVariable "rate").finding ∈
      (Formula.reviewPlan {} (constantRequest "rate" "1").plan).warnings := by decide +kernel
  have hsame := sameBut_constantFormula "rate" .one .hundred
  refine ⟨by rfl, by rfl, hwarned, hsame, ?_⟩
  refine (compute_eq_iff_of_unused rfl rfl rfl hwarned hsame).mpr ?_
  rintro - ⟨hitem, -⟩
  exact absurd hitem (by decide)

/-- The base salary is a variable that the review calls unused, and the payslip shows it. -/
theorem Calculator.compute_ne_constantRequest :
    Formula.ofPlan (constantRequest "baseSalary" "1").plan =
        .ok (constantFormula "baseSalary" .one) ∧
      Formula.ofPlan
          ((constantRequest "baseSalary" "1").withConfig (constantConfig "baseSalary" "100")).plan =
        .ok (constantFormula "baseSalary" .hundred) ∧
      (Concern.unusedVariable "baseSalary").finding ∈
        (Formula.reviewPlan {} (constantRequest "baseSalary" "1").plan).warnings ∧
      (constantFormula "baseSalary" .one).SameBut "baseSalary"
        (constantFormula "baseSalary" .hundred) ∧
      ({ kind := .formulaBased } : Calculator).compute (constantRequest "baseSalary" "1") ≠
        ({ kind := .formulaBased } : Calculator).compute
          ((constantRequest "baseSalary" "1").withConfig (constantConfig "baseSalary" "100")) := by
  refine ⟨by rfl, by rfl, by decide +kernel, sameBut_constantFormula _ _ _, fun heq => ?_⟩
  have hbase := congrArg (fun answer => answer.toOption.map fun p => p.base.value) heq
  revert hbase
  decide +kernel

end Payroll
