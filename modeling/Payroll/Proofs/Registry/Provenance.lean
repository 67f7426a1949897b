import Payroll.Proofs.Registry.Batch

/-!
# Where answers come from

An answer is computed for its request, or it was computed earlier in the session for a request of
the same calculator with an equal key, and nothing has removed it since. A batch during which a
store forgets is a session that calculates its rows one by one.
-/

set_option autoImplicit false

namespace Payroll

open ResultCache

def Payslip.IsOf (r : Request) (p : Payslip) : Prop :=
  p.employeeId = r.employee.id ∧ p.period = r.period

theorem Payslip.IsFailure.isOf {r : Request} {p : Payslip} (h : p.IsFailure r) : p.IsOf r := by
  obtain ⟨message, trace, rfl⟩ := h
  exact ⟨rfl, rfl⟩

theorem Payslip.isFailure_failure (r : Request) (message : String) :
    (failure r message).IsFailure r := ⟨message, none, rfl⟩

namespace Calculator

variable {c : Calculator} {r r' : Request} {p : Payslip}

theorem isOf_of_answer (h : c.answer r = .ok p) : p.IsOf r := by
  unfold answer at h
  split at h
  · next p' hp' =>
    cases h
    rcases compute_eq_ok hp' with ⟨e, p', total, trace, he, rfl⟩ | hfailure
    · have hp' := Payslip.isAssembled_of_assemble he
      exact ⟨hp'.employeeId, hp'.period⟩
    · exact hfailure.isOf
  · cases h
    exact ⟨rfl, rfl⟩
  · cases h

theorem isFailure_of_answer (h : c.answer r = .ok p) (hp : p.succeeded = false) :
    p.IsFailure r := by
  unfold answer at h
  split at h
  · next p' hp' =>
    cases h
    rcases succeeded_or_isFailure hp' with hsucceeded | hfailure
    · rw [hp] at hsucceeded
      cases hsucceeded
    · exact hfailure
  · cases h
    exact Payslip.isFailure_failure _ _
  · cases h

theorem isOf_of_same (hkey : (c.key r').same (c.key r) = true) (h : p.IsOf r') : p.IsOf r := by
  obtain ⟨hemployee, -, -, hperiod⟩ := Key.same_iff.mp hkey
  have hemployee' : r'.employee.id = r.employee.id := by
    unfold key at hemployee
    split at hemployee <;> exact hemployee
  have hperiod' : r'.period = r.period := by
    unfold key at hperiod
    split at hperiod <;> exact hperiod
  exact ⟨h.1.trans hemployee', h.2.trans hperiod'⟩

theorem make_fresh {kind : PlanKind} {cache : Option CacheSettings} {formula : FormulaSettings}
    (h : make kind cache formula = .ok c) :
    (∀ s, c.cache = some s → s.entries = []) ∧ (c.kind = .formulaBased → c.cache = none) := by
  cases cache with
  | none =>
    cases h
    exact ⟨nofun, fun _ => rfl⟩
  | some settings =>
    obtain ⟨rfl, -, hnone | ⟨s, hs, hentries⟩⟩ := make_eq_ok h
    · refine ⟨fun s hs => ?_, fun _ => hnone⟩
      rw [hnone] at hs
      cases hs
    · refine ⟨fun s' hs' => ?_, fun hkind => ?_⟩
      · rw [hs] at hs'
        cases hs'
        exact hentries
      · rw [hkind] at h
        have hoff : make .formulaBased (some settings) formula =
            .ok { kind := .formulaBased, formula } := by
          unfold make
          simp
        rw [hoff] at h
        cases h
        rfl

end Calculator

namespace Registry

/-- The registries that registration makes of new calculators. -/
inductive Built : Registry → Prop where
  | empty : Built {}
  | register {g : Registry} {c : Calculator} (tag : String) {kind : PlanKind}
      {cache : Option CacheSettings} {formula : FormulaSettings} :
      Built g → Calculator.make kind cache formula = .ok c → Built (g.register tag c)
  | registerAll {g : Registry} {c : Calculator} (tags : List String) {kind : PlanKind}
      {cache : Option CacheSettings} {formula : FormulaSettings} :
      Built g → Calculator.make kind cache formula = .ok c → Built (g.registerAll tags c)
  /-- A calculator that has been registered before gets more tags. -/
  | registerAgain {g : Registry} {place : ℕ} (tags : List String) :
      Built g → place < g.calculators.length →
        Built { g with tags := pointAll g.tags tags place }
  | addAlias {g g' : Registry} (tag target : String) :
      Built g → g.addAlias tag target = .ok g' → Built g'

structure IsNew (g : Registry) : Prop where
  fresh : g.IsFresh
  formula : ∀ (i : ℕ) (c : Calculator), g.calculators[i]? = some c → c.kind = .formulaBased →
    c.cache = none

theorem IsNew.registerAll {g : Registry} (hg : g.IsNew) {c : Calculator} {kind : PlanKind}
    {cache : Option CacheSettings} {formula : FormulaSettings}
    (hc : Calculator.make kind cache formula = .ok c) (tags : List String) :
    (g.registerAll tags c).IsNew := by
  obtain ⟨hfresh, hformula⟩ := Calculator.make_fresh hc
  have hcases {i : ℕ} {d : Calculator} (hd : (g.registerAll tags c).calculators[i]? = some d) :
      g.calculators[i]? = some d ∨ d = c := by
    have hd : (g.calculators ++ [c])[i]? = some d := hd
    rw [List.getElem?_append] at hd
    split at hd
    · exact .inl hd
    · exact .inr (List.mem_singleton.mp (List.mem_of_getElem? hd))
  constructor
  · intro i d s hd hs
    rcases hcases hd with hd | rfl
    · exact hg.fresh i d s hd hs
    · exact hfresh s hs
  · intro i d hd hkind
    rcases hcases hd with hd | rfl
    · exact hg.formula i d hd hkind
    · exact hformula hkind

theorem Built.isNew {g : Registry} (hg : g.Built) : g.IsNew := by
  induction hg with
  | empty => exact ⟨nofun, nofun⟩
  | register tag _ hc ih => exact ih.registerAll hc [tag]
  | registerAll tags _ hc ih => exact ih.registerAll hc tags
  | registerAgain _ _ _ ih => exact ⟨ih.fresh, ih.formula⟩
  | addAlias tag target _ hg' ih =>
    unfold Registry.addAlias at hg'
    split at hg'
    · cases hg'
      exact ⟨ih.fresh, ih.formula⟩
    · cases hg'

theorem built_standard {settings : Settings} {g : Registry} (h : standard settings = .ok g) :
    g.Built := by
  unfold standard at h
  obtain ⟨a, ha, h⟩ := bind_eq_ok h
  obtain ⟨b, hb, h⟩ := bind_eq_ok h
  obtain ⟨c, hc, h⟩ := bind_eq_ok h
  obtain ⟨d, hd, h⟩ := bind_eq_ok h
  cases h
  exact .registerAll formulaTags (.registerAll tieredTags (.registerAll commissionTags
    (.registerAll fixedTags .empty ha) hb) hc) hd

/-- How the answer that `h` gives to a request comes about, after the session of `g` with this
log. -/
structure Accounted (g : Registry) (past : List Occurrence) (h : Registry) (r : Request) :
    Prop where
  source : (h.calculate r).1 = g.afresh r ∨ ∃ p, g.Kept past r p ∧ (h.calculate r).1 = .ok p
  own : ∀ p, (h.calculate r).1 = .ok p → p.IsOf r
  failed : ∀ p, (h.calculate r).1 = .ok p → p.succeeded = false →
    g.afresh r = .ok p ∧ p.IsFailure r
  formula : ∀ c, g.calculator r.plan.type = .ok c → c.kind = .formulaBased →
    h.stored? r = none ∧ (h.calculate r).1 = g.afresh r

section
variable {g h : Registry} {past : List Occurrence} {r : Request} {p : Payslip}

theorem key_eq_ok {tag : String} {key : Key} (hkey : g.key tag r = .ok key) :
    ∃ c, g.calculator tag = .ok c ∧ key = c.key r := by
  unfold Registry.key at hkey
  obtain ⟨c, hc, hkey⟩ := bind_eq_ok hkey
  cases hkey
  exact ⟨c, hc, rfl⟩

/-- Requests with one place have one calculator, and an equal key names the same employee. -/
theorem Kept.isOf (hp : g.Kept past r p) : p.IsOf r := by
  obtain ⟨i, key, key', hplace, hkey, hsame, _, r', _, -, hplace', hkey', hanswer, -⟩ := hp
  obtain ⟨c, hc, rfl⟩ := key_eq_ok hkey
  obtain ⟨c', hc', rfl⟩ := key_eq_ok hkey'
  obtain ⟨j, hj, hget⟩ := calculator_eq_ok hc
  obtain ⟨j', hj', hget'⟩ := calculator_eq_ok hc'
  obtain rfl : i = j := Option.some.inj (hplace.symm.trans hj)
  obtain rfl : i = j' := Option.some.inj (hplace'.symm.trans hj')
  obtain rfl : c = c' := Option.some.inj (hget.symm.trans hget')
  rw [afresh_of_ok hc'] at hanswer
  exact Calculator.isOf_of_same hsame (Calculator.isOf_of_answer hanswer)

theorem Kept.succeeded (hp : g.Kept past r p) : p.succeeded = true := by
  obtain ⟨i, key, key', -, -, -, _, r', _, -, -, -, -, hsucceeded, -⟩ := hp
  exact hsucceeded

theorem isOf_of_afresh (hp : g.afresh r = .ok p) : p.IsOf r := by
  unfold afresh at hp
  split at hp
  · exact Calculator.isOf_of_answer hp
  · cases hp
    exact ⟨rfl, rfl⟩

theorem isFailure_of_afresh (hp : g.afresh r = .ok p) (hfailed : p.succeeded = false) :
    p.IsFailure r := by
  unfold afresh at hp
  split at hp
  · exact Calculator.isFailure_of_answer hp hfailed
  · cases hp
    exact Payslip.isFailure_failure _ _

theorem IsNew.stored?_of_formula (hg : g.IsNew) (hgh : g.SameShape h) {c : Calculator}
    (hc : g.calculator r.plan.type = .ok c) (hkind : c.kind = .formulaBased) :
    h.stored? r = none := by
  obtain ⟨i, -, hget⟩ := calculator_eq_ok hc
  obtain ⟨d, hd, hdc⟩ := hgh.symm.exists_calculator hc
  obtain ⟨-, -, hcache⟩ := Calculator.mk.inj hdc
  rw [hg.formula i c hget hkind] at hcache
  rw [stored?_of_ok hd]
  unfold Calculator.stored?
  rw [Option.map_eq_none_iff.mp hcache]
  rfl

theorem Records.accounted (hrec : g.Records past h) (hg : g.IsNew) (r : Request) :
    g.Accounted past h r := by
  have hformula (c : Calculator) (hc : g.calculator r.plan.type = .ok c)
      (hkind : c.kind = .formulaBased) :
      h.stored? r = none ∧ (h.calculate r).1 = g.afresh r := by
    have hnone := hg.stored?_of_formula hrec.shape hc hkind
    exact ⟨hnone, hrec.calculate_of_not_stored hnone⟩
  cases hstored : h.stored? r with
  | none =>
    have hnew := hrec.calculate_of_not_stored hstored
    refine ⟨.inl hnew, fun p hp => ?_, fun p hp hfailed => ?_, hformula⟩
    · exact isOf_of_afresh (hnew.symm.trans hp)
    · have hp := hnew.symm.trans hp
      exact ⟨hp, isFailure_of_afresh hp hfailed⟩
  | some p =>
    obtain ⟨hkept, -⟩ := hrec.kept hstored
    have hfound := calculate_of_stored hstored
    refine ⟨.inr ⟨p, hkept, hfound⟩, fun p' hp' => ?_, fun p' hp' hfailed => ?_, hformula⟩
    · cases hfound.symm.trans hp'
      exact hkept.isOf
    · cases hfound.symm.trans hp'
      rw [hkept.succeeded] at hfailed
      cases hfailed

end

/-- Every answer of a session of a registry as it was built, by itself or as a row of a batch, is
accounted for by the log of what came before it. -/
theorem sessions_accounted {g : Registry} (hg : g.Built) (events : List Event) :
    (∀ r, g.Accounted (g.log events) (g.after events) r) ∧
      ∀ rs ps, ((g.after events).calculateAll rs).1 = .ok ps →
        ps.length = rs.length ∧ ∀ i r, rs[i]? = some r →
          ∃ p events', ps[i]? = some p ∧ events' = events ++ [.calculateAll (rs.take i)] ∧
            ((g.after events').calculate r).1 = .ok p ∧
              g.Accounted (g.log events') (g.after events') r := by
  have haccounted (events : List Event) (r : Request) :
      g.Accounted (g.log events) (g.after events) r :=
    (hg.isNew.fresh.records_after events).accounted hg.isNew r
  refine ⟨haccounted events, fun rs ps hps => ?_⟩
  obtain ⟨hlength, hrows⟩ := row_of_calculateAll_after hps
  refine ⟨hlength, fun i r hr => ?_⟩
  obtain ⟨p, hp, hrow⟩ := hrows i r hr
  exact ⟨p, events ++ [.calculateAll (rs.take i)], hp, rfl, hrow, haccounted _ r⟩

theorem sessions_accounted_thresholdRequest :
    ∃ g, standard {} = .ok g ∧ g.Built ∧
      let events : List Event := [.calculate (thresholdRequest "e1" "0"), .clear "salary"]
      g.Accounted (g.log events) (g.after events) (thresholdRequest "e1" "0") := by
  obtain ⟨g, hg, -⟩ := exists_standard_of_keeps (show ({} : Settings).cache.Keeps by decide)
  have hbuilt := built_standard hg
  exact ⟨g, hg, hbuilt, (sessions_accounted hbuilt _).1 _⟩

end Registry

end Payroll
