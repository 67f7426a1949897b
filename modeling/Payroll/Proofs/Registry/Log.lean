import Payroll.Proofs.Outcome
import Payroll.Proofs.Registry.Session

/-!
# Logs of sessions

The log of a session has every answer and every removal in order. One invariant ties the stores to
it: only a store that keeps what it is given holds anything, and each payslip in it was computed
in the session and has not been removed since. It survives whatever can happen to a registry, also
when a store forgets.
-/

set_option autoImplicit false

namespace Payroll

open ResultCache

namespace Calculator

variable {c d : Calculator} {r : Request} {p : Payslip}

def stored? (c : Calculator) (r : Request) : Option Payslip := c.cache.bind (·.find? (c.key r))

theorem calculate_of_stored (h : c.stored? r = some p) : (c.calculate r).1 = .ok p := by
  obtain ⟨s, hcache, hfind⟩ := Option.bind_eq_some_iff.mp h
  exact calculate_of_find hcache hfind

theorem calculate_of_not_stored (h : c.stored? r = none) : (c.calculate r).1 = c.answer r := by
  rcases c.calculate_cases r with ⟨-, heq⟩ | ⟨s, p, hcache, hfind, -⟩ | ⟨s, s', -, -, -, heq⟩
  · rw [heq]
  · unfold stored? at h
    rw [hcache, Option.bind_some, hfind] at h
    cases h
  · rw [heq]
    cases c.answer r <;> rfl

theorem answer_of_emptied_eq (h : d.emptied = c.emptied) : d.answer = c.answer := by
  obtain ⟨hkind, hformula, -⟩ := Calculator.mk.inj h
  exact answer_eq hkind hformula

theorem key_of_emptied_eq (h : d.emptied = c.emptied) : d.key = c.key := by
  obtain ⟨hkind, -, -⟩ := Calculator.mk.inj h
  funext r
  unfold key
  rw [hkind]

end Calculator

namespace Registry

def stored? (g : Registry) (r : Request) : Option Payslip :=
  (g.calculator r.plan.type).toOption.bind (·.stored? r)

/-- The answer to a request without stores. -/
def afresh (g : Registry) (r : Request) : Except Abort Payslip :=
  match g.calculator r.plan.type with
  | .ok c => c.answer r
  | .error cause => .ok (.failure r cause.message)

inductive Occurrence where
  /-- A request, its answer, and whether that was found in a store. -/
  | answered (r : Request) (outcome : Except Abort Payslip) (found : Bool)
  | cleared (tag : String)
  | invalidated (tag : String) (r : Request)

def occurrence (g : Registry) (r : Request) : Occurrence :=
  .answered r (g.calculate r).1 (g.stored? r).isSome

def rows (g : Registry) : List Request → List Occurrence
  | [] => []
  | r :: rest =>
    match (g.calculate r).1 with
    | .ok _ => g.occurrence r :: (g.calculate r).2.rows rest
    | .error _ => [g.occurrence r]

def occurrences (g : Registry) : Event → List Occurrence
  | .calculate r => [g.occurrence r]
  | .calculateAll rs => g.rows rs
  | .clear tag => [.cleared tag]
  | .invalidate tag r => [.invalidated tag r]
  | .forget _ _ => []

def log (g : Registry) : List Event → List Occurrence
  | [] => []
  | e :: rest => g.occurrences e ++ (g.apply e).log rest

/-- Whether an occurrence removes what the calculator at a place has stored under a key. -/
def Occurrence.Removes (g : Registry) (place : ℕ) (key : Key) : Occurrence → Prop
  | answered _ _ _ => False
  | cleared tag => g.place? tag = some place
  | invalidated tag r => g.place? tag = some place ∧
      ∃ removed, g.key tag r = .ok removed ∧ removed.same key = true

/-- A payslip was computed in the session by the calculator at a place, for a request with this key,
and nothing has removed it since. -/
def Computed (g : Registry) (past : List Occurrence) (place : ℕ) (key : Key) (p : Payslip) : Prop :=
  ∃ before r between, past = before ++ .answered r (.ok p) false :: between ∧
    g.place? r.plan.type = some place ∧ g.key r.plan.type r = .ok key ∧
      g.afresh r = .ok p ∧ p.succeeded = true ∧ ∀ o ∈ between, ¬o.Removes g place key

/-- A payslip that the calculator of a request computed earlier under an equal key. -/
def Kept (g : Registry) (past : List Occurrence) (r : Request) (p : Payslip) : Prop :=
  ∃ place key key', g.place? r.plan.type = some place ∧ g.key r.plan.type r = .ok key ∧
    key'.same key = true ∧ g.Computed past place key' p

section
variable {g h : Registry} {tag : String} {r : Request} {p : Payslip} {c : Calculator}
  {cause : PayError}

theorem calculate_of_ok (hc : g.calculator r.plan.type = .ok c) :
    (g.calculate r).1 = (c.calculate r).1 := by
  obtain ⟨i, hplace, hget⟩ := calculator_eq_ok hc
  rw [calculate_of_place hplace hget]

theorem stored?_of_ok (hc : g.calculator r.plan.type = .ok c) : g.stored? r = c.stored? r := by
  unfold stored?
  rw [hc]
  rfl

theorem stored?_eq_some (hp : h.stored? r = some p) :
    ∃ c, h.calculator r.plan.type = .ok c ∧ c.stored? r = some p := by
  unfold stored? at hp
  obtain ⟨c, hc, hp⟩ := Option.bind_eq_some_iff.mp hp
  cases hcalc : h.calculator r.plan.type with
  | error cause =>
    rw [hcalc] at hc
    cases hc
  | ok c' =>
    rw [hcalc] at hc
    cases hc
    exact ⟨c, rfl, hp⟩

theorem calculate_of_stored (hp : h.stored? r = some p) : (h.calculate r).1 = .ok p := by
  obtain ⟨c, hc, hp⟩ := stored?_eq_some hp
  rw [calculate_of_ok hc, Calculator.calculate_of_stored hp]

theorem afresh_of_ok (hc : g.calculator r.plan.type = .ok c) : g.afresh r = c.answer r := by
  unfold afresh
  rw [hc]

theorem afresh_of_error (hc : g.calculator r.plan.type = .error cause) :
    g.afresh r = .ok (.failure r cause.message) := by
  unfold afresh
  rw [hc]

theorem key_of_ok (hc : g.calculator tag = .ok c) : g.key tag r = .ok (c.key r) := by
  unfold key
  rw [hc]
  rfl

theorem SameShape.symm (hgh : g.SameShape h) : h.SameShape g :=
  ⟨hgh.tags.symm, fun i => (hgh.calculators i).symm⟩

theorem SameShape.exists_calculator (hgh : g.SameShape h) (hc : h.calculator tag = .ok c) :
    ∃ d, g.calculator tag = .ok d ∧ d.emptied = c.emptied := by
  obtain ⟨i, hplace, hget⟩ := calculator_eq_ok hc
  have hi := hgh.calculators i
  unfold emptiedAt at hi
  rw [hget] at hi
  obtain ⟨d, hd, hdc⟩ := Option.map_eq_some_iff.mp hi.symm
  exact ⟨d, calculator_of_place ((hgh.place?_eq tag).symm.trans hplace) hd, hdc⟩

theorem SameShape.key_of_ok (hgh : g.SameShape h) (hc : h.calculator tag = .ok c) :
    g.key tag r = .ok (c.key r) := by
  obtain ⟨d, hd, hdc⟩ := hgh.exists_calculator hc
  rw [Registry.key_of_ok hd, Calculator.key_of_emptied_eq hdc]

theorem SameShape.afresh_of_ok (hgh : g.SameShape h) (hc : h.calculator r.plan.type = .ok c) :
    g.afresh r = c.answer r := by
  obtain ⟨d, hd, hdc⟩ := hgh.exists_calculator hc
  rw [Registry.afresh_of_ok hd, Calculator.answer_of_emptied_eq hdc]

theorem calculator_eq_error (hc : g.calculator tag = .error cause) :
    cause = .unknownPlanType tag := by
  unfold calculator at hc
  split at hc
  · cases hc
  · cases hc
    rfl

theorem SameShape.calculator_eq_error (hgh : g.SameShape h)
    (hc : h.calculator tag = .error cause) : g.calculator tag = .error cause := by
  cases hg : g.calculator tag with
  | ok d =>
    obtain ⟨c, hc', -⟩ := hgh.symm.exists_calculator hg
    rw [hc] at hc'
    cases hc'
  | error cause' =>
    rw [Registry.calculator_eq_error hc, Registry.calculator_eq_error hg]

theorem not_removes_occurrence {place : ℕ} {key : Key} :
    ¬(h.occurrence r).Removes g place key := by
  unfold occurrence Occurrence.Removes
  exact id

theorem mem_of_mem_rows {rs : List Request} {outcome : Except Abort Payslip} {found : Bool}
    (hr : .answered r outcome found ∈ g.rows rs) : r ∈ rs := by
  induction rs generalizing g with
  | nil => cases hr
  | cons r' rest ih =>
    unfold rows at hr
    split at hr
    · rcases List.mem_cons.mp hr with h | h
      · cases h
        exact List.mem_cons_self
      · exact List.mem_cons_of_mem r' (ih h)
    · cases List.mem_singleton.mp hr
      exact List.mem_cons_self

theorem mem_requests_of_mem_log {events : List Event} {outcome : Except Abort Payslip}
    {found : Bool} (hr : .answered r outcome found ∈ g.log events) :
    ∃ e ∈ events, r ∈ e.requests := by
  induction events generalizing g with
  | nil => cases hr
  | cons e rest ih =>
    rcases List.mem_append.mp hr with h | h
    · refine ⟨e, List.mem_cons_self, ?_⟩
      cases e with
      | calculate r' =>
        cases List.mem_singleton.mp h
        exact List.mem_singleton_self r
      | calculateAll rs => exact mem_of_mem_rows h
      | clear tag => cases List.mem_singleton.mp h
      | invalidate tag r' => cases List.mem_singleton.mp h
      | forget tag kept => cases h
    · obtain ⟨e', he', hr'⟩ := ih h
      exact ⟨e', List.mem_cons_of_mem e he', hr'⟩

end

def KeepsAt (g : Registry) (i : ℕ) : Prop :=
  ∃ c s, g.emptiedAt i = some c ∧ c.cache = some s ∧ s.keeps = true

/-- Nothing but stores has changed, and what they hold was computed in the session. -/
structure Records (g : Registry) (past : List Occurrence) (h : Registry) : Prop where
  shape : g.SameShape h
  stocked : h.Stocked fun i key p => g.KeepsAt i ∧ g.Computed past i key p

section
variable {g h : Registry} {past more : List Occurrence} {i : ℕ} {key : Key} {p : Payslip}
  {r : Request}

theorem SameShape.keepsAt (hgh : g.SameShape h) {c : Calculator} {s : ResultCache}
    (hc : h.calculators[i]? = some c) (hs : c.cache = some s) (hkeeps : s.keeps = true) :
    g.KeepsAt i := by
  refine ⟨c.emptied, { keeps := s.keeps }, ?_, ?_, hkeeps⟩
  · rw [← hgh.calculators]
    unfold emptiedAt
    rw [hc]
    rfl
  · unfold Calculator.emptied
    rw [hs]
    rfl

theorem Computed.append (hp : g.Computed past i key p)
    (hmore : ∀ o ∈ more, ¬o.Removes g i key) : g.Computed (past ++ more) i key p := by
  obtain ⟨before, r, between, rfl, hplace, hkey, hanswer, hsucceeded, hbetween⟩ := hp
  refine ⟨before, r, between ++ more, ?_, hplace, hkey, hanswer, hsucceeded, ?_⟩
  · rw [List.append_assoc, List.cons_append]
  · exact fun o ho => (List.mem_append.mp ho).elim (hbetween o) (hmore o)

theorem IsFresh.records (hg : g.IsFresh) : g.Records [] g := by
  refine ⟨.refl g, fun i c hc s hs e he => ?_⟩
  rw [hg i c s hc hs] at he
  cases he

theorem Records.calculate_of_not_stored (hrec : g.Records past h) (hnone : h.stored? r = none) :
    (h.calculate r).1 = g.afresh r := by
  cases hc : h.calculator r.plan.type with
  | error cause =>
    rw [calculate_of_error hc, afresh_of_error (hrec.shape.calculator_eq_error hc)]
  | ok c =>
    rw [stored?_of_ok hc] at hnone
    rw [calculate_of_ok hc, Calculator.calculate_of_not_stored hnone,
      hrec.shape.afresh_of_ok hc]

/-- The step lemma for calculations: what is stored is an answer that was not found. -/
theorem Records.calculate (hrec : g.Records past h) (r : Request) :
    g.Records (past ++ [h.occurrence r]) (h.calculate r).2 := by
  have hold : h.Stocked fun i key p =>
      g.KeepsAt i ∧ g.Computed (past ++ [h.occurrence r]) i key p := by
    intro i c hc s hs e he
    obtain ⟨hkeeps, hcomputed⟩ := hrec.stocked i c hc s hs e he
    refine ⟨hkeeps, hcomputed.append fun o ho => ?_⟩
    rw [List.mem_singleton.mp ho]
    exact not_removes_occurrence
  refine ⟨hrec.shape.trans (h.sameShape_calculate r), hold.calculate ?_⟩
  intro i c p s hplace hget hs hmiss hkeeps hanswer hsucceeded
  have hc := calculator_of_place hplace hget
  have hnone : h.stored? r = none := by
    rw [stored?_of_ok hc]
    unfold Calculator.stored?
    rw [hs, Option.bind_some, hmiss]
  have hcalc : (h.calculate r).1 = .ok p := by
    rw [stored?_of_ok hc] at hnone
    rw [calculate_of_ok hc, Calculator.calculate_of_not_stored hnone, hanswer]
  have hoccurrence : h.occurrence r = .answered r (.ok p) false := by
    unfold occurrence
    rw [hcalc, hnone]
    rfl
  refine ⟨hrec.shape.keepsAt hget hs hkeeps, past, r, [], by rw [hoccurrence], ?_,
    hrec.shape.key_of_ok hc, ?_, hsucceeded, List.forall_mem_nil _⟩
  · rw [← hrec.shape.place?_eq]
    exact hplace
  · rw [← hrec.calculate_of_not_stored hnone, hcalc]

theorem Records.calculateAll (hrec : g.Records past h) (rs : List Request) :
    g.Records (past ++ h.rows rs) (h.calculateAll rs).2 := by
  induction rs generalizing past h with
  | nil =>
    unfold rows
    rw [List.append_nil]
    exact hrec
  | cons r rest ih =>
    have hr := hrec.calculate r
    rw [rows]
    cases hcalc : (h.calculate r).1 with
    | error cause =>
      rw [calculateAll_of_error hcalc]
      exact hr
    | ok p =>
      rw [calculateAll_of_ok hcalc]
      dsimp only
      rw [← List.singleton_append, ← List.append_assoc]
      exact ih hr

/-- The step lemma for removals: a store loses at least what the log says. -/
theorem Records.update (hrec : g.Records past h) {tag : String}
    {f : Calculator → ResultCache → ResultCache} (hkeeps : ∀ c s, (f c s).keeps = s.keeps)
    (hentries : ∀ c s, (f c s).entries ⊆ s.entries)
    (hother : ∀ i key, g.place? tag ≠ some i → ∀ o ∈ more, ¬o.Removes g i key)
    (hleft : ∀ i c s, g.place? tag = some i → h.calculators[i]? = some c →
      ∀ e ∈ (f c s).entries, ∀ o ∈ more, ¬o.Removes g i e.1) :
    g.Records (past ++ more) (h.update tag fun c => { c with cache := c.cache.map (f c) }) := by
  refine ⟨hrec.shape.trans (sameShape_update_cache hkeeps), stocked_update ?_ ?_⟩
  · intro i c hplace hc s hs e he
    rw [hrec.shape.place?_eq] at hplace
    obtain ⟨hkept, hcomputed⟩ := hrec.stocked i c hc s hs e he
    exact ⟨hkept, hcomputed.append (hother i e.1 hplace)⟩
  · intro i c hplace hc s hs e he
    rw [hrec.shape.place?_eq] at hplace
    obtain ⟨s', hs', rfl⟩ := Option.map_eq_some_iff.mp hs
    obtain ⟨hkept, hcomputed⟩ := hrec.stocked i c hc s' hs' e (hentries c s' he)
    exact ⟨hkept, hcomputed.append (hleft i c s' hplace hc e he)⟩

theorem Records.clear (hrec : g.Records past h) (tag : String) :
    g.Records (past ++ [.cleared tag]) (h.clear tag) := by
  refine hrec.update (fun _ _ => rfl) (fun _ _ => List.nil_subset _) ?_ ?_
  · intro i key hplace o ho
    rw [List.mem_singleton.mp ho]
    exact hplace
  · intro i c s _ _
    exact List.forall_mem_nil _

theorem Records.invalidate (hrec : g.Records past h) (tag : String) (r : Request) :
    g.Records (past ++ [.invalidated tag r]) (h.invalidate tag r) := by
  refine hrec.update (fun _ _ => rfl) (fun _ s => List.filter_subset_self s.entries) ?_ ?_
  · intro i key hplace o ho
    rw [List.mem_singleton.mp ho]
    exact fun hremoves => hplace hremoves.1
  · intro i c s hplace hget e he o ho
    rw [List.mem_singleton.mp ho]
    rintro ⟨-, removed, hremoved, hsame⟩
    have hc := calculator_of_place ((hrec.shape.place?_eq tag).trans hplace) hget
    rw [hrec.shape.key_of_ok hc] at hremoved
    cases hremoved
    -- What is left has another key than the one that is removed.
    have hleft := (List.mem_filter.mp he).2
    rw [Key.same_symm hsame] at hleft
    cases hleft

theorem Records.forget (hrec : g.Records past h) (tag : String) (kept : Key → Bool) :
    g.Records (past ++ []) (h.forget tag kept) :=
  hrec.update (fun _ _ => rfl) (fun _ s => List.filter_subset_self s.entries)
    (fun _ _ _ => List.forall_mem_nil _) fun _ _ _ _ _ _ _ => List.forall_mem_nil _

/-- The run lemma. -/
theorem Records.after (hrec : g.Records past h) (events : List Event) :
    g.Records (past ++ h.log events) (h.after events) := by
  induction events generalizing past h with
  | nil =>
    unfold log
    rw [List.append_nil]
    exact hrec
  | cons e rest ih =>
    rw [log, ← List.append_assoc]
    refine ih ?_
    cases e with
    | calculate r => exact hrec.calculate r
    | calculateAll rs => exact hrec.calculateAll rs
    | clear tag => exact hrec.clear tag
    | invalidate tag r => exact hrec.invalidate tag r
    | forget tag kept => exact hrec.forget tag kept

theorem IsFresh.records_after (hg : g.IsFresh) (events : List Event) :
    g.Records (g.log events) (g.after events) :=
  hg.records.after events

/-- What is found for a request was computed in the session under an equal key. -/
theorem Records.kept (hrec : g.Records past h) (hp : h.stored? r = some p) :
    g.Kept past r p ∧ ∃ i, g.place? r.plan.type = some i ∧ g.KeepsAt i := by
  obtain ⟨c, hc, hp⟩ := stored?_eq_some hp
  obtain ⟨i, hplace, hget⟩ := calculator_eq_ok hc
  obtain ⟨s, hs, hfind⟩ := Option.bind_eq_some_iff.mp hp
  obtain ⟨key, hsame, hkeeps, hcomputed⟩ := (hrec.stocked i c hget s hs).find? hfind
  have hplace' : g.place? r.plan.type = some i := (hrec.shape.place?_eq _).symm.trans hplace
  exact ⟨⟨i, c.key r, key, hplace', hrec.shape.key_of_ok hc, hsame, hcomputed⟩, i, hplace', hkeeps⟩

end

end Registry

end Payroll
