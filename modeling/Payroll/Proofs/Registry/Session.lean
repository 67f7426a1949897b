import Payroll.Proofs.Registry.Store
import Payroll.Registry

/-!
# Sessions

What can happen to a registry in use: calculations, batches and removals, in any order. Calculators
keep their kinds and settings, tags keep their places, and only a calculation puts something into a
store.
-/

set_option autoImplicit false

namespace Payroll

namespace ResultCache

def Holds (P : Key → Payslip → Prop) (s : ResultCache) : Prop := ∀ e ∈ s.entries, P e.1 e.2

variable {P : Key → Payslip → Prop} {s : ResultCache}

theorem Holds.find? (hs : s.Holds P) {key : Key} {p : Payslip} (h : s.find? key = some p) :
    ∃ k, k.same key = true ∧ P k p := by
  obtain ⟨k, hk, hsame⟩ := find?_eq_some h
  exact ⟨k, Key.same_iff_identity.mpr hsame, hs _ hk⟩

theorem Holds.insert (hs : s.Holds P) {key : Key} {p : Payslip}
    (hp : s.keeps = true → p.succeeded = true → P key p) : (s.insert key p).Holds P := by
  unfold ResultCache.insert
  split
  · next hstored =>
    obtain ⟨hsucceeded, hkeeps⟩ := Bool.and_eq_true_iff.mp hstored
    intro e he
    rcases List.mem_cons.mp he with rfl | he
    · exact hp hkeeps hsucceeded
    · exact hs e (List.mem_filter.mp he).1
  · exact hs

end ResultCache

namespace Calculator

open ResultCache

def emptied (c : Calculator) : Calculator :=
  { c with cache := c.cache.map fun s => { keeps := s.keeps } }

def Holds (P : Key → Payslip → Prop) (c : Calculator) : Prop := ∀ s, c.cache = some s → s.Holds P

/-- The ways of a calculation: there is no store, the payslip is found, or it is made. -/
theorem calculate_cases (c : Calculator) (r : Request) :
    (c.cache = none ∧ c.calculate r = (c.answer r, c)) ∨
      (∃ s p, c.cache = some s ∧ s.find? (c.key r) = some p ∧
        c.calculate r = (.ok p, { c with cache := some { s with hits := s.hits + 1 } })) ∨
      ∃ s s', c.cache = some s ∧ s.find? (c.key r) = none ∧
        s' = { s with misses := s.misses + 1 } ∧
        c.calculate r =
          match c.answer r with
          | .ok p => (.ok p, { c with cache := some (s'.insert (c.key r) p) })
          | .error cause => (.error cause, { c with cache := some s' }) := by
  unfold calculate
  cases hcache : c.cache with
  | none => exact .inl ⟨rfl, rfl⟩
  | some s =>
    right
    unfold ResultCache.get
    dsimp only
    cases hfind : s.find? (c.key r) with
    | some p => exact .inl ⟨s, p, rfl, hfind, rfl⟩
    | none => exact .inr ⟨s, _, rfl, hfind, rfl, rfl⟩

theorem answer_eq {c d : Calculator} (hkind : c.kind = d.kind) (hformula : c.formula = d.formula) :
    c.answer = d.answer := by
  funext r
  unfold answer compute
  rw [hkind, hformula]

theorem answer_of_compute {c : Calculator} {r : Request} {p : Payslip} (h : c.compute r = .ok p) :
    c.answer r = .ok p := by
  unfold answer
  rw [h]

theorem compute_of_succeeded {c : Calculator} {r : Request} {p : Payslip} (h : c.answer r = .ok p)
    (hp : p.succeeded = true) : c.compute r = .ok p := by
  unfold answer at h
  split at h
  · next p' hp' =>
    cases h
    exact hp'
  · cases h
    cases hp
  · cases h

theorem calculate_of_find {c : Calculator} {s : ResultCache} {r : Request} {p : Payslip}
    (hcache : c.cache = some s) (hfind : s.find? (c.key r) = some p) :
    (c.calculate r).1 = .ok p := by
  unfold calculate ResultCache.get
  rw [hcache]
  dsimp only
  rw [hfind]

theorem emptied_calculate (c : Calculator) (r : Request) :
    (c.calculate r).2.emptied = c.emptied := by
  rcases c.calculate_cases r with ⟨-, h⟩ | ⟨s, p, hcache, -, h⟩ | ⟨s, s', hcache, -, rfl, h⟩
  · rw [h]
  · rw [h]
    unfold emptied
    rw [hcache]
    rfl
  · rw [h]
    unfold emptied
    rw [hcache]
    cases c.answer r with
    | error cause => rfl
    | ok p =>
      dsimp only [Option.map_some]
      rw [keeps_insert]

theorem Holds.calculate {P : Key → Payslip → Prop} {c : Calculator} (hc : c.Holds P) {r : Request}
    (hr : ∀ p s, c.cache = some s → s.find? (c.key r) = none → s.keeps = true →
      c.answer r = .ok p → p.succeeded = true → P (c.key r) p) :
    (c.calculate r).2.Holds P := by
  rcases c.calculate_cases r with ⟨-, h⟩ | ⟨s, p, hcache, -, h⟩ | ⟨s, s', hcache, hmiss, rfl, h⟩
  · rw [h]
    exact hc
  · rw [h]
    intro s' hs'
    cases hs'
    exact hc s hcache
  · rw [h]
    have hs := hc s hcache
    cases hanswer : c.answer r with
    | error cause =>
      intro s' hs'
      cases hs'
      exact hs
    | ok p =>
      intro s' hs'
      cases hs'
      exact Holds.insert (s := { s with misses := s.misses + 1 }) hs
        fun hkeeps => hr p s hcache hmiss hkeeps hanswer

end Calculator

namespace Registry

open ResultCache

def emptiedAt (g : Registry) (i : ℕ) : Option Calculator := (g.calculators[i]?).map (·.emptied)

/-- The same tags, and the same calculators but for their stores. -/
structure SameShape (g h : Registry) : Prop where
  tags : h.tags = g.tags
  calculators : ∀ i, h.emptiedAt i = g.emptiedAt i

theorem SameShape.refl (g : Registry) : g.SameShape g := ⟨rfl, fun _ => rfl⟩

theorem SameShape.trans {g h k : Registry} (hgh : g.SameShape h) (hhk : h.SameShape k) :
    g.SameShape k :=
  ⟨hhk.tags.trans hgh.tags, fun i => (hhk.calculators i).trans (hgh.calculators i)⟩

theorem SameShape.place?_eq {g h : Registry} (hgh : g.SameShape h) (tag : String) :
    h.place? tag = g.place? tag := by
  unfold place?
  rw [hgh.tags]

def Stocked (P : ℕ → Key → Payslip → Prop) (g : Registry) : Prop :=
  ∀ (i : ℕ) (c : Calculator), g.calculators[i]? = some c → c.Holds (P i)

theorem calculator_eq_ok {g : Registry} {tag : String} {c : Calculator}
    (h : g.calculator tag = .ok c) :
    ∃ i, g.place? tag = some i ∧ g.calculators[i]? = some c := by
  unfold calculator at h
  split at h
  · next c' hc =>
    cases h
    exact Option.bind_eq_some_iff.mp hc
  · cases h

theorem calculator_of_place {g : Registry} {tag : String} {i : ℕ} {c : Calculator}
    (hplace : g.place? tag = some i) (hc : g.calculators[i]? = some c) :
    g.calculator tag = .ok c := by
  unfold calculator
  rw [hplace, Option.bind_some, hc]

theorem getElem?_update {g : Registry} {tag : String} {i : ℕ} (hplace : g.place? tag = some i)
    (f : Calculator → Calculator) (j : ℕ) :
    (g.update tag f).calculators[j]? =
      if i = j then (g.calculators[j]?).map f else g.calculators[j]? := by
  unfold update
  rw [hplace]
  dsimp only
  rw [List.getElem?_modify]
  split
  · rfl
  · cases g.calculators[j]? <;> rfl

theorem update_of_place_none {g : Registry} {tag : String} (hplace : g.place? tag = none)
    (f : Calculator → Calculator) : g.update tag f = g := by
  unfold update
  rw [hplace]

theorem sameShape_update {g : Registry} {tag : String} {f : Calculator → Calculator}
    (hf : ∀ i c, g.place? tag = some i → g.calculators[i]? = some c →
      (f c).emptied = c.emptied) : g.SameShape (g.update tag f) := by
  cases hplace : g.place? tag with
  | none =>
    rw [update_of_place_none hplace]
    exact .refl g
  | some i =>
    refine ⟨?_, fun j => ?_⟩
    · unfold update
      rw [hplace]
    · unfold emptiedAt
      rw [getElem?_update hplace]
      split
      · next hij =>
        subst hij
        cases hc : g.calculators[i]? with
        | none => rfl
        | some c => exact congrArg some (hf i c hplace hc)
      · rfl

theorem stocked_update {P : ℕ → Key → Payslip → Prop} {g : Registry} {tag : String}
    {f : Calculator → Calculator}
    (hg : ∀ i c, g.place? tag ≠ some i → g.calculators[i]? = some c → c.Holds (P i))
    (hf : ∀ i c, g.place? tag = some i → g.calculators[i]? = some c → (f c).Holds (P i)) :
    (g.update tag f).Stocked P := by
  cases hplace : g.place? tag with
  | none =>
    rw [update_of_place_none hplace]
    exact fun j c => hg j c (by rw [hplace]; nofun)
  | some i =>
    intro j c hc
    rw [getElem?_update hplace] at hc
    split at hc
    · next hij =>
      subst hij
      obtain ⟨d, hd, rfl⟩ := Option.map_eq_some_iff.mp hc
      exact hf i d hplace hd
    · next hij =>
      refine hg j c ?_ hc
      rw [hplace]
      exact fun h => hij (Option.some.inj h)

theorem sameShape_update_cache {g : Registry} {tag : String}
    {f : Calculator → ResultCache → ResultCache} (hkeeps : ∀ c s, (f c s).keeps = s.keeps) :
    g.SameShape (g.update tag fun c => { c with cache := c.cache.map (f c) }) := by
  refine sameShape_update fun i c _ _ => ?_
  unfold Calculator.emptied
  cases c.cache with
  | none => rfl
  | some s =>
    dsimp only [Option.map_some]
    rw [hkeeps]

theorem Stocked.update {P : ℕ → Key → Payslip → Prop} {g : Registry} (hg : g.Stocked P)
    {tag : String} {f : Calculator → Calculator}
    (hf : ∀ i c, g.place? tag = some i → g.calculators[i]? = some c → (f c).Holds (P i)) :
    (g.update tag f).Stocked P :=
  stocked_update (fun i c _ => hg i c) hf

theorem calculate_of_place {g : Registry} {r : Request} {i : ℕ} {c : Calculator}
    (hplace : g.place? r.plan.type = some i) (hc : g.calculators[i]? = some c) :
    g.calculate r = ((c.calculate r).1, g.update r.plan.type fun _ => (c.calculate r).2) := by
  unfold calculate
  rw [calculator_of_place hplace hc]

theorem calculate_of_error {g : Registry} {r : Request} {cause : PayError}
    (h : g.calculator r.plan.type = .error cause) :
    g.calculate r = (.ok (.failure r cause.message), g) := by
  unfold calculate
  rw [h]

/-- The step lemma for shapes: a calculation changes a store at most. -/
theorem sameShape_calculate (g : Registry) (r : Request) : g.SameShape (g.calculate r).2 := by
  cases h : g.calculator r.plan.type with
  | error cause =>
    rw [calculate_of_error h]
    exact .refl g
  | ok c =>
    obtain ⟨i, hplace, hc⟩ := calculator_eq_ok h
    rw [calculate_of_place hplace hc]
    refine sameShape_update fun j d hj hd => ?_
    rw [hplace] at hj
    cases hj
    rw [hc] at hd
    cases hd
    exact c.emptied_calculate r

theorem calculate_calculate_of_place {g : Registry} {r r' : Request} {i : ℕ} {c : Calculator}
    (hplace : g.place? r.plan.type = some i) (hplace' : g.place? r'.plan.type = some i)
    (hc : g.calculators[i]? = some c) :
    ((g.calculate r).2.calculate r').1 = ((c.calculate r).2.calculate r').1 := by
  have hc' : (g.calculate r).2.calculators[i]? = some (c.calculate r).2 := by
    rw [calculate_of_place hplace hc, getElem?_update hplace, if_pos rfl, hc]
    rfl
  rw [calculate_of_place (((g.sameShape_calculate r).place?_eq _).trans hplace') hc']

/-- The step lemma for stores: a calculation stores what it computes. -/
theorem Stocked.calculate {P : ℕ → Key → Payslip → Prop} {g : Registry} (hg : g.Stocked P)
    {r : Request} (hr : ∀ i c p s, g.place? r.plan.type = some i → g.calculators[i]? = some c →
      c.cache = some s → s.find? (c.key r) = none → s.keeps = true → c.answer r = .ok p →
        p.succeeded = true → P i (c.key r) p) :
    (g.calculate r).2.Stocked P := by
  cases h : g.calculator r.plan.type with
  | error cause =>
    rw [calculate_of_error h]
    exact hg
  | ok c =>
    obtain ⟨i, hplace, hc⟩ := calculator_eq_ok h
    rw [calculate_of_place hplace hc]
    refine hg.update fun j d hj hd => ?_
    rw [hplace] at hj
    cases hj
    exact (hg i c hc).calculate fun p s => hr i c p s hplace hc

theorem calculateAll_of_error {g : Registry} {r : Request} {rest : List Request} {cause : Abort}
    (h : (g.calculate r).1 = .error cause) :
    g.calculateAll (r :: rest) = (.error cause, (g.calculate r).2) := by
  rw [calculateAll]
  rcases hcalc : g.calculate r with ⟨out, g'⟩
  rw [hcalc] at h
  cases h
  rfl

theorem calculateAll_of_ok {g : Registry} {r : Request} {rest : List Request} {p : Payslip}
    (h : (g.calculate r).1 = .ok p) :
    g.calculateAll (r :: rest) =
      (((g.calculate r).2.calculateAll rest).1.map (p :: ·),
        ((g.calculate r).2.calculateAll rest).2) := by
  rw [calculateAll]
  rcases hcalc : g.calculate r with ⟨out, g'⟩
  rw [hcalc] at h
  cases h
  dsimp only
  rcases g'.calculateAll rest with ⟨_ | ps, g''⟩ <;> rfl

theorem calculateAll_cons_eq_ok {g : Registry} {r : Request} {rest : List Request}
    {ps : List Payslip} (h : (g.calculateAll (r :: rest)).1 = .ok ps) :
    ∃ p ps', (g.calculate r).1 = .ok p ∧ ((g.calculate r).2.calculateAll rest).1 = .ok ps' ∧
      ps = p :: ps' := by
  cases hr : (g.calculate r).1 with
  | error cause =>
    rw [calculateAll_of_error hr] at h
    cases h
  | ok p =>
    rw [calculateAll_of_ok hr] at h
    cases hrest : ((g.calculate r).2.calculateAll rest).1 with
    | error cause =>
      rw [hrest] at h
      cases h
    | ok ps' =>
      rw [hrest] at h
      cases h
      exact ⟨p, ps', rfl, rfl, rfl⟩

theorem row_of_calculateAll {h : Registry} {rs : List Request} {ps : List Payslip}
    (hps : (h.calculateAll rs).1 = .ok ps) :
    ps.length = rs.length ∧ ∀ (i : ℕ) (r : Request), rs[i]? = some r →
      ∃ p, ps[i]? = some p ∧ ((h.calculateAll (rs.take i)).2.calculate r).1 = .ok p := by
  induction rs generalizing h ps with
  | nil =>
    cases hps
    exact ⟨rfl, nofun⟩
  | cons r rest ih =>
    obtain ⟨p, ps', hr, hrest, rfl⟩ := calculateAll_cons_eq_ok hps
    obtain ⟨hlength, hrows⟩ := ih hrest
    refine ⟨congrArg Nat.succ hlength, fun i r' hr' => ?_⟩
    cases i with
    | zero =>
      cases hr'
      exact ⟨p, rfl, hr⟩
    | succ i =>
      rw [List.take_succ_cons, calculateAll_of_ok hr]
      exact hrows i r' hr'

/-- A store that has run out of time or room loses entries. -/
def forget (g : Registry) (tag : String) (kept : Key → Bool) : Registry :=
  g.update tag fun c =>
    { c with cache := c.cache.map fun s => { s with entries := s.entries.filter (kept ·.1) } }

inductive Event where
  | calculate (r : Request)
  | calculateAll (rs : List Request)
  | clear (tag : String)
  | invalidate (tag : String) (r : Request)
  | forget (tag : String) (kept : Key → Bool)

def Event.requests : Event → List Request
  | calculate r => [r]
  | calculateAll rs => rs
  | _ => []

def apply (g : Registry) : Event → Registry
  | .calculate r => (g.calculate r).2
  | .calculateAll rs => (g.calculateAll rs).2
  | .clear tag => g.clear tag
  | .invalidate tag r => g.invalidate tag r
  | .forget tag kept => g.forget tag kept

def after (g : Registry) (events : List Event) : Registry := events.foldl apply g

/-- A row of a batch is what its request is answered in a session with the requests before it. -/
theorem row_of_calculateAll_after {g : Registry} {events : List Event} {rs : List Request}
    {ps : List Payslip} (hps : ((g.after events).calculateAll rs).1 = .ok ps) :
    ps.length = rs.length ∧ ∀ (i : ℕ) (r : Request), rs[i]? = some r → ∃ p, ps[i]? = some p ∧
      ((g.after (events ++ [.calculateAll (rs.take i)])).calculate r).1 = .ok p := by
  unfold after
  simp only [List.foldl_append]
  exact row_of_calculateAll hps

def IsFresh (g : Registry) : Prop :=
  ∀ (i : ℕ) (c : Calculator) (s : ResultCache), g.calculators[i]? = some c → c.cache = some s →
    s.entries = []

end Registry

end Payroll
