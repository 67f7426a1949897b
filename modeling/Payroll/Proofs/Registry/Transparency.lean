import Payroll.Proofs.Pay.Reading
import Payroll.Proofs.Registry.Log
import Payroll.Proofs.Registry.Standard

/-!
# When stored payslips cannot be told from new ones

Fixed and commission plans are stored under the employee, the plan's identifier, the sales and the
period. Sessions answer as if nothing were stored exactly when these determine the answer. They do
if they determine the plan and the transactions, and they do not otherwise: neither the plan's
configuration nor a bonus is a part of the key.
-/

set_option autoImplicit false

namespace Payroll

open Decimal ResultCache

def PlanKind.IsSalaried : PlanKind → Prop
  | fixed | commission => True
  | tieredCommission | formulaBased => False

def SameReading (x y : Except Abort Payslip) : Prop := x.map Payslip.reading = y.map Payslip.reading

namespace Registry

/-- Every answer of a session over requests of `S` to a request for a fixed or a commission plan, by
itself or in a batch, says what the request alone is answered without stores. -/
def Transparent (settings : Settings) (S : Request → Prop) : Prop :=
  ∀ g, standard settings = .ok g →
    ∀ events : List Event, (∀ e ∈ events, ∀ r ∈ e.requests, S r) →
      (∀ kind r, kind.IsSalaried → S r → r.plan.type ∈ tagsOf kind →
        SameReading ((g.after events).calculate r).1 (alone settings r)) ∧
      ∀ rs ps, (∀ r ∈ rs, S r) → ((g.after events).calculateAll rs).1 = .ok ps →
        List.Forall₂
          (fun r p => ∀ kind : PlanKind, kind.IsSalaried → r.plan.type ∈ tagsOf kind →
            SameReading (.ok p) (alone settings r))
          rs ps

/-- Among requests of `S` for one kind of plan, the key determines what a successful answer says, if
the stores keep anything. -/
def KeyDetermines (settings : Settings) (S : Request → Prop) : Prop :=
  settings.cache.Keeps →
    ∀ kind r r' p, kind.IsSalaried → S r → S r' → r.plan.type ∈ tagsOf kind →
      r'.plan.type ∈ tagsOf kind → (Key.ofRequest r).same (Key.ofRequest r') = true →
        alone settings r = .ok p → p.succeeded = true → SameReading (.ok p) (alone settings r')

section
variable {settings : Settings} {S : Request → Prop} {kind : PlanKind}

theorem key_eq_ofRequest {c : Calculator} (hkind : c.kind.IsSalaried) (r : Request) :
    c.key r = Key.ofRequest r := by
  unfold Calculator.key
  cases hc : c.kind with
  | tieredCommission =>
    rw [hc] at hkind
    exact hkind.elim
  | _ => rfl

theorem IsStandard.afresh_eq {g : Registry} (hg : g.IsStandard settings) {r : Request}
    (htag : r.plan.type ∈ tagsOf kind) : g.afresh r = alone settings r := by
  obtain ⟨c', hc', hkind, hformula⟩ := hg.calculators kind
  obtain ⟨c, hc, rfl⟩ := Option.map_eq_some_iff.mp hc'
  have hplace := hg.place?_iff.mpr htag
  rw [afresh_of_ok (calculator_of_place hplace hc), alone_eq htag]
  exact congrFun (Calculator.answer_eq hkind hformula) r

theorem IsStandard.key_eq {g : Registry} (hg : g.IsStandard settings) (hkind : kind.IsSalaried)
    {r : Request} (htag : r.plan.type ∈ tagsOf kind) :
    g.key r.plan.type r = .ok (Key.ofRequest r) := by
  obtain ⟨c, hc, rfl⟩ := hg.calculator_eq_ok htag
  rw [key_of_ok hc, key_eq_ofRequest hkind]

theorem keeps_of_keepsAt {g : Registry} (hg : standard settings = .ok g)
    (h : g.KeepsAt (placeOf kind)) : settings.cache.Keeps := by
  by_contra hkeeps
  obtain ⟨c, s, hc, hs, hon⟩ := h
  obtain ⟨-, -, hcalculators⟩ := standard_eq_ok hg
  obtain ⟨c', hc', hmake⟩ := hcalculators kind
  unfold emptiedAt at hc
  rw [hc'] at hc
  cases hc
  unfold Calculator.emptied at hs
  obtain ⟨s', hs', rfl⟩ := Option.map_eq_some_iff.mp hs
  have hoff := Calculator.make_of_not_keeps hkeeps hmake hs'
  exact absurd hon (by rw [hoff]; decide)

theorem KeyDetermines.answer (hS : KeyDetermines settings S) {g : Registry}
    (hg : standard settings = .ok g) {events : List Event}
    (hevents : ∀ e ∈ events, ∀ r ∈ e.requests, S r) (hkind : kind.IsSalaried) {r : Request}
    (hr : S r) (htag : r.plan.type ∈ tagsOf kind) :
    SameReading ((g.after events).calculate r).1 (alone settings r) := by
  have hstandard := isStandard_standard hg
  have hrec := (isFresh_standard hg).records_after events
  cases hstored : (g.after events).stored? r with
  | none =>
    rw [hrec.calculate_of_not_stored hstored, hstandard.afresh_eq htag]
    rfl
  | some p =>
    obtain ⟨⟨i, key, key', hplace, hkey, hsame, hcomputed⟩, j, hplace', hkeeps⟩ :=
      hrec.kept hstored
    have hkindPlace := hstandard.place?_iff.mpr htag
    obtain rfl : placeOf kind = i := Option.some.inj (hkindPlace.symm.trans hplace)
    obtain rfl : placeOf kind = j := Option.some.inj (hkindPlace.symm.trans hplace')
    obtain ⟨before, r', between, hlog, hplace'', hkey', hanswer, hsucceeded, -⟩ := hcomputed
    have htag' := hstandard.place?_iff.mp hplace''
    rw [hstandard.key_eq hkind htag] at hkey
    rw [hstandard.key_eq hkind htag'] at hkey'
    rw [hstandard.afresh_eq htag'] at hanswer
    cases hkey
    cases hkey'
    have hr' : S r' := by
      have hmem : .answered r' (.ok p) false ∈ g.log events := by
        rw [hlog]
        exact List.mem_append_right before List.mem_cons_self
      obtain ⟨e, he, hr'⟩ := mem_requests_of_mem_log hmem
      exact hevents e he r' hr'
    rw [calculate_of_stored hstored]
    exact hS (keeps_of_keepsAt hg hkeeps) kind r' r p hkind hr' hr htag' htag hsame hanswer
      hsucceeded

theorem KeyDetermines.transparent (hS : KeyDetermines settings S) : Transparent settings S := by
  intro g hg events hevents
  refine ⟨fun kind r hkind hr htag => hS.answer hg hevents hkind hr htag, fun rs ps hrs hps => ?_⟩
  obtain ⟨hlength, hrows⟩ := row_of_calculateAll_after hps
  refine List.forall₂_iff_get.mpr ⟨hlength.symm, fun i hi hi' kind hkind htag => ?_⟩
  obtain ⟨p, hp, hrow⟩ := hrows i _ (List.getElem?_eq_getElem hi)
  obtain rfl : ps[i] = p := Option.some.inj ((List.getElem?_eq_getElem hi').symm.trans hp)
  have hevents' : ∀ e ∈ events ++ [.calculateAll (rs.take i)], ∀ r ∈ e.requests, S r := by
    intro e he r hr
    rcases List.mem_append.mp he with he | he
    · exact hevents e he r hr
    · cases List.mem_singleton.mp he
      exact hrs r (List.mem_of_mem_take hr)
  have hanswer := hS.answer hg hevents' hkind (hrs _ (List.getElem_mem hi)) htag
  rwa [hrow] at hanswer

theorem calculate_twice {c : Calculator} (hcache : c.cache = some {}) {r r' : Request} {p : Payslip}
    (hanswer : c.answer r = .ok p) (hsucceeded : p.succeeded = true)
    (hsame : (c.key r).same (c.key r') = true) :
    ((c.calculate r).2.calculate r').1 = .ok p := by
  have hfirst : (c.calculate r).2 =
      { c with cache := some { misses := 1, entries := [(c.key r, p)] } } := by
    unfold Calculator.calculate ResultCache.get ResultCache.find?
    rw [hcache]
    dsimp only [List.find?_nil, Option.map_none]
    rw [hanswer]
    unfold ResultCache.insert
    dsimp only
    rw [hsucceeded]
    rfl
  rw [hfirst]
  exact Calculator.calculate_of_find rfl (find?_of_entries rfl hsame)

theorem Transparent.keyDetermines (hS : Transparent settings S) : KeyDetermines settings S := by
  intro hkeeps kind r r' p hkind hr hr' htag htag' hsame hanswer hsucceeded
  have hkind' : kind ≠ .formulaBased := by
    rintro rfl
    exact hkind
  obtain ⟨g, hg, hcalculators⟩ := exists_standard_of_keeps hkeeps
  have hstandard := isStandard_standard hg
  have hc := hcalculators kind hkind'
  have hplace := hstandard.place?_iff.mpr htag
  have hplace' := hstandard.place?_iff.mpr htag'
  have hkey (r : Request) :
      Calculator.key { bare settings kind with cache := some {} } r = Key.ofRequest r :=
    key_eq_ofRequest hkind r (c := { bare settings kind with cache := some {} })
  rw [alone_eq htag] at hanswer
  have htwice : ((g.after [.calculate r]).calculate r').1 = .ok p := by
    refine (calculate_calculate_of_place hplace hplace' hc).trans ?_
    refine calculate_twice rfl hanswer hsucceeded ?_
    rw [hkey, hkey]
    exact hsame
  rw [← htwice]
  refine (hS g hg [.calculate r] ?_).1 kind r' hkind hr' htag'
  intro e he s hs
  obtain rfl := List.mem_singleton.mp he
  obtain rfl := List.mem_singleton.mp hs
  exact hr

theorem value_eq_of_same {r r' : Request} (h : (Key.ofRequest r).same (Key.ofRequest r') = true) :
    r.sales.value = r'.sales.value := by
  obtain ⟨-, -, hsales, -⟩ := Key.same_iff.mp h
  have hvalue : r.sales.normalize.value = r'.sales.normalize.value := Option.some.inj hsales
  rwa [value_normalize, value_normalize] at hvalue

theorem exists_rule (settings : Settings) (hkind : kind.IsSalaried) :
    ∃ rule : Pay.CommissionRule, rule.SeesValues ∧
      (bare settings kind).compute = Pay.salaried rule := by
  cases kind with
  | fixed => exact ⟨.fixed, Pay.seesValues_fixed, rfl⟩
  | commission => exact ⟨.sales, Pay.seesValues_sales, rfl⟩
  | tieredCommission => exact hkind.elim
  | formulaBased => exact hkind.elim

/-- The key has the employee, the sales and the period. What else a payslip says comes from the plan
and the transactions. -/
theorem keyDetermines_of_sameTerms (settings : Settings)
    (hS : ∀ r r', S r → S r' → (Key.ofRequest r).same (Key.ofRequest r') = true → r.SameTerms r') :
    KeyDetermines settings S := by
  intro _ kind r r' p hkind hr hr' htag htag' hsame hanswer hsucceeded
  obtain ⟨rule, hrule, hcompute⟩ := exists_rule settings hkind
  rw [alone_eq htag] at hanswer
  have hp := Calculator.compute_of_succeeded hanswer hsucceeded
  have hreading := Pay.map_salaried_congr hrule (hS r r' hr hr' hsame) (value_eq_of_same hsame)
  rw [← hcompute] at hreading
  obtain ⟨p', hp', hpp'⟩ := exists_ok_of_map_eq hreading hp
  unfold SameReading
  rw [alone_eq htag', Calculator.answer_of_compute hp']
  exact congrArg Except.ok hpp'.symm

end

/-- Stores cannot be noticed if and only if the key determines what is answered, as it does where it
determines the plan and the transactions. -/
theorem transparent_iff_keyDetermines (settings : Settings) (S : Request → Prop) :
    (Transparent settings S ↔ KeyDetermines settings S) ∧
      ((∀ r r', S r → S r' → (Key.ofRequest r).same (Key.ofRequest r') = true → r.SameTerms r') →
        Transparent settings S) :=
  ⟨⟨Transparent.keyDetermines, KeyDetermines.transparent⟩,
    fun hS => (keyDetermines_of_sameTerms settings hS).transparent⟩

def salaryRequest (bonuses : List Transaction) : Request where
  employee := { id := "e1" }
  plan :=
    { id := "p1", type := "fixed", name := "Salary"
      config := .object [("baseSalary", .string "1000")] }
  bonuses := bonuses
  period := "2024-01"

def lateBonus : Transaction where
  id := "b1"
  employeeId := "e1"
  amount := .hundred
  date :=
    { year := 2024, month := 1, day := 15
      year_mem := by decide, month_mem := by decide, day_mem := by decide }

theorem not_transparent_lateBonus :
    ¬Transparent {} (fun r => r = salaryRequest [] ∨ r = salaryRequest [lateBonus]) := by
  intro h
  have hfirst : (alone {} (salaryRequest [])).toOption.map
      (fun p => (p.succeeded, p.total.value)) = some (true, 1000) := by decide +kernel
  have hsecond : (alone {} (salaryRequest [lateBonus])).toOption.map
      (fun p => p.total.value) = some 1100 := by decide +kernel
  obtain ⟨p, hp, hread⟩ := exists_ok_of_toOption_map hfirst
  obtain ⟨p', hp', hread'⟩ := exists_ok_of_toOption_map hsecond
  obtain ⟨hsucceeded, htotal⟩ := Prod.mk.inj hread
  have hsame := h.keyDetermines (by decide) .fixed _ _ p trivial (.inl rfl) (.inr rfl)
    (by decide) (by decide) (by decide) hp hsucceeded
  rw [hp'] at hsame
  have hvalue : p.total.value = p'.total.value :=
    congrArg Payslip.Reading.total (Except.ok.inj hsame)
  rw [htotal, hread'] at hvalue
  exact absurd hvalue (by decide)

end Registry

end Payroll
