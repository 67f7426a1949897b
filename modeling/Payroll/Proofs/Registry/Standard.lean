import Mathlib.Tactic.IntervalCases
import Payroll.Proofs.Outcome
import Payroll.Proofs.Registry.Session

/-!
# The standard registry

One calculator of each kind, and the tags that find it. With the stores turned off, an answer is
what the calculator computes.
-/

set_option autoImplicit false

namespace Payroll

namespace CacheSettings

def Keeps (s : CacheSettings) : Prop :=
  s.enabled = true ∧ s.ttlSeconds ≠ 0 ∧ s.ttlSeconds ≤ ResultCache.longestLife ∧ s.maxCapacity ≠ 0

instance (s : CacheSettings) : Decidable s.Keeps :=
  inferInstanceAs (Decidable (_ = true ∧ _ ≠ 0 ∧ _ ≤ _ ∧ _ ≠ 0))

end CacheSettings

namespace Calculator

theorem make_eq_ok {kind : PlanKind} {cache : CacheSettings} {formula : FormulaSettings}
    {c : Calculator} (h : make kind (some cache) formula = .ok c) :
    c.kind = kind ∧ c.formula = formula ∧
      (c.cache = none ∨ ∃ s, c.cache = some s ∧ s.entries = []) := by
  unfold make at h
  dsimp only at h
  split at h
  · unfold ResultCache.ofSettings at h
    split at h
    · cases h
    · cases h
      exact ⟨rfl, rfl, .inr ⟨_, rfl, rfl⟩⟩
  · cases h
    exact ⟨rfl, rfl, .inl rfl⟩

theorem make_of_keeps {kind : PlanKind} {cache : CacheSettings} (formula : FormulaSettings)
    (hkind : kind ≠ .formulaBased) (hcache : cache.Keeps) :
    make kind (some cache) formula = .ok { kind, formula, cache := some {} } := by
  obtain ⟨henabled, httl, hlife, hcapacity⟩ := hcache
  unfold make ResultCache.ofSettings
  dsimp only
  rw [if_pos (by simp [henabled, hkind]), if_neg (by omega)]
  simp [httl, hcapacity]

theorem make_of_not_keeps {kind : PlanKind} {cache : CacheSettings} {formula : FormulaSettings}
    {c : Calculator} (hcache : ¬cache.Keeps) (h : make kind (some cache) formula = .ok c)
    {s : ResultCache} (hs : c.cache = some s) : s.keeps = false := by
  unfold make at h
  dsimp only at h
  split at h
  · next hon =>
    unfold ResultCache.ofSettings at h
    split at h
    · cases h
    · next hlife =>
      cases h
      cases hs
      have henabled : cache.enabled = true := (Bool.and_eq_true_iff.mp hon).1
      simp only [decide_eq_false_iff_not, Bool.and_eq_false_iff]
      unfold CacheSettings.Keeps at hcache
      by_contra hkeeps
      simp at hkeeps
      exact hcache ⟨henabled, hkeeps.1, by omega, hkeeps.2⟩
  · cases h
    cases hs

end Calculator

namespace Registry

def placeOf : PlanKind → ℕ
  | .fixed => 0
  | .commission => 1
  | .tieredCommission => 2
  | .formulaBased => 3

def tagsOf : PlanKind → List String
  | .fixed => fixedTags
  | .commission => commissionTags
  | .tieredCommission => tieredTags
  | .formulaBased => formulaTags

def pointAll (known : List (String × ℕ)) (tags : List String) (place : ℕ) : List (String × ℕ) :=
  tags.foldl (fun known tag => point known tag place) known

def standardTags : List (String × ℕ) :=
  pointAll (pointAll (pointAll (pointAll [] fixedTags 0) commissionTags 1) tieredTags 2)
    formulaTags 3

theorem mem_of_lookup {tag : String} {place : ℕ} (h : standardTags.lookup tag = some place) :
    (tag, place) ∈ standardTags := by
  obtain ⟨before, after, hsplit, -⟩ := List.lookup_eq_some_iff.mp h
  rw [hsplit]
  exact List.mem_append_right before List.mem_cons_self

theorem lookup_standardTags {tag : String} {kind : PlanKind} :
    standardTags.lookup tag = some (placeOf kind) ↔ tag ∈ tagsOf kind := by
  constructor
  · intro h
    have hall : ∀ e ∈ standardTags, e.2 = placeOf kind → e.1 ∈ tagsOf kind := by
      cases kind <;> decide
    exact hall _ (mem_of_lookup h) rfl
  · have hall : ∀ tag ∈ tagsOf kind, standardTags.lookup tag = some (placeOf kind) := by
      cases kind <;> decide
    exact hall tag

theorem exists_kind_of_lookup {tag : String} {place : ℕ}
    (h : standardTags.lookup tag = some place) : ∃ kind, place = placeOf kind := by
  have hall : ∀ e ∈ standardTags, e.2 = placeOf .fixed ∨ e.2 = placeOf .commission ∨
      e.2 = placeOf .tieredCommission ∨ e.2 = placeOf .formulaBased := by decide
  rcases hall _ (mem_of_lookup h) with h | h | h | h <;> exact ⟨_, h⟩

/-- A registry with the standard tags and a calculator of each kind, whatever its stores hold. -/
structure IsStandard (settings : Settings) (g : Registry) : Prop where
  tags : g.tags = standardTags
  calculators : ∀ kind, ∃ c, g.emptiedAt (placeOf kind) = some c ∧ c.kind = kind ∧
    c.formula = settings.formula

section
variable {settings : Settings} {g : Registry}

theorem standard_eq_ok (h : standard settings = .ok g) :
    g.tags = standardTags ∧ g.calculators.length = 4 ∧
      ∀ kind, ∃ c, g.calculators[placeOf kind]? = some c ∧
        Calculator.make kind (some settings.cache) settings.formula = .ok c := by
  unfold standard at h
  obtain ⟨a, ha, h⟩ := bind_eq_ok h
  obtain ⟨b, hb, h⟩ := bind_eq_ok h
  obtain ⟨c, hc, h⟩ := bind_eq_ok h
  obtain ⟨d, hd, h⟩ := bind_eq_ok h
  cases h
  refine ⟨rfl, rfl, fun kind => ?_⟩
  cases kind with
  | fixed => exact ⟨a, rfl, ha⟩
  | commission => exact ⟨b, rfl, hb⟩
  | tieredCommission => exact ⟨c, rfl, hc⟩
  | formulaBased => exact ⟨d, rfl, hd⟩

theorem isFresh_standard (h : standard settings = .ok g) : g.IsFresh := by
  obtain ⟨-, hlength, hcalculators⟩ := standard_eq_ok h
  intro i c s hc hs
  have hi : i < 4 := by
    rw [← hlength]
    exact (List.getElem?_eq_some_iff.mp hc).1
  have hplace : ∃ kind, placeOf kind = i := by
    interval_cases i
    · exact ⟨.fixed, rfl⟩
    · exact ⟨.commission, rfl⟩
    · exact ⟨.tieredCommission, rfl⟩
    · exact ⟨.formulaBased, rfl⟩
  obtain ⟨kind, rfl⟩ := hplace
  obtain ⟨c', hc', hmake⟩ := hcalculators kind
  rw [hc] at hc'
  cases hc'
  obtain ⟨-, -, hnone | ⟨s', hs', hempty⟩⟩ := Calculator.make_eq_ok hmake
  · rw [hs] at hnone
    cases hnone
  · rw [hs] at hs'
    cases hs'
    exact hempty

theorem isStandard_standard (h : standard settings = .ok g) : g.IsStandard settings := by
  obtain ⟨htags, -, hcalculators⟩ := standard_eq_ok h
  refine ⟨htags, fun kind => ?_⟩
  obtain ⟨c, hc, hmake⟩ := hcalculators kind
  obtain ⟨hkind, hformula, -⟩ := Calculator.make_eq_ok hmake
  refine ⟨c.emptied, ?_, hkind, hformula⟩
  unfold emptiedAt
  rw [hc]
  rfl

theorem IsStandard.of_sameShape {h : Registry} (hg : g.IsStandard settings) (hgh : g.SameShape h) :
    h.IsStandard settings := by
  refine ⟨hgh.tags.trans hg.tags, fun kind => ?_⟩
  rw [hgh.calculators]
  exact hg.calculators kind

theorem IsStandard.place?_iff (hg : g.IsStandard settings) {tag : String} {kind : PlanKind} :
    g.place? tag = some (placeOf kind) ↔ tag ∈ tagsOf kind := by
  unfold place?
  rw [hg.tags]
  exact lookup_standardTags

theorem IsStandard.exists_calculator (hg : g.IsStandard settings) (kind : PlanKind) :
    ∃ c, g.calculators[placeOf kind]? = some c ∧ c.kind = kind := by
  obtain ⟨c', hc', hkind, -⟩ := hg.calculators kind
  obtain ⟨c, hc, rfl⟩ := Option.map_eq_some_iff.mp hc'
  exact ⟨c, hc, hkind⟩

theorem IsStandard.calculator_eq_ok (hg : g.IsStandard settings) {tag : String} {kind : PlanKind}
    (htag : tag ∈ tagsOf kind) : ∃ c, g.calculator tag = .ok c ∧ c.kind = kind := by
  obtain ⟨c, hc, hkind⟩ := hg.exists_calculator kind
  exact ⟨c, calculator_of_place (hg.place?_iff.mpr htag) hc, hkind⟩

theorem IsStandard.mem_tagsOf (hg : g.IsStandard settings) {tag : String} {c : Calculator}
    (h : g.calculator tag = .ok c) : tag ∈ tagsOf c.kind := by
  obtain ⟨i, hplace, hc⟩ := Registry.calculator_eq_ok h
  have hlookup := hplace
  unfold place? at hlookup
  rw [hg.tags] at hlookup
  obtain ⟨kind, rfl⟩ := exists_kind_of_lookup hlookup
  obtain ⟨c', hc', rfl⟩ := hg.exists_calculator kind
  rw [hc] at hc'
  cases hc'
  exact hg.place?_iff.mp hplace

end

/-- The answer to a request alone, without stores. -/
def alone (settings : Settings) (r : Request) : Except Abort Payslip := do
  let g ← standard settings.withoutCache
  (g.calculate r).1

def bare (settings : Settings) (kind : PlanKind) : Calculator :=
  { kind, formula := settings.formula }

theorem exists_standard_withoutCache (settings : Settings) :
    ∃ g, standard settings.withoutCache = .ok g ∧
      ∀ kind, g.calculators[placeOf kind]? = some (bare settings kind) :=
  ⟨_, rfl, fun kind => by cases kind <;> rfl⟩

/-- Stores that keep something are new and empty at first. -/
theorem exists_standard_of_keeps {settings : Settings} (hkeeps : settings.cache.Keeps) :
    ∃ g, standard settings = .ok g ∧ ∀ kind, kind ≠ .formulaBased →
      g.calculators[placeOf kind]? = some { bare settings kind with cache := some {} } := by
  have hformula : Calculator.make .formulaBased (some settings.cache) settings.formula =
      .ok (bare settings .formulaBased) := by
    unfold Calculator.make
    simp only [ne_eq, not_true_eq_false, decide_false, Bool.and_false]
    rfl
  unfold standard
  dsimp only
  rw [Calculator.make_of_keeps settings.formula (by decide) hkeeps,
    Calculator.make_of_keeps settings.formula (by decide) hkeeps,
    Calculator.make_of_keeps settings.formula (by decide) hkeeps, hformula]
  refine ⟨_, rfl, fun kind hkind => ?_⟩
  cases kind with
  | formulaBased => exact absurd rfl hkind
  | _ => rfl

theorem alone_eq {settings : Settings} {r : Request} {kind : PlanKind}
    (htag : r.plan.type ∈ tagsOf kind) : alone settings r = (bare settings kind).answer r := by
  obtain ⟨g, hg, hcalculators⟩ := exists_standard_withoutCache settings
  have hplace := (isStandard_standard hg).place?_iff.mpr htag
  unfold alone
  rw [hg]
  show (g.calculate r).1 = _
  rw [calculate_of_place hplace (hcalculators kind)]
  rfl

end Registry

end Payroll
