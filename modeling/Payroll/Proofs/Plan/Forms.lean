import Payroll.Calculator
import Payroll.Proofs.Json.Record

/-!
# Two forms of a salary plan

A base salary, a table of bonuses and a commission are written as the fields of one object or as a
list of blocks. Both forms mean the same terms, under whatever spellings the fields stand, and
whatever blocks stand besides the first salary block and the first commission block. So a plan pays
the same in either form.
-/

set_option autoImplicit false

namespace Payroll

def BonusTier.Written (t : BonusTier) (j : Json) : Prop :=
  ∃ row, j.row? 2 = some row ∧
    row.Gives 0 ["threshold"] (Decimal.ofJson? · = some t.threshold) ∧
      row.Gives 1 ["bonus", "amount"] (Decimal.ofJson? · = some t.bonus)

def Json.Row.GivesTiers (row : Json.Row) (index : ℕ) (spellings : List String)
    (tiers : List BonusTier) : Prop :=
  row.Gives index spellings (fun j => ∃ items, j = .array items ∧
    tiers.Forall₂ BonusTier.Written items) ∨ row.Omits index spellings ∧ tiers = []

def Json.Row.GivesAmount? (row : Json.Row) (index : ℕ) (spellings : List String) :
    Option Decimal → Prop
  | some amount => row.Gives index spellings (Decimal.ofJson? · = some amount)
  | none => row.Gives index spellings (· = .null) ∨ row.Omits index spellings

namespace Block

inductive Written : Block → Json → Prop
  | salary {j : Json} {row : Json.Row} {amount : Decimal} {tiers : List BonusTier}
      (tagged : j.tagged? = some ("basic_salary", row)) (fits : row.fits 2 = true)
      (amounts : row.Gives 0 ["amount", "base_salary", "baseSalary"]
        (Decimal.ofJson? · = some amount))
      (bonuses : row.GivesTiers 1 ["tiered_bonus", "tieredBonus", "bonus_tiers"] tiers) :
      Written (.salary amount tiers) j
  | commission {j : Json} {row : Json.Row} {terms : CommissionTerms}
      (tagged : j.tagged? = some ("commission", row)) (fits : row.fits 2 = true)
      (rate : row.Gives 0 ["rate"] (Decimal.ofJson? · = some terms.rate))
      (threshold : row.Gives 1 ["threshold"] (Decimal.ofJson? · = some terms.threshold) ∨
        row.Omits 1 ["threshold"] ∧ terms.threshold = .zero) :
      Written (.commission terms) j
  | other {j : Json} {row : Json.Row} {tag : String}
      (tagged : j.tagged? = some (tag, row)) (fits : row.fits 0 = true)
      (notSalary : tag ≠ "basic_salary") (notCommission : tag ≠ "commission") :
      Written .other j

def isSalary : Block → Bool
  | salary _ _ => true
  | _ => false

def isCommission : Block → Bool
  | commission _ => true
  | _ => false

end Block

namespace SalaryTerms

/-- The terms as the fields of one object. -/
structure InFields (t : SalaryTerms) (fields : List (String × Json)) : Prop where
  unblocked : (Json.Row.named fields).Omits 0 ["blocks"]
  base : (Json.Row.named fields).Gives 0 ["base_salary", "baseSalary", "basic_salary"]
    (Decimal.ofJson? · = some t.base)
  tiers : (Json.Row.named fields).GivesTiers 3 ["bonus_tiers", "bonusTiers", "tiered_bonus"] t.tiers
  rate : (Json.Row.named fields).GivesAmount? 1 ["commission_rate", "commissionRate"]
    (t.commission.map (·.rate))
  threshold : ∃ threshold : Option Decimal,
    (Json.Row.named fields).GivesAmount? 2 ["commission_threshold", "commissionThreshold"]
      threshold ∧
    ∀ c ∈ t.commission, c.threshold = threshold.getD .zero

/-- The terms as a list of blocks, where the first block of a kind counts. -/
def InBlocks (t : SalaryTerms) (fields : List (String × Json)) : Prop :=
  ∃ blocks : List Block,
    (Json.Row.named fields).Gives 0 ["blocks"] (fun j => ∃ items, j = .array items ∧
      blocks.Forall₂ Block.Written items) ∧
    blocks.find? (·.isSalary) = some (.salary t.base t.tiers) ∧
    blocks.find? (·.isCommission) = t.commission.map .commission

/-- The terms in one of the two forms. -/
def Written (t : SalaryTerms) : Json → Prop
  | .object fields => t.InFields fields ∨ t.InBlocks fields
  | _ => False

def inOrder (t : SalaryTerms) : SalaryTerms := { t with tiers := BonusTier.sorted t.tiers }

end SalaryTerms

theorem BonusTier.ofJson?_eq_some_iff {t : BonusTier} {j : Json} :
    ofJson? j = some t ↔ t.Written j := by
  unfold ofJson? Written
  rw [Option.bind_eq_some_iff]
  apply exists_congr
  intro row
  apply and_congr_right
  intro _
  constructor
  · intro h
    obtain ⟨threshold, hthreshold, h⟩ := Option.bind_eq_some_iff.mp h
    obtain ⟨bonus, hbonus, h⟩ := Option.bind_eq_some_iff.mp h
    cases h
    exact ⟨Json.Row.required?_eq_some_iff.mp hthreshold, Json.Row.required?_eq_some_iff.mp hbonus⟩
  · rintro ⟨hthreshold, hbonus⟩
    rw [ofRow?, Json.Row.required?_eq_some_iff.mpr hthreshold,
      Json.Row.required?_eq_some_iff.mpr hbonus]
    rfl

namespace Json.Row

variable {row : Row} {index : ℕ} {spellings : List String}

theorem default?_tiers_eq_some_iff {tiers : List BonusTier} :
    row.default? index spellings [] (list? BonusTier.ofJson?) = some tiers ↔
      row.GivesTiers index spellings tiers := by
  rw [default?_eq_some_iff]
  simp only [list?_eq_some_iff, BonusTier.ofJson?_eq_some_iff]
  rfl

theorem optional?_amount_eq_some_iff {amount : Option Decimal} :
    row.optional? index spellings Decimal.ofJson? = some amount ↔
      row.GivesAmount? index spellings amount := by
  have hread (j : Json) : j.optional? Decimal.ofJson? = some amount ↔
      amount.elim (j = .null) (Decimal.ofJson? j = some ·) := by
    cases amount <;> cases j <;> simp [Json.optional?, Decimal.ofJson?]
  rw [optional?, default?_eq_some_iff]
  simp only [hread]
  cases amount with
  | none => simp [GivesAmount?]
  | some a => simp [GivesAmount?]

end Json.Row

open Json.Row

namespace Block

variable {blocks : List Block}

theorem ofJson?_eq_some_iff {b : Block} {j : Json} : ofJson? j = some b ↔ b.Written j := by
  constructor
  · intro h
    obtain ⟨⟨tag, row⟩, htagged, h⟩ := Option.bind_eq_some_iff.mp h
    dsimp only at h
    split at h
    · next hsalary =>
      split at h
      · next hfits =>
        obtain ⟨amount, hamount, h⟩ := Option.bind_eq_some_iff.mp h
        obtain ⟨tiers, htiers, h⟩ := Option.bind_eq_some_iff.mp h
        cases h
        exact .salary (hsalary ▸ htagged) hfits (required?_eq_some_iff.mp hamount)
          (default?_tiers_eq_some_iff.mp htiers)
      · cases h
    · next hsalary =>
      split at h
      · next hcommission =>
        split at h
        · next hfits =>
          obtain ⟨terms, hterms, h⟩ := Option.bind_eq_some_iff.mp h
          obtain ⟨rate, hrate, hterms⟩ := Option.bind_eq_some_iff.mp hterms
          obtain ⟨threshold, hthreshold, hterms⟩ := Option.bind_eq_some_iff.mp hterms
          cases hterms
          cases h
          exact .commission (hcommission ▸ htagged) hfits (required?_eq_some_iff.mp hrate)
            (default?_eq_some_iff.mp hthreshold)
        · cases h
      · next hcommission =>
        split at h
        · next hfits =>
          cases h
          exact .other htagged hfits hsalary hcommission
        · cases h
  · rintro (⟨tagged, fits, amounts, bonuses⟩ | ⟨tagged, fits, rate, threshold⟩ |
      ⟨tagged, fits, notSalary, notCommission⟩)
    · simp [ofJson?, tagged, fits, required?_eq_some_iff.mpr amounts,
        default?_tiers_eq_some_iff.mpr bonuses]
    · simp [ofJson?, tagged, fits, CommissionTerms.ofRow?, required?_eq_some_iff.mpr rate,
        default?_eq_some_iff.mpr threshold]
    · simp [ofJson?, tagged, fits, notSalary, notCommission]

theorem required?_eq_some_iff {row : Json.Row} :
    row.required? 0 ["blocks"] (Json.list? Block.ofJson?) = some blocks ↔
      row.Gives 0 ["blocks"] (fun j => ∃ items, j = .array items ∧
        blocks.Forall₂ Written items) := by
  simp only [Json.Row.required?_eq_some_iff, Json.list?_eq_some_iff, ofJson?_eq_some_iff]

theorem firstSalary?_eq_some_iff {amount : Decimal} {tiers : List BonusTier} :
    firstSalary? blocks = some (amount, tiers) ↔
      blocks.find? (·.isSalary) = some (.salary amount tiers) := by
  induction blocks with
  | nil => simp [firstSalary?]
  | cons b rest ih => cases b <;> simp [firstSalary?, isSalary, ih]

theorem firstCommission?_eq_iff {terms : Option CommissionTerms} :
    firstCommission? blocks = terms ↔
      blocks.find? (·.isCommission) = terms.map .commission := by
  induction blocks with
  | nil => cases terms <;> simp [firstCommission?]
  | cons b rest ih => cases b <;> cases terms <;> simp [firstCommission?, isCommission, ih]

end Block

namespace SalaryTerms

variable {t : SalaryTerms} {fields : List (String × Json)}

theorem Fields.ofRow?_eq_some_iff {row : Json.Row} {f : Fields} :
    ofRow? row = some f ↔
      row.GivesAmount? 0 ["base_salary", "baseSalary", "basic_salary"] f.base ∧
      row.GivesAmount? 1 ["commission_rate", "commissionRate"] f.rate ∧
      row.GivesAmount? 2 ["commission_threshold", "commissionThreshold"] f.threshold ∧
      row.GivesTiers 3 ["bonus_tiers", "bonusTiers", "tiered_bonus"] f.tiers := by
  simp only [← optional?_amount_eq_some_iff, ← default?_tiers_eq_some_iff]
  constructor
  · intro h
    obtain ⟨base, hbase, h⟩ := Option.bind_eq_some_iff.mp h
    obtain ⟨rate, hrate, h⟩ := Option.bind_eq_some_iff.mp h
    obtain ⟨threshold, hthreshold, h⟩ := Option.bind_eq_some_iff.mp h
    obtain ⟨tiers, htiers, h⟩ := Option.bind_eq_some_iff.mp h
    cases h
    exact ⟨hbase, hrate, hthreshold, htiers⟩
  · rintro ⟨hbase, hrate, hthreshold, htiers⟩
    rw [ofRow?, hbase, hrate, hthreshold, htiers]
    rfl

theorem ofFields_eq_ok_iff {f : Fields} {terms : SalaryTerms} :
    ofFields f = .ok terms ↔
      ∃ base, f.base = some base ∧
        terms = inOrder
          { base, tiers := f.tiers
            commission := f.rate.map fun rate =>
              { rate, threshold := f.threshold.getD .zero } } := by
  unfold ofFields
  cases f.base with
  | none => simp
  | some base => simp [inOrder, eq_comm]

theorem ofBlocks_eq_ok_iff {blocks : List Block} {terms : SalaryTerms} :
    ofBlocks blocks = .ok terms ↔
      ∃ t : SalaryTerms, terms = t.inOrder ∧
        blocks.find? (·.isSalary) = some (.salary t.base t.tiers) ∧
          blocks.find? (·.isCommission) = t.commission.map .commission := by
  simp only [← Block.firstSalary?_eq_some_iff, ← Block.firstCommission?_eq_iff]
  unfold ofBlocks
  constructor
  · intro h
    split at h
    · next base tiers hsalary =>
      cases h
      exact ⟨{ base, tiers, commission := Block.firstCommission? blocks }, rfl, hsalary, rfl⟩
    · cases h
  · rintro ⟨t, rfl, hsalary, hcommission⟩
    rw [hsalary, hcommission]
    rfl

theorem ofConfig_of_omits {terms : SalaryTerms}
    (h : (Json.Row.named fields).Omits 0 ["blocks"]) :
    ofConfig (.object fields) = .ok terms ↔
      ∃ t : SalaryTerms, terms = t.inOrder ∧ t.InFields fields := by
  have hlookup := lookup_eq_none_iff.mpr h
  simp only [ofConfig, hlookup, Option.isSome_none, Bool.false_eq_true, if_false]
  constructor
  · intro hread
    split at hread
    · next f hf =>
      obtain ⟨base, hbase, rfl⟩ := ofFields_eq_ok_iff.mp hread
      obtain ⟨hgiven, hrate, hthreshold, htiers⟩ := Fields.ofRow?_eq_some_iff.mp hf
      rw [hbase] at hgiven
      refine ⟨_, rfl, h, hgiven, htiers, ?_, f.threshold, hthreshold, ?_⟩
      · simpa [Function.comp_def] using hrate
      · intro c hc
        obtain ⟨rate, -, rfl⟩ := Option.map_eq_some_iff.mp hc
        rfl
    · cases hread
  · rintro ⟨t, rfl, ht⟩
    obtain ⟨threshold, hthreshold, hcommission⟩ := ht.threshold
    have hfields : Fields.ofRow? (.named fields) =
        some
          { base := some t.base, rate := t.commission.map (·.rate), threshold
            tiers := t.tiers } :=
      Fields.ofRow?_eq_some_iff.mpr ⟨ht.base, ht.rate, hthreshold, ht.tiers⟩
    rw [hfields]
    refine ofFields_eq_ok_iff.mpr ⟨t.base, rfl, ?_⟩
    -- A threshold without a rate is read, and has no effect.
    have hterms : ((t.commission.map (·.rate)).map fun rate =>
        ({ rate, threshold := threshold.getD .zero } : CommissionTerms)) = t.commission := by
      cases ht : t.commission with
      | none => rfl
      | some c =>
        rw [← hcommission c ht]
        rfl
    rw [hterms]

theorem ofConfig_of_not_omits {terms : SalaryTerms}
    (h : ¬(Json.Row.named fields).Omits 0 ["blocks"]) :
    ofConfig (.object fields) = .ok terms ↔
      ∃ t : SalaryTerms, terms = t.inOrder ∧ t.InBlocks fields := by
  have hlookup := Option.ne_none_iff_isSome.mp (mt lookup_eq_none_iff.mp h)
  simp only [ofConfig, hlookup, if_true]
  constructor
  · intro hok
    split at hok
    · next blocks hblocks =>
      obtain ⟨t, rfl, hfirst⟩ := ofBlocks_eq_ok_iff.mp hok
      exact ⟨t, rfl, blocks, Block.required?_eq_some_iff.mp hblocks, hfirst⟩
    · cases hok
  · rintro ⟨t, rfl, blocks, hgiven, hfirst⟩
    rw [Block.required?_eq_some_iff.mpr hgiven]
    exact ofBlocks_eq_ok_iff.mpr ⟨t, rfl, hfirst⟩

/-- A configuration is read if it is written in one of the two forms, and as that form says. -/
theorem ofConfig_object_eq_ok_iff {terms : SalaryTerms} :
    ofConfig (.object fields) = .ok terms ↔
      ∃ t : SalaryTerms, terms = t.inOrder ∧ (t.InFields fields ∨ t.InBlocks fields) := by
  by_cases h : (Json.Row.named fields).Omits 0 ["blocks"]
  · rw [ofConfig_of_omits h]
    have hblocks (t : SalaryTerms) : ¬t.InBlocks fields := fun ⟨_, hgiven, _⟩ => hgiven.not_omits h
    simp only [hblocks, or_false]
  · rw [ofConfig_of_not_omits h]
    have hfields (t : SalaryTerms) : ¬t.InFields fields := fun ht => h ht.unblocked
    simp only [hfields, false_or]

theorem ofConfig_eq_ok_iff {config : Json} {terms : SalaryTerms} :
    ofConfig config = .ok terms ↔ ∃ t : SalaryTerms, terms = t.inOrder ∧ t.Written config := by
  cases config with
  | object fields => exact ofConfig_object_eq_ok_iff
  | _ =>
    refine iff_of_false nofun ?_
    rintro ⟨t, -, h⟩
    exact h

theorem Written.inOrder_eq {config : Json} {t t' : SalaryTerms} (h : t.Written config)
    (h' : t'.Written config) : t.inOrder = t'.inOrder := by
  have hread := ofConfig_eq_ok_iff.mpr ⟨t, rfl, h⟩
  rw [ofConfig_eq_ok_iff.mpr ⟨t', rfl, h'⟩] at hread
  exact (Except.ok.inj hread).symm

theorem ofPlan_of_written {plan : Plan} {t : SalaryTerms} (h : t.Written plan.config) :
    ofPlan plan = .ok t.inOrder := by
  rw [ofPlan, ofConfig_eq_ok_iff.mpr ⟨t, rfl, h⟩]
  rfl

theorem exists_written_of_ofPlan {plan : Plan} {terms : SalaryTerms} (h : ofPlan plan = .ok terms) :
    ∃ t : SalaryTerms, terms = t.inOrder ∧ t.Written plan.config := by
  apply ofConfig_eq_ok_iff.mp
  unfold ofPlan at h
  cases hconfig : ofConfig plan.config with
  | error fault =>
    rw [hconfig] at h
    cases h
  | ok terms' =>
    rw [hconfig] at h
    cases h
    rfl

end SalaryTerms

/-- Terms that stand in fields and the same terms in blocks are one structure, and a plan with the
one configuration pays what it pays with the other. -/
theorem SalaryTerms.forms_agree {t : SalaryTerms} {flat blocks : List (String × Json)}
    (hflat : t.InFields flat) (hblocks : t.InBlocks blocks) (r : Request) :
    ofPlan { r.plan with config := .object flat } = .ok t.inOrder ∧
      ofPlan { r.plan with config := .object blocks } = .ok t.inOrder ∧
        ∀ c : Calculator, c.kind = .fixed ∨ c.kind = .commission →
          c.compute { r with plan := { r.plan with config := .object flat } } =
            c.compute { r with plan := { r.plan with config := .object blocks } } := by
  have hflat : ofPlan { r.plan with config := .object flat } = .ok t.inOrder :=
    ofPlan_of_written (.inl hflat)
  have hblocks : ofPlan { r.plan with config := .object blocks } = .ok t.inOrder :=
    ofPlan_of_written (.inr hblocks)
  have hsalaried (rule : Pay.CommissionRule) :
      Pay.salaried rule { r with plan := { r.plan with config := .object flat } } =
        Pay.salaried rule { r with plan := { r.plan with config := .object blocks } } := by
    unfold Pay.salaried
    rw [hflat, hblocks]
    rfl
  refine ⟨hflat, hblocks, ?_⟩
  rintro ⟨kind, formula, cache⟩ (rfl | rfl)
  · exact hsalaried .fixed
  · exact hsalaried .sales

def halfTerms : SalaryTerms where
  base := .hundred
  tiers := [{ threshold := .hundred, bonus := .one }, { threshold := .one, bonus := .zero }]
  commission := some { rate := ⟨false, 5, 1, by decide, by decide⟩ }

def halfInFields : List (String × Json) :=
  [("baseSalary", .string "100"), ("commissionRate", .string "0.5"),
    ("commission_threshold", .null),
    ("bonusTiers", .array
      [.object [("threshold", .string "100"), ("bonus", .string "1")],
        .object [("threshold", .string "1"), ("amount", .string "0")]])]

def halfInBlocks : List (String × Json) :=
  [("blocks", .array
    [.object [("type", .string "commission"), ("rate", .string "0.5")],
      .object [("type", .string "note")],
      .object
        [("base_salary", .natural 100), ("type", .string "basic_salary"),
          ("tieredBonus", .array
            [.array [.natural 100, .natural 1],
              .object [("amount", .natural 0), ("threshold", .natural 1)]])],
      .object [("type", .string "basic_salary"), ("amount", .natural 1)]])]

def halfRequest (config : Json) : Request where
  employee := { id := "e1" }
  plan := { id := "p1", type := "fixed", name := "Half", config }
  sales := .hundred
  period := "2024-01"

theorem halfTerms_inFields : halfTerms.InFields halfInFields where
  unblocked := lookup_eq_none_iff.mp (by decide +kernel)
  base := Json.Row.required?_eq_some_iff.mp (by decide +kernel)
  tiers := default?_tiers_eq_some_iff.mp (by decide +kernel)
  rate := optional?_amount_eq_some_iff.mp (by decide +kernel)
  threshold := ⟨none, optional?_amount_eq_some_iff.mp (by decide +kernel), by simp [halfTerms]⟩

theorem halfTerms_inBlocks : halfTerms.InBlocks halfInBlocks := by
  refine ⟨[.commission { rate := ⟨false, 5, 1, by decide, by decide⟩ }, .other,
    .salary .hundred halfTerms.tiers, .salary .one []], ?_, rfl, rfl⟩
  apply Block.required?_eq_some_iff.mp
  rfl

theorem SalaryTerms.forms_agree_halfTerms :
    halfTerms.InFields halfInFields ∧ halfTerms.InBlocks halfInBlocks ∧
      ({ kind := .fixed } : Calculator).compute (halfRequest (.object halfInFields)) =
        ({ kind := .fixed } : Calculator).compute (halfRequest (.object halfInBlocks)) := by
  obtain ⟨-, -, hcompute⟩ :=
    SalaryTerms.forms_agree halfTerms_inFields halfTerms_inBlocks (halfRequest .null)
  exact ⟨halfTerms_inFields, halfTerms_inBlocks, hcompute { kind := .fixed } (.inl rfl)⟩

end Payroll
