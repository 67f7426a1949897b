import Payroll.Proofs.Decimal.Sorted
import Payroll.Proofs.Pay.Reading
import Payroll.Proofs.Plan.Forms

/-!
# The order of rows

Tiers and brackets are sorted as soon as they are read, and whatever depends on the place of a row
is made afterwards. So the order in which a plan lists them has no part in what it pays, as long as
no two rows have one threshold.
-/

set_option autoImplicit false

namespace Payroll

open Json.Row

/-- The same items in another order, with distinct amounts in what is read of them. -/
def Json.Rearranges {α : Type} (decode : Json → Option α) (key : α → Decimal) (x y : Json) : Prop :=
  ∃ items items', x = .array items ∧ y = .array items' ∧ items.Perm items' ∧
    ∀ rows, items.mapM decode = some rows → (rows.map fun row => (key row).value).Nodup

def Block.Rearranges (x y : Json) : Prop :=
  ∃ row row', x.tagged? = some ("basic_salary", row) ∧ y.tagged? = some ("basic_salary", row') ∧
    Changes 1 ["tiered_bonus", "tieredBonus", "bonus_tiers"]
      (Json.Rearranges BonusTier.ofJson? BonusTier.threshold) row row'

/-- The configuration of a fixed or a commission plan with its tiers in another order. -/
inductive SalaryTerms.Rearranges : Json → Json → Prop
  | fields {fields fields' : List (String × Json)}
    (h : Changes 3 ["bonus_tiers", "bonusTiers", "tiered_bonus"]
      (Json.Rearranges BonusTier.ofJson? BonusTier.threshold) (.named fields) (.named fields')) :
    Rearranges (.object fields) (.object fields')
  | blocks {fields fields' : List (String × Json)}
    (h : Changes 0 ["blocks"]
      (fun x y => ∃ items items', x = .array items ∧ y = .array items' ∧
        items.Forall₂ (fun item item' => item = item' ∨ Block.Rearranges item item') items')
      (.named fields) (.named fields')) :
    Rearranges (.object fields) (.object fields')

/-- The configuration of a bracket plan with its brackets in another order. -/
def BracketTerms.Rearranges (x y : Json) : Prop :=
  ∃ row row', x.row? 4 = some row ∧ y.row? 4 = some row' ∧
    Changes 2 ["brackets", "tiers"] (Json.Rearranges Bracket.ofJson? Bracket.threshold) row row'

section
variable {α : Type} {decode : Json → Option α}

theorem Json.exists_mapM_of_perm {items items' : List Json} (h : items.Perm items') {rows : List α}
    (hrows : items.mapM decode = some rows) :
    ∃ rows', items'.mapM decode = some rows' ∧ rows.Perm rows' := by
  have hitems := (mapM_eq_some_iff.mp hrows).flip
  obtain ⟨rows', hrows', hperm⟩ := List.perm_comp_forall₂ h.symm hitems
  exact ⟨rows', mapM_eq_some_iff.mpr hrows'.flip, hperm.symm⟩

theorem Json.Rearranges.map_list? {key : α → Decimal} {x y : Json}
    (h : Json.Rearranges decode key x y) :
    (x.list? decode).map (·.mergeSort fun a b => (key a).le (key b)) =
      (y.list? decode).map (·.mergeSort fun a b => (key a).le (key b)) := by
  obtain ⟨items, items', rfl, rfl, hperm, hdistinct⟩ := h
  unfold Json.list?
  dsimp only
  cases hrows : items.mapM decode with
  | some rows =>
    obtain ⟨rows', hrows', hsame⟩ := Json.exists_mapM_of_perm hperm hrows
    rw [hrows']
    exact congrArg some (Decimal.mergeSort_eq_of_perm hsame (hdistinct rows hrows))
  | none =>
    cases hrows' : items'.mapM decode with
    | none => rfl
    | some rows' =>
      obtain ⟨rows, hnone, -⟩ := Json.exists_mapM_of_perm hperm.symm hrows'
      rw [hrows] at hnone
      cases hnone

end

theorem BonusTier.map_list?_of_rearranges {x y : Json}
    (h : Json.Rearranges BonusTier.ofJson? BonusTier.threshold x y) :
    (x.list? ofJson?).map sorted = (y.list? ofJson?).map sorted :=
  h.map_list?

theorem Bracket.map_list?_of_rearranges {x y : Json}
    (h : Json.Rearranges Bracket.ofJson? Bracket.threshold x y) :
    (x.list? ofJson?).map sorted = (y.list? ofJson?).map sorted :=
  h.map_list?

namespace Block

def inOrder : Block → Block
  | salary amount tiers => .salary amount (BonusTier.sorted tiers)
  | b => b

theorem firstSalary?_map_inOrder (blocks : List Block) :
    firstSalary? (blocks.map inOrder) =
      (firstSalary? blocks).map fun (amount, tiers) => (amount, BonusTier.sorted tiers) := by
  induction blocks with
  | nil => rfl
  | cons b rest ih => cases b <;> first | rfl | exact ih

theorem firstCommission?_map_inOrder (blocks : List Block) :
    firstCommission? (blocks.map inOrder) = firstCommission? blocks := by
  induction blocks with
  | nil => rfl
  | cons b rest ih => cases b <;> first | rfl | exact ih

theorem map_ofJson?_of_rearranges {x y : Json} (h : Rearranges x y) :
    (ofJson? x).map inOrder = (ofJson? y).map inOrder := by
  obtain ⟨row, row', hx, hy, hrow⟩ := h
  have hread (j : Json) (row : Json.Row) (hj : j.tagged? = some ("basic_salary", row)) :
      ofJson? j =
        if row.fits 2 then do
          let amount ← row.required? 0 ["amount", "base_salary", "baseSalary"] Decimal.ofJson?
          let tiers ← row.default? 1 ["tiered_bonus", "tieredBonus", "bonus_tiers"] []
            (Json.list? BonusTier.ofJson?)
          return .salary amount tiers
        else none := by
    unfold ofJson?
    rw [hj]
    rfl
  rw [hread x row hx, hread y row' hy, hrow.fits,
    hrow.required?_other (by decide) (by decide)]
  split
  · refine map_bind_congr_option (f := id) rfl ?_
    rintro amount _ rfl
    refine map_bind_congr_option
      (hrow.map_default? (fun _ _ => BonusTier.map_list?_of_rearranges) [])
        fun tiers tiers' htiers => ?_
    exact congrArg (fun tiers => some (salary amount tiers)) htiers
  · rfl

theorem map_mapM_ofJson?_of_rearranges {items items' : List Json}
    (h : items.Forall₂ (fun item item' => item = item' ∨ Rearranges item item') items') :
    (items.mapM ofJson?).map (List.map inOrder) = (items'.mapM ofJson?).map (List.map inOrder) := by
  induction h with
  | nil => rfl
  | @cons item item' rest rest' hitem _ ih =>
    have hblock : (ofJson? item).map inOrder = (ofJson? item').map inOrder := by
      rcases hitem with rfl | hitem
      · rfl
      · exact map_ofJson?_of_rearranges hitem
    rw [List.mapM_cons, List.mapM_cons]
    refine map_bind_congr_option hblock fun b b' hb => ?_
    refine map_bind_congr_option ih fun bs bs' hbs => ?_
    exact congrArg some (congrArg₂ List.cons hb hbs)

end Block

namespace SalaryTerms

theorem ofBlocks_congr {blocks blocks' : List Block}
    (h : blocks.map Block.inOrder = blocks'.map Block.inOrder) :
    ofBlocks blocks = ofBlocks blocks' := by
  have hsalary := Block.firstSalary?_map_inOrder blocks
  have hcommission := Block.firstCommission?_map_inOrder blocks
  rw [h, Block.firstSalary?_map_inOrder] at hsalary
  rw [h, Block.firstCommission?_map_inOrder] at hcommission
  unfold ofBlocks
  rw [← hcommission]
  cases hfirst : Block.firstSalary? blocks with
  | none =>
    rw [hfirst] at hsalary
    rw [Option.map_eq_none_iff.mp hsalary]
  | some salary =>
    rw [hfirst] at hsalary
    obtain ⟨⟨base', tiers'⟩, hfirst', heq⟩ := Option.map_eq_some_iff.mp hsalary
    obtain ⟨rfl, htiers⟩ := Prod.mk.inj heq
    rw [hfirst']
    dsimp only
    rw [htiers]

def Fields.inOrder (f : Fields) : Fields := { f with tiers := BonusTier.sorted f.tiers }

theorem ofFields_congr {f f' : Fields} (h : f.inOrder = f'.inOrder) : ofFields f = ofFields f' := by
  obtain ⟨base, rate, threshold, tiers⟩ := f
  obtain ⟨base', rate', threshold', tiers'⟩ := f'
  obtain ⟨rfl, rfl, rfl, htiers⟩ := Fields.mk.inj h
  unfold ofFields
  dsimp only at htiers ⊢
  rw [htiers]

theorem Fields.map_ofRow?_of_changes {row row' : Json.Row}
    (h : Changes 3 ["bonus_tiers", "bonusTiers", "tiered_bonus"]
      (Json.Rearranges BonusTier.ofJson? BonusTier.threshold) row row') :
    (ofRow? row).map inOrder = (ofRow? row').map inOrder := by
  unfold ofRow? optional?
  rw [h.default?_other (by decide) (by decide), h.default?_other (by decide) (by decide),
    h.default?_other (by decide) (by decide)]
  refine map_bind_congr_option (f := id) rfl ?_
  rintro base _ rfl
  refine map_bind_congr_option (f := id) rfl ?_
  rintro rate _ rfl
  refine map_bind_congr_option (f := id) rfl ?_
  rintro threshold _ rfl
  refine map_bind_congr_option
    (h.map_default? (fun _ _ => BonusTier.map_list?_of_rearranges) []) fun tiers tiers' htiers => ?_
  exact congrArg (fun tiers => some (Fields.mk base rate threshold tiers)) htiers

theorem ofConfig_of_rearranges {x y : Json} (h : Rearranges x y) : ofConfig x = ofConfig y := by
  cases h with
  | @fields fields fields' h =>
    have hblocks : (fields'.lookup "blocks").isSome = (fields.lookup "blocks").isSome := by
      rw [Bool.eq_iff_iff, ← Option.ne_none_iff_isSome, ← Option.ne_none_iff_isSome, ne_eq, ne_eq,
        lookup_eq_none_iff, lookup_eq_none_iff, omits_iff, omits_iff,
        h.cell?_other (by decide) (by decide)]
    unfold ofConfig
    dsimp only
    rw [hblocks, h.required?_other (by decide) (by decide)]
    split
    · rfl
    · rcases cases_of_map_eq_option (Fields.map_ofRow?_of_changes h) with
        ⟨hf, hf'⟩ | ⟨f, f', hf, hf', hsame⟩
      · rw [hf, hf']
      · rw [hf, hf']
        exact ofFields_congr hsame
  | @blocks fields fields' h =>
    obtain ⟨hgiven, hgiven'⟩ := h.not_omits
    rw [← lookup_eq_none_iff, ← ne_eq, Option.ne_none_iff_isSome] at hgiven hgiven'
    have hread : ∀ x y : Json, (∃ items items', x = .array items ∧ y = .array items' ∧
        items.Forall₂ (fun item item' => item = item' ∨ Block.Rearranges item item') items') →
          (x.list? Block.ofJson?).map (List.map Block.inOrder) =
            (y.list? Block.ofJson?).map (List.map Block.inOrder) := by
      rintro x y ⟨items, items', rfl, rfl, hitems⟩
      exact Block.map_mapM_ofJson?_of_rearranges hitems
    unfold ofConfig
    dsimp only
    rw [if_pos hgiven, if_pos hgiven']
    rcases cases_of_map_eq_option (h.map_required? hread) with
      ⟨hbs, hbs'⟩ | ⟨bs, bs', hbs, hbs', hsame⟩
    · rw [hbs, hbs']
    · rw [hbs, hbs']
      exact ofBlocks_congr hsame

end SalaryTerms

theorem Bracket.sorted_of_swapped {a b : Bracket} (h : a.threshold.le b.threshold = false) :
    sorted [a, b] = [b, a] := by
  simp [sorted, List.mergeSort, h]

namespace BracketTerms

def inOrder (t : BracketTerms) : BracketTerms := { t with brackets := Bracket.sorted t.brackets }

theorem map_ofJson?_of_rearranges {x y : Json} (h : Rearranges x y) :
    (ofJson? x).map inOrder = (ofJson? y).map inOrder := by
  obtain ⟨row, row', hx, hy, hrow⟩ := h
  unfold ofJson? optional?
  rw [hx, hy]
  dsimp only [Option.bind_eq_bind, Option.bind_some]
  rw [hrow.default?_other (by decide) (by decide), hrow.default?_other (by decide) (by decide),
    hrow.default?_other (by decide) (by decide)]
  refine map_bind_congr_option (f := id) rfl ?_
  rintro base _ rfl
  refine map_bind_congr_option (f := id) rfl ?_
  rintro threshold _ rfl
  refine map_bind_congr_option
    (hrow.map_required? fun _ _ => Bracket.map_list?_of_rearranges) fun brackets brackets' h => ?_
  refine map_bind_congr_option (f := id) rfl ?_
  rintro targetBonus _ rfl
  exact congrArg (fun brackets => some (BracketTerms.mk base threshold brackets targetBonus)) h

/-- The terms that a configuration gives are in order, and have brackets none of which takes a
percentage away. -/
theorem ofConfig_eq_ok_iff {config : Json} {terms : BracketTerms} :
    ofConfig config = .ok terms ↔
      (ofJson? config).map inOrder = some terms ∧ terms.brackets ≠ [] ∧
        ∀ b ∈ terms.brackets, b.percentage.lt .zero = false := by
  have hnil (brackets : List Bracket) : Bracket.sorted brackets = [] ↔ brackets = [] := by
    rw [Bracket.sorted, ← List.length_eq_zero_iff, List.length_mergeSort, List.length_eq_zero_iff]
  unfold ofConfig
  cases ofJson? config with
  | none => exact iff_of_false nofun nofun
  | some t =>
    constructor
    · intro h
      dsimp only at h
      split at h
      · cases h
      · next hsome =>
        split at h
        · cases h
        · next hnone =>
          cases h
          rw [List.find?_eq_none] at hnone
          refine ⟨rfl, mt (hnil t.brackets).mp (mt List.isEmpty_iff.mpr hsome), ?_⟩
          intro b hb
          exact Bool.eq_false_of_not_eq_true (hnone b (List.mem_mergeSort.mp hb))
    · rintro ⟨h, hsome, hnone⟩
      cases h
      have hfind : t.brackets.find? (fun b => b.percentage.lt .zero) = none := by
        rw [List.find?_eq_none]
        intro b hb
        rw [hnone b (List.mem_mergeSort.mpr hb)]
        exact Bool.false_ne_true
      dsimp only
      rw [if_neg (mt List.isEmpty_iff.mp (mt (hnil t.brackets).mpr hsome)), hfind]
      rfl

theorem ofPlan_eq_ok_iff_of_rearranges {plan plan' : Plan}
    (h : Rearranges plan.config plan'.config) {terms : BracketTerms} :
    ofPlan plan = .ok terms ↔ ofPlan plan' = .ok terms := by
  have hread (plan : Plan) : ofPlan plan = .ok terms ↔ ofConfig plan.config = .ok terms := by
    unfold ofPlan
    cases ofConfig plan.config <;> simp [Except.mapError]
  rw [hread, hread, ofConfig_eq_ok_iff, ofConfig_eq_ok_iff, map_ofJson?_of_rearranges h]

end BracketTerms

namespace Pay

variable {r : Request} {config : Json}

theorem salaried_of_rearranges (h : SalaryTerms.Rearranges r.plan.config config)
    (rule : CommissionRule) : salaried rule r = salaried rule (r.withConfig config) := by
  have hterms : SalaryTerms.ofPlan r.plan = SalaryTerms.ofPlan (r.withConfig config).plan :=
    congrArg (Except.mapError (PayError.configuration r.plan.id))
      (SalaryTerms.ofConfig_of_rearranges h)
  unfold salaried
  rw [hterms]
  rfl

/-- Which bracket a refusal names depends on their order, so only what is paid is the same. -/
theorem bracketed_of_rearranges (h : BracketTerms.Rearranges r.plan.config config) (p : Payslip) :
    bracketed r = .ok p ↔ bracketed (r.withConfig config) = .ok p := by
  have hterms (terms : BracketTerms) : BracketTerms.ofPlan r.plan = .ok terms ↔
      BracketTerms.ofPlan (r.withConfig config).plan = .ok terms :=
    BracketTerms.ofPlan_eq_ok_iff_of_rearranges h
  unfold bracketed
  cases hread : BracketTerms.ofPlan r.plan with
  | ok terms =>
    rw [(hterms terms).mp hread]
    rfl
  | error cause =>
    cases hread' : BracketTerms.ofPlan (r.withConfig config).plan with
    | error cause' => exact iff_of_false nofun nofun
    | ok terms =>
      rw [(hterms terms).mpr hread'] at hread
      cases hread

end Pay

/-- A plan with its rows in another order pays the same, to every line, if no two rows have one
threshold. -/
theorem Calculator.compute_of_rearranges {c : Calculator} {r : Request} {config : Json}
    (h : (c.kind = .fixed ∨ c.kind = .commission) ∧ SalaryTerms.Rearranges r.plan.config config ∨
      c.kind = .tieredCommission ∧ BracketTerms.Rearranges r.plan.config config) (p : Payslip) :
    c.compute r = .ok p ↔ c.compute (r.withConfig config) = .ok p := by
  unfold compute
  rcases h with ⟨hc | hc, hconfig⟩ | ⟨hc, hconfig⟩
  · rw [hc]
    dsimp only
    rw [Pay.salaried_of_rearranges hconfig]
  · rw [hc]
    dsimp only
    rw [Pay.salaried_of_rearranges hconfig]
  · rw [hc]
    exact Pay.bracketed_of_rearranges hconfig p

def descendingRows : List Json :=
  [.object [("threshold", .natural 100), ("rate", .natural 2)],
    .array [.natural 10, .natural 5, .string "Low"]]

def rowsConfig (rows : List Json) : Json :=
  .object [("brackets", .array rows), ("baseSalary", .natural 1)]

def rowsRequest (rows : List Json) : Request where
  employee := { id := "e1" }
  plan := { id := "p1", type := "tiered", name := "Plan", config := rowsConfig rows }
  sales := .hundred
  period := "2024-01"

theorem rearranges_rowsConfig :
    BracketTerms.Rearranges (rowsConfig descendingRows) (rowsConfig descendingRows.reverse) := by
  refine ⟨_, _, rfl, rfl, ?_⟩
  refine Changes.named [] _ (by decide)
    ⟨_, _, rfl, rfl, (List.reverse_perm _).symm, fun rows hrows => ?_⟩
  have hdistinct : (descendingRows.mapM Bracket.ofJson?).all
      (fun rows => decide (rows.map (·.threshold.value)).Nodup) = true := by decide +kernel
  rw [hrows] at hdistinct
  exact of_decide_eq_true hdistinct

theorem Calculator.compute_rowsRequest :
    BracketTerms.Rearranges (rowsConfig descendingRows) (rowsConfig descendingRows.reverse) ∧
      ∃ p, ({ kind := .tieredCommission } : Calculator).compute (rowsRequest descendingRows) =
          .ok p ∧ p.lines.length = 3 ∧
        ({ kind := .tieredCommission } : Calculator).compute
          ((rowsRequest descendingRows).withConfig (rowsConfig descendingRows.reverse)) =
            .ok p := by
  have hterms : BracketTerms.ofPlan (rowsRequest descendingRows).plan = .ok
      { base := .one
        brackets := Bracket.sorted
          [⟨.hundred, ⟨false, 2, 0, by decide, by decide⟩, none⟩,
            ⟨⟨false, 10, 0, by decide, by decide⟩, ⟨false, 5, 0, by decide, by decide⟩,
              some "Low"⟩] } :=
    rfl
  rw [Bracket.sorted_of_swapped (by decide)] at hterms
  have hanswer : (({ kind := .tieredCommission } : Calculator).compute
      (rowsRequest descendingRows)).toOption.map (·.lines.length) = some 3 := by
    change (Pay.bracketed (rowsRequest descendingRows)).toOption.map (·.lines.length) = _
    rw [Pay.bracketed, hterms]
    rfl
  obtain ⟨p, hp, hlines⟩ := exists_ok_of_toOption_map hanswer
  refine ⟨rearranges_rowsConfig, p, hp, hlines, ?_⟩
  exact (compute_of_rearranges (.inr ⟨rfl, rearranges_rowsConfig⟩) p).mp hp

end Payroll
