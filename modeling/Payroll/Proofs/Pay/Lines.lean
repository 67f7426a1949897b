import Mathlib.Algebra.BigOperators.Ring.List
import Payroll.Calculator
import Payroll.Proofs.Decimal.Exact
import Payroll.Proofs.Pay.Allocation
import Payroll.Proofs.Pay.Overflow
import Payroll.Proofs.Pay.Reading

/-!
# Lines and totals

The lines of a payslip come in a fixed order and list every transaction once. Where no sum drops
digits they account for the total: exactly, or for bracket plans up to half a cent, because brackets
list what they contribute before the commission is rounded. What a formula pays is its answer,
whatever its lines add up to.
-/

set_option autoImplicit false

namespace Payroll

open Decimal Halt

namespace Payslip

/-- Where lines of a kind stand. A commission has one line or one for each bracket. -/
def LineKind.place : LineKind → ℕ
  | baseSalary => 0
  | commission | commissionTier => 1
  | targetBonus => 2
  | formulaOutput => 3
  | bonus => 4
  | deduction => 5
  | loan => 6

/-- Deductions and loans are withheld. The answer of a formula is a total, and adds nothing. -/
def LineKind.sign : LineKind → ℚ
  | deduction | loan => -1
  | formulaOutput => 0
  | _ => 1

def Line.effect (l : Line) : ℚ := l.kind.sign * l.amount.value

def ofKind (p : Payslip) (kind : LineKind) : List Line := p.lines.filter (·.kind = kind)

/-- The lines are in order, and the transactions have a line each. -/
structure Itemises (p : Payslip) (r : Request) : Prop where
  ordered : p.lines.Pairwise fun a b => a.kind.place ≤ b.kind.place
  bonuses : p.ofKind .bonus = r.bonuses.map (Line.ofTransaction .bonus)
  deductions : p.ofKind .deduction = r.deductions.map (Line.ofTransaction .deduction)
  loans : p.ofKind .loan = r.loans.map (Line.ofTransaction .loan)

/-- No sum that leads to the total drops digits. -/
structure DropsNoDigits (p : Payslip) (r : Request) : Prop where
  tiers : SumsExactly ((p.ofKind .commissionTier).map (·.amount.value))
  bonuses : SumsExactly (r.bonuses.map (·.amount.value))
  deductions : SumsExactly (r.deductions.map (·.amount.value))
  loans : SumsExactly (r.loans.map (·.amount.value))
  net : SumsExactly
    [p.base.value, p.commission.value, p.targetBonus.value, p.bonusTotal.value,
      -p.deductionsTotal.value, -p.loansTotal.value]

instance (p : Payslip) (r : Request) : Decidable (p.DropsNoDigits r) :=
  decidable_of_iff
    (SumsExactly ((p.ofKind .commissionTier).map (·.amount.value)) ∧
      SumsExactly (r.bonuses.map (·.amount.value)) ∧
      SumsExactly (r.deductions.map (·.amount.value)) ∧
      SumsExactly (r.loans.map (·.amount.value)) ∧
      SumsExactly
        [p.base.value, p.commission.value, p.targetBonus.value, p.bonusTotal.value,
          -p.deductionsTotal.value, -p.loansTotal.value])
    ⟨fun ⟨tiers, bonuses, deductions, loans, net⟩ => ⟨tiers, bonuses, deductions, loans, net⟩,
      fun h => ⟨h.tiers, h.bonuses, h.deductions, h.loans, h.net⟩⟩

end Payslip

namespace Payslip

structure Spans (first last : ℕ) (lines : List Line) : Prop where
  first_le_last : first ≤ last
  ordered : lines.Pairwise fun a b => a.kind.place ≤ b.kind.place
  ge : ∀ l ∈ lines, first ≤ l.kind.place
  le : ∀ l ∈ lines, l.kind.place ≤ last

section
variable {first last first' last' : ℕ} {xs ys : List Line}

theorem spans_of_kind (kind : LineKind) (h : ∀ l ∈ xs, l.kind = kind) :
    Spans kind.place kind.place xs := by
  constructor
  · exact le_rfl
  · apply List.pairwise_of_forall_mem_list
    intro a ha b hb
    rw [h a ha, h b hb]
  · intro l hl
    rw [h l hl]
  · intro l hl
    rw [h l hl]

theorem Spans.append (hxs : Spans first last xs) (hys : Spans first' last' ys)
    (hbetween : last ≤ first') : Spans first last' (xs ++ ys) := by
  have hfirst : first ≤ first' := hxs.first_le_last.trans hbetween
  have hlast : last ≤ last' := hbetween.trans hys.first_le_last
  constructor
  · exact hfirst.trans hys.first_le_last
  · apply List.pairwise_append.mpr
    refine ⟨hxs.ordered, hys.ordered, ?_⟩
    intro a ha b hb
    have hab := hxs.le a ha
    have hba := hys.ge b hb
    omega
  · intro l hl
    rcases List.mem_append.mp hl with hl | hl
    · exact hxs.ge l hl
    · exact hfirst.trans (hys.ge l hl)
  · intro l hl
    rcases List.mem_append.mp hl with hl | hl
    · exact (hxs.le l hl).trans hlast
    · exact hys.le l hl

theorem kind_ofTransaction (kind : LineKind) (ts : List Transaction) :
    ∀ l ∈ ts.map (Line.ofTransaction kind), l.kind = kind := by
  intro l hl
  obtain ⟨t, -, rfl⟩ := List.mem_map.mp hl
  rfl

theorem filter_eq_self_of_kind {kind : LineKind} (h : ∀ l ∈ xs, l.kind = kind) :
    xs.filter (·.kind = kind) = xs := by
  apply List.filter_eq_self.mpr
  intro l hl
  exact decide_eq_true (h l hl)

theorem filter_eq_nil_of_kind {kind kind' : LineKind} (h : ∀ l ∈ xs, l.kind = kind)
    (hne : kind ≠ kind') : xs.filter (·.kind = kind') = [] := by
  apply List.filter_eq_nil_iff.mpr
  intro l hl
  rw [h l hl]
  simpa using hne

theorem filter_ofTransaction (kind kind' : LineKind) (ts : List Transaction) :
    (ts.map (Line.ofTransaction kind)).filter (·.kind = kind') =
      if kind = kind' then ts.map (Line.ofTransaction kind) else [] := by
  have hkind := kind_ofTransaction kind ts
  split
  · next h =>
    subst h
    exact filter_eq_self_of_kind hkind
  · next h => exact filter_eq_nil_of_kind hkind h

theorem Spans.filter_eq_nil {kind : LineKind} (h : Spans first last xs)
    (hkind : last < kind.place) : xs.filter (·.kind = kind) = [] := by
  apply List.filter_eq_nil_iff.mpr
  intro l hl hk
  have hle := h.le l hl
  rw [of_decide_eq_true hk] at hle
  omega

end

section
variable {r : Request} {e : Earnings} {p : Payslip}

theorem lines_of_assemble (h : assemble r e = .ok p) :
    p.lines = e.lines ++ r.bonuses.map (Line.ofTransaction .bonus)
      ++ r.deductions.map (Line.ofTransaction .deduction)
      ++ r.loans.map (Line.ofTransaction .loan) := by
  obtain ⟨_, _, _, _, -, -, -, -, rfl⟩ := assemble_eq_ok h
  rfl

theorem ofKind_commissionTier (h : assemble r e = .ok p) :
    p.ofKind .commissionTier = e.lines.filter (·.kind = .commissionTier) := by
  simp [ofKind, lines_of_assemble h, List.filter_append, filter_ofTransaction]

theorem itemises_of_lines {lines : List Line} {last : ℕ} (hlines : Spans 0 last lines)
    (hlast : last ≤ 3)
    (h : p.lines = lines ++ r.bonuses.map (Line.ofTransaction .bonus)
      ++ r.deductions.map (Line.ofTransaction .deduction)
      ++ r.loans.map (Line.ofTransaction .loan)) : p.Itemises r := by
  have hspans (kind : LineKind) (ts : List Transaction) :
      Spans kind.place kind.place (ts.map (Line.ofTransaction kind)) :=
    spans_of_kind kind (kind_ofTransaction kind ts)
  have hbonuses := hlines.append (hspans .bonus r.bonuses) (hlast.trans (by decide))
  have hdeductions := hbonuses.append (hspans .deduction r.deductions) (by decide)
  have hloans := hdeductions.append (hspans .loan r.loans) (by decide)
  have hfilter (kind : LineKind) (hkind : 3 < kind.place) : lines.filter (·.kind = kind) = [] :=
    hlines.filter_eq_nil (hlast.trans_lt hkind)
  constructor
  · rw [h]
    exact hloans.ordered
  · simp [ofKind, h, List.filter_append, filter_ofTransaction, hfilter .bonus (by decide)]
  · simp [ofKind, h, List.filter_append, filter_ofTransaction, hfilter .deduction (by decide)]
  · simp [ofKind, h, List.filter_append, filter_ofTransaction, hfilter .loan (by decide)]

theorem value_of_total {ts : List Transaction} {total : Decimal}
    (h : Transaction.total ts = .ok total) (hexact : SumsExactly (ts.map (·.amount.value))) :
    total.value = (ts.map (·.amount.value)).sum := by
  apply value_of_foldlM_zero _ h hexact
  intro a t c hc
  unfold PayError.guarded at hc
  split at hc
  · next hadd =>
    cases hc
    exact hadd
  · cases hc

theorem value_of_net? {bonuses deductions loans total : Decimal}
    (h : net? e bonuses deductions loans = some total)
    (hexact : SumsExactly
      [e.base.value, e.commission.value, e.targetBonus.value, bonuses.value, -deductions.value,
        -loans.value]) :
    total.value = e.base.value + e.commission.value + e.targetBonus.value + bonuses.value
      - deductions.value - loans.value := by
  unfold net? at h
  obtain ⟨a, ha, h⟩ := Option.bind_eq_some_iff.mp h
  obtain ⟨b, hb, h⟩ := Option.bind_eq_some_iff.mp h
  obtain ⟨c, hc, h⟩ := Option.bind_eq_some_iff.mp h
  obtain ⟨d, hd, h⟩ := Option.bind_eq_some_iff.mp h
  have ha := value_of_add? ha (by simpa using hexact 2)
  have hb := value_of_add? hb (by rw [ha]; simpa [add_assoc] using hexact 3)
  have hc := value_of_add? hc (by rw [hb, ha]; simpa [add_assoc] using hexact 4)
  have hd := value_of_sub? hd (by rw [hc, hb, ha]; simpa [add_assoc, sub_eq_add_neg] using hexact 5)
  have htotal := value_of_sub? h
    (by rw [hd, hc, hb, ha]; simpa [add_assoc, sub_eq_add_neg] using hexact 6)
  rw [htotal, hd, hc, hb, ha]

theorem sum_effect_ofTransaction (kind : LineKind) (ts : List Transaction) :
    ((ts.map (Line.ofTransaction kind)).map Line.effect).sum =
      kind.sign * (ts.map (·.amount.value)).sum := by
  rw [List.map_map, ← List.sum_map_mul_left]
  rfl

theorem sum_effect_of_assemble (h : assemble r e = .ok p) (hexact : p.DropsNoDigits r) :
    (p.lines.map Line.effect).sum - p.total.value =
      (e.lines.map Line.effect).sum -
        (e.base.value + e.commission.value + e.targetBonus.value) := by
  obtain ⟨bonuses, deductions, loans, total, hbonuses, hdeductions, hloans, hnet, rfl⟩ :=
    assemble_eq_ok h
  have hbonuses := value_of_total hbonuses hexact.bonuses
  have hdeductions := value_of_total hdeductions hexact.deductions
  have hloans := value_of_total hloans hexact.loans
  have htotal := value_of_net? hnet hexact.net
  simp only [List.map_append, List.sum_append, sum_effect_ofTransaction, LineKind.sign]
  linarith

end

end Payslip

namespace Pay

open Payslip

/-- Lines of one kind, that add an amount. -/
structure Accounts (kind : LineKind) (amount : ℚ) (lines : List Line) : Prop where
  kind : ∀ l ∈ lines, l.kind = kind
  sum : (lines.map Line.effect).sum = amount

theorem accounts_nil (kind : LineKind) {a : Decimal} (h : a.value = 0) :
    Accounts kind a.value [] := by
  rw [h]
  exact ⟨List.forall_mem_nil _, rfl⟩

theorem accounts_singleton {kind : LineKind} (h : kind.sign = 1) (amount : Decimal)
    (description : String) : Accounts kind amount.value [{ kind, amount, description }] := by
  refine ⟨List.forall_mem_singleton.mpr rfl, ?_⟩
  rw [List.map_singleton, List.sum_singleton, Line.effect, h, one_mul]

theorem accounts_tierBonus (tiers : List BonusTier) (sales : Decimal) :
    Accounts .targetBonus (tierBonus tiers sales).1.value (tierBonus tiers sales).2 := by
  unfold tierBonus
  split
  · split
    · exact accounts_nil .targetBonus value_zero
    · exact accounts_singleton rfl _ _
  · exact accounts_nil .targetBonus value_zero

theorem accounts_targetBonus (bonus : Option TargetBonus) (sales : Decimal) :
    Accounts .targetBonus (targetBonus bonus sales).1.value (targetBonus bonus sales).2 := by
  unfold targetBonus
  split
  · split
    · exact accounts_singleton rfl _ _
    · exact accounts_nil .targetBonus value_zero
  · exact accounts_nil .targetBonus value_zero

theorem accounts_earned {rule : CommissionRule} {terms : CommissionTerms} {sales amount : Decimal}
    {lines : List Line} (h : rule.earned terms sales = .ok (amount, lines)) :
    Accounts .commission amount.value lines := by
  unfold CommissionRule.earned at h
  obtain ⟨amount', -, h⟩ := bind_eq_ok h
  split at h
  · next hzero =>
    cases h
    exact accounts_nil .commission ((isZero_iff _).mp hzero)
  · obtain ⟨percent, -, h⟩ := bind_eq_ok h
    obtain ⟨description, -, h⟩ := bind_eq_ok h
    cases h
    exact accounts_singleton rfl _ _

section
variable {base x y : ℚ} {kind : LineKind} {commissionLines bonusLines : List Line}

theorem spans_earnings {base : Decimal} (hplace : kind.place = 1)
    (hcommission : Accounts kind x commissionLines) (hbonus : Accounts .targetBonus y bonusLines) :
    Spans 0 2 (baseLine base :: commissionLines ++ bonusLines) := by
  have hfirst : Spans 0 0 [baseLine base] :=
    spans_of_kind .baseSalary (List.forall_mem_singleton.mpr rfl)
  have hmiddle : Spans 1 1 commissionLines := hplace ▸ spans_of_kind kind hcommission.kind
  have hlast : Spans 2 2 bonusLines := spans_of_kind .targetBonus hbonus.kind
  exact (hfirst.append hmiddle (by decide)).append hlast (by decide)

theorem sum_effect_earnings {base : Decimal} (hcommission : Accounts kind x commissionLines)
    (hbonus : Accounts .targetBonus y bonusLines) :
    ((baseLine base :: commissionLines ++ bonusLines).map Line.effect).sum =
      base.value + x + y := by
  have hbase : (baseLine base).effect = base.value := one_mul _
  simp only [List.map_append, List.map_cons, List.sum_append, List.sum_cons, hbase,
    hcommission.sum, hbonus.sum]

end

theorem lines_of_earnings {rule : CommissionRule} {terms : SalaryTerms} {sales : Decimal}
    {e : Earnings} (h : rule.earnings terms sales = .ok e) :
    Spans 0 2 e.lines ∧
      (e.lines.map Line.effect).sum = e.base.value + e.commission.value + e.targetBonus.value := by
  unfold CommissionRule.earnings at h
  have hbonus := accounts_tierBonus terms.tiers sales
  cases hterms : terms.commission with
  | none =>
    rw [hterms] at h
    cases h
    have hcommission := accounts_nil .commission value_zero
    exact ⟨spans_earnings rfl hcommission hbonus, sum_effect_earnings hcommission hbonus⟩
  | some c =>
    rw [hterms] at h
    obtain ⟨⟨commission, commissionLines⟩, hearned, h⟩ := bind_eq_ok h
    cases h
    have hcommission := accounts_earned hearned
    exact ⟨spans_earnings rfl hcommission hbonus, sum_effect_earnings hcommission hbonus⟩

theorem accounts_allocations (allocations : List Allocation) :
    Accounts .commissionTier (allocations.map (·.contribution.value)).sum
      (allocations.map Allocation.line) := by
  constructor
  · intro l hl
    obtain ⟨a, -, rfl⟩ := List.mem_map.mp hl
    rfl
  · rw [List.map_map]
    congr 2
    funext a
    exact one_mul _

theorem lines_of_bracketEarnings {terms : BracketTerms} {sales : Decimal} {e : Earnings}
    (h : bracketEarnings terms sales = .ok e) :
    Spans 0 2 e.lines ∧
      (SumsExactly ((e.lines.filter (·.kind = .commissionTier)).map (·.amount.value)) →
        |(e.lines.map Line.effect).sum -
          (e.base.value + e.commission.value + e.targetBonus.value)| ≤ 1 / 200) := by
  rw [bracketEarnings_eq] at h
  obtain ⟨allocations, -, h⟩ := bind_eq_ok h
  obtain ⟨total, htotal, h⟩ := bind_eq_ok h
  cases h
  have hcommission := accounts_allocations allocations
  have hbonus := accounts_targetBonus terms.targetBonus sales
  refine ⟨spans_earnings rfl hcommission hbonus, fun hexact => ?_⟩
  -- What was summed up are the lines of the brackets, for which exactness is assumed.
  have htiers : ((baseLine terms.base :: allocations.map Allocation.line ++
      (targetBonus terms.targetBonus sales).2).filter (·.kind = .commissionTier)) =
        allocations.map Allocation.line := by
    rw [List.cons_append, List.filter_cons_of_neg (by simp [baseLine]), List.filter_append,
      filter_eq_self_of_kind hcommission.kind, filter_eq_nil_of_kind hbonus.kind (by decide),
      List.append_nil]
  rw [htiers, List.map_map] at hexact
  have hsum : total.value = (allocations.map (·.contribution.value)).sum :=
    value_of_foldlM_zero (fun _ _ _ hadd => unguarded_eq_ok.mp hadd) htotal hexact
  have hcents := abs_roundCents_sub_le total
  rw [abs_sub_comm] at hcents
  rw [sum_effect_earnings hcommission hbonus, ← hsum]
  have hdiff : terms.base.value + total.value + (targetBonus terms.targetBonus sales).1.value -
      (terms.base.value + total.roundCents.value +
        (targetBonus terms.targetBonus sales).1.value) = total.value - total.roundCents.value := by
    ring
  rw [hdiff]
  exact hcents

theorem spans_lineUnlessZero (kind : LineKind) (amount : Decimal) (description : String) :
    Spans kind.place kind.place (lineUnlessZero kind amount description) := by
  apply spans_of_kind
  unfold lineUnlessZero
  split
  · exact List.forall_mem_nil _
  · exact List.forall_mem_singleton.mpr rfl

theorem spans_evaluationEarnings (f : Formula) (e : Evaluation) :
    Spans 0 3 (evaluationEarnings f e).lines := by
  have hbase := spans_lineUnlessZero .baseSalary (e.valueOrZero baseName) "Base salary"
  have hcommission := spans_lineUnlessZero .commission (e.valueOrZero commissionName) "Commission"
  have hbonus := spans_lineUnlessZero .targetBonus (e.valueOrZero targetBonusName) "Target bonus"
  have houtput (description : String) :
      Spans 3 3 [{ kind := .formulaOutput, amount := e.result, description }] :=
    spans_of_kind .formulaOutput (List.forall_mem_singleton.mpr rfl)
  have hearned := (hbase.append hcommission (by decide)).append hbonus (by decide)
  exact hearned.append (houtput _) (by decide)

theorem lines_of_formulaic {settings : FormulaSettings} {r : Request} {p : Payslip}
    (h : formulaic settings r = .ok p) (hp : p.succeeded = true) :
    ∃ lines, Spans 0 3 lines ∧
      p.lines = lines ++ r.bonuses.map (Line.ofTransaction .bonus)
        ++ r.deductions.map (Line.ofTransaction .deduction)
        ++ r.loans.map (Line.ofTransaction .loan) := by
  unfold formulaic at h
  obtain ⟨f, -, h⟩ := bind_eq_ok h
  obtain ⟨bindings, -, h⟩ := bind_eq_ok h
  obtain ⟨e, -, h⟩ := bind_eq_ok h
  split at h
  · cases h
    cases hp
  · obtain ⟨p', hp', h⟩ := bind_eq_ok h
    cases h
    have hlines := lines_of_assemble (ofError_eq_ok.mp hp')
    exact ⟨_, spans_evaluationEarnings f e, hlines⟩

end Pay

/-- A payslip that succeeds has its lines in order and every transaction once. Where no sum drops
digits, the lines account for the total: exactly for fixed and commission plans, and up to half a
cent for bracket plans. -/
theorem Calculator.payslip_accounts {c : Calculator} {r : Request} {p : Payslip}
    (h : c.compute r = .ok p) (hp : p.succeeded = true) :
    p.Itemises r ∧
      (p.DropsNoDigits r →
        (c.kind = .fixed ∨ c.kind = .commission →
          (p.lines.map Payslip.Line.effect).sum = p.total.value) ∧
        (c.kind = .tieredCommission →
          |(p.lines.map Payslip.Line.effect).sum - p.total.value| ≤ 1 / 200)) := by
  have hsalaried {rule : Pay.CommissionRule} (h : Pay.salaried rule r = .ok p) :
      p.Itemises r ∧
        (p.DropsNoDigits r → (p.lines.map Payslip.Line.effect).sum = p.total.value) := by
    obtain ⟨terms, e, -, he, hassemble⟩ := Pay.salaried_eq_ok h
    obtain ⟨hspans, hsum⟩ := Pay.lines_of_earnings he
    refine ⟨Payslip.itemises_of_lines hspans (by decide) (Payslip.lines_of_assemble hassemble), ?_⟩
    intro hexact
    have hdiff := Payslip.sum_effect_of_assemble hassemble hexact
    rw [hsum, sub_self] at hdiff
    exact sub_eq_zero.mp hdiff
  obtain ⟨kind, formula, cache⟩ := c
  cases kind with
  | fixed =>
    obtain ⟨hitems, hsum⟩ := hsalaried h
    exact ⟨hitems, fun hexact => ⟨fun _ => hsum hexact, nofun⟩⟩
  | commission =>
    obtain ⟨hitems, hsum⟩ := hsalaried h
    exact ⟨hitems, fun hexact => ⟨fun _ => hsum hexact, nofun⟩⟩
  | tieredCommission =>
    obtain ⟨terms, e, -, he, hassemble⟩ := Pay.bracketed_eq_ok h
    obtain ⟨hspans, hsum⟩ := Pay.lines_of_bracketEarnings he
    refine ⟨Payslip.itemises_of_lines hspans (by decide) (Payslip.lines_of_assemble hassemble), ?_⟩
    intro hexact
    refine ⟨nofun, fun _ => ?_⟩
    rw [Payslip.sum_effect_of_assemble hassemble hexact]
    apply hsum
    rw [← Payslip.ofKind_commissionTier hassemble]
    exact hexact.tiers
  | formulaBased =>
    obtain ⟨lines, hspans, hlines⟩ := Pay.lines_of_formulaic h hp
    exact ⟨Payslip.itemises_of_lines hspans le_rfl hlines, fun _ => ⟨nofun, nofun⟩⟩

def loanRequest : Request where
  employee := { id := "e1" }
  plan :=
    { id := "p1", type := "tiered", name := "Brackets"
      config := .object
        [("baseSalary", .string "500"),
          ("brackets", .array
            [.object [("threshold", .string "10"), ("percentage", .string "0.333")]])] }
  sales := .hundred
  loans :=
    [{ id := "l1", employeeId := "e1", amount := .one
       date := (Date.ofParts? 2024 1 15).get rfl }]
  period := "2024-01"

theorem payslip_accounts_loanRequest :
    ∃ p, ({ kind := .tieredCommission } : Calculator).compute loanRequest = .ok p ∧
      p.succeeded = true ∧ p.DropsNoDigits loanRequest ∧ p.total.value = 49933 / 100 ∧
        p.ofKind .loan = loanRequest.loans.map (Payslip.Line.ofTransaction .loan) ∧
          |(p.lines.map Payslip.Line.effect).sum - 49933 / 100| ≤ 1 / 200 := by
  have hanswer : (({ kind := .tieredCommission } : Calculator).compute loanRequest).toOption.map
      (fun p => decide (p.succeeded = true ∧ p.DropsNoDigits loanRequest ∧
        p.total.value = 49933 / 100)) = some true := by
    decide +kernel
  obtain ⟨p, hp, h⟩ := exists_ok_of_toOption_map hanswer
  obtain ⟨hsucceeded, hexact, htotal⟩ := of_decide_eq_true h
  obtain ⟨hitems, hsum⟩ := Calculator.payslip_accounts hp hsucceeded
  have hdiff := (hsum hexact).2 rfl
  rw [htotal] at hdiff
  exact ⟨p, hp, hsucceeded, hexact, htotal, hitems.loans, hdiff⟩

end Payroll
