import Payroll.Pay.Salaried
import Payroll.Proofs.Decimal.Congruence

/-!
# What a payslip says

The reading of a payslip has its amounts as numbers, without their scales, and leaves the wording
out. What a fixed or a commission plan pays depends on the number that the sales are and not on how
it is written.
-/

set_option autoImplicit false

namespace Payroll

open Decimal

namespace Payslip

namespace Line

def reading (l : Line) : LineKind × ℚ := (l.kind, l.amount.value)

end Line

structure Reading where
  succeeded : Bool
  planType : String
  planName : String
  base : ℚ
  commission : ℚ
  targetBonus : ℚ
  bonusTotal : ℚ
  deductionsTotal : ℚ
  loansTotal : ℚ
  total : ℚ
  lines : List (LineKind × ℚ)

def reading (p : Payslip) : Reading where
  succeeded := p.succeeded
  planType := p.planType
  planName := p.planName
  base := p.base.value
  commission := p.commission.value
  targetBonus := p.targetBonus.value
  bonusTotal := p.bonusTotal.value
  deductionsTotal := p.deductionsTotal.value
  loansTotal := p.loansTotal.value
  total := p.total.value
  lines := p.lines.map Line.reading

end Payslip

structure Earnings.Reading where
  base : ℚ
  commission : ℚ
  targetBonus : ℚ
  lines : List (Payslip.LineKind × ℚ)

def Earnings.reading (e : Earnings) : Earnings.Reading where
  base := e.base.value
  commission := e.commission.value
  targetBonus := e.targetBonus.value
  lines := e.lines.map Payslip.Line.reading

structure Request.SameTerms (r r' : Request) : Prop where
  plan : r.plan = r'.plan
  bonuses : r.bonuses = r'.bonuses
  deductions : r.deductions = r'.deductions
  loans : r.loans = r'.loans

/-- The request, with its plan configured like this. -/
def Request.withConfig (r : Request) (config : Json) : Request :=
  { r with plan := { r.plan with config } }

namespace Payslip

theorem map_net?_congr {e e' : Earnings} (h : e.reading = e'.reading)
    (bonuses deductions loans : Decimal) :
    (net? e bonuses deductions loans).map value = (net? e' bonuses deductions loans).map value := by
  obtain ⟨hbase, hcommission, htargetBonus, -⟩ := Earnings.Reading.mk.inj h
  unfold net?
  refine map_bind_congr_option (map_add?_congr hbase hcommission) fun _ _ hsum => ?_
  refine map_bind_congr_option (map_add?_congr hsum htargetBonus) fun _ _ hsum => ?_
  refine map_bind_congr_option (map_add?_congr hsum rfl) fun _ _ hsum => ?_
  refine map_bind_congr_option (map_sub?_congr hsum rfl) fun _ _ hsum => ?_
  exact map_sub?_congr hsum rfl

theorem map_assemble_congr {r r' : Request} (hr : r.SameTerms r') {e e' : Earnings}
    (he : e.reading = e'.reading) : (assemble r e).map reading = (assemble r' e').map reading := by
  unfold assemble Request.bonusTotal Request.deductionsTotal Request.loansTotal
  rw [hr.bonuses, hr.deductions, hr.loans, hr.plan]
  refine map_bind_congr_right fun bonuses => ?_
  refine map_bind_congr_right fun deductions => ?_
  refine map_bind_congr_right fun loans => ?_
  have hnet := map_net?_congr he bonuses deductions loans
  cases htotal : net? e bonuses deductions loans with
  | none =>
    rw [htotal] at hnet
    rw [Option.map_eq_none_iff.mp hnet.symm]
  | some total =>
    rw [htotal] at hnet
    obtain ⟨total', htotal', hvalue⟩ := Option.map_eq_some_iff.mp hnet.symm
    rw [htotal']
    obtain ⟨hbase, hcommission, htargetBonus, hlines⟩ := Earnings.Reading.mk.inj he
    refine congrArg Except.ok ?_
    unfold reading
    simp only [List.map_append, hbase, hcommission, htargetBonus, hlines, hvalue]

theorem assemble_eq_ok {r : Request} {e : Earnings} {p : Payslip} (h : assemble r e = .ok p) :
    ∃ bonuses deductions loans total, r.bonusTotal = .ok bonuses ∧
      r.deductionsTotal = .ok deductions ∧ r.loansTotal = .ok loans ∧
        net? e bonuses deductions loans = some total ∧
          p =
            { employeeId := r.employee.id, period := r.period
              planType := r.plan.type, planName := r.plan.name
              base := e.base, commission := e.commission, targetBonus := e.targetBonus
              bonusTotal := bonuses, deductionsTotal := deductions, loansTotal := loans, total
              lines := e.lines ++ r.bonuses.map (Line.ofTransaction .bonus)
                ++ r.deductions.map (Line.ofTransaction .deduction)
                ++ r.loans.map (Line.ofTransaction .loan)
              succeeded := true } := by
  unfold assemble at h
  obtain ⟨bonuses, hbonuses, h⟩ := bind_eq_ok h
  obtain ⟨deductions, hdeductions, h⟩ := bind_eq_ok h
  obtain ⟨loans, hloans, h⟩ := bind_eq_ok h
  split at h
  · cases h
  · next total htotal =>
    cases h
    exact ⟨bonuses, deductions, loans, total, hbonuses, hdeductions, hloans, htotal, rfl⟩

/-- What a payslip has from the request and the earnings that it was assembled from. -/
structure IsAssembled (r : Request) (e : Earnings) (p : Payslip) : Prop where
  employeeId : p.employeeId = r.employee.id
  period : p.period = r.period
  commission : p.commission = e.commission
  succeeded : p.succeeded = true
  error : p.error = none

theorem isAssembled_of_assemble {r : Request} {e : Earnings} {p : Payslip}
    (h : assemble r e = .ok p) : p.IsAssembled r e := by
  obtain ⟨_, _, _, _, -, -, -, -, rfl⟩ := assemble_eq_ok h
  exact ⟨rfl, rfl, rfl, rfl, rfl⟩

theorem succeeded_of_assemble {r : Request} {e : Earnings} {p : Payslip}
    (h : assemble r e = .ok p) : p.succeeded = true ∧ p.error = none :=
  ⟨(isAssembled_of_assemble h).succeeded, (isAssembled_of_assemble h).error⟩

end Payslip

namespace Pay

/-- A rule that looks at the numbers that sales and amounts are. -/
structure CommissionRule.SeesValues (rule : CommissionRule) : Prop where
  below : ∀ {sales sales' : Decimal} (threshold : Decimal), sales.value = sales'.value →
    rule.below sales threshold = rule.below sales' threshold
  round : ∀ {a b : Decimal}, a.value = b.value → (rule.round a).value = (rule.round b).value
  description : ∀ (percent : String) (terms : CommissionTerms) {sales sales' : Decimal},
    sales.value = sales'.value →
      (rule.description percent terms sales).map (fun _ => ()) =
        (rule.description percent terms sales').map (fun _ => ())

theorem seesValues_fixed : CommissionRule.fixed.SeesValues where
  below _ h := le_congr h rfl
  round h := value_roundPlaces_congr h 2
  description _ _ _ _ _ := rfl

theorem seesValues_sales : CommissionRule.sales.SeesValues where
  below _ h := lt_congr h rfl
  round h := value_roundPlaces_congr h 0
  description percent terms sales sales' h := by
    unfold CommissionRule.sales
    exact map_bind_congr (Halt.map_unguarded_congr (map_sub?_congr h rfl) _) fun _ _ _ => rfl

section
variable {rule : CommissionRule} (hrule : rule.SeesValues) {sales sales' : Decimal}
variable (hsales : sales.value = sales'.value)
include hrule hsales

theorem map_amount_congr (terms : CommissionTerms) :
    (rule.amount terms sales).map value = (rule.amount terms sales').map value := by
  unfold CommissionRule.amount
  refine map_bind_congr_right fun rate => ?_
  rw [hrule.below terms.threshold hsales]
  split
  · rfl
  · refine map_bind_congr (Halt.map_unguarded_congr (map_sub?_congr hsales rfl) _) ?_
    intro above above' habove
    refine map_bind_congr (Halt.map_guarded_congr (map_mul?_congr habove rfl) _) ?_
    intro commission commission' hcommission
    exact congrArg Except.ok (hrule.round hcommission)

theorem map_earned_congr (terms : CommissionTerms) :
    (rule.earned terms sales).map (Prod.map value (List.map Payslip.Line.reading)) =
      (rule.earned terms sales').map (Prod.map value (List.map Payslip.Line.reading)) := by
  unfold CommissionRule.earned
  refine map_bind_congr (map_amount_congr hrule hsales terms) fun amount amount' hamount => ?_
  rw [isZero_congr hamount]
  split
  · exact congrArg Except.ok (Prod.ext hamount rfl)
  · refine map_bind_congr_right fun percent => ?_
    refine map_bind_congr (hrule.description percent terms hsales) fun _ _ _ => ?_
    refine congrArg Except.ok (Prod.ext hamount ?_)
    exact congrArg (fun a => [(Payslip.LineKind.commission, a)]) hamount

omit hrule in
theorem tierBonus_congr (tiers : List BonusTier) :
    tierBonus tiers sales = tierBonus tiers sales' := by
  unfold tierBonus reachedTier?
  have hfilter : (tiers.filter fun t => t.threshold.le sales) =
      tiers.filter fun t => t.threshold.le sales' :=
    List.filter_congr fun t _ => le_congr rfl hsales
  rw [hfilter]

theorem map_earnings_congr (terms : SalaryTerms) :
    (rule.earnings terms sales).map Earnings.reading =
      (rule.earnings terms sales').map Earnings.reading := by
  unfold CommissionRule.earnings
  rw [tierBonus_congr hsales terms.tiers]
  have hearnings {a a' : Decimal × List Payslip.Line}
      (h : a.map value (List.map Payslip.Line.reading) =
        a'.map value (List.map Payslip.Line.reading))
      (b : Decimal × List Payslip.Line) :
      Earnings.reading
          { base := terms.base, commission := a.1, targetBonus := b.1
            lines := baseLine terms.base :: a.2 ++ b.2 } =
        Earnings.reading
          { base := terms.base, commission := a'.1, targetBonus := b.1
            lines := baseLine terms.base :: a'.2 ++ b.2 } := by
    obtain ⟨hcommission, hlines⟩ := Prod.mk.inj h
    unfold Earnings.reading
    simp only [List.map_append, List.map_cons, hcommission, hlines]
  cases terms.commission with
  | none => rfl
  | some commission =>
    exact map_bind_congr (map_earned_congr hrule hsales commission)
      fun _ _ h => congrArg Except.ok (hearnings h _)

end

/-- One plan, the same transactions and sales that are the same number pay the same. -/
theorem map_salaried_congr {rule : CommissionRule} (hrule : rule.SeesValues) {r r' : Request}
    (hr : r.SameTerms r') (hsales : r.sales.value = r'.sales.value) :
    (salaried rule r).map Payslip.reading = (salaried rule r').map Payslip.reading := by
  unfold salaried
  rw [hr.plan]
  refine map_bind_congr_right fun terms => ?_
  refine map_bind_congr (map_earnings_congr hrule hsales terms) fun e e' he => ?_
  rw [Halt.map_ofError, Halt.map_ofError, Payslip.map_assemble_congr hr he]

end Pay

end Payroll
