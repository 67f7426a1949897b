import Mathlib.Data.List.Nodup
import Payroll.Proofs.Decimal.Value

/-!
# Sorting by amounts

Rows are sorted by an amount in each of them. Rows of equal amounts keep their order, and where no
two amounts are equal it does not matter in which order the rows stood before.
-/

set_option autoImplicit false

namespace Payroll.Decimal

variable {α : Type} (key : α → Decimal) (rows : List α)

theorem le_trans_key (a b c : α) (hab : (key a).le (key b) = true)
    (hbc : (key b).le (key c) = true) : (key a).le (key c) = true := by
  rw [le_iff] at hab hbc ⊢
  exact hab.trans hbc

theorem le_total_key (a b : α) : ((key a).le (key b) || (key b).le (key a)) = true := by
  rw [Bool.or_eq_true, le_iff, le_iff]
  exact le_total _ _

theorem pairwise_mergeSort :
    (rows.mergeSort fun a b => (key a).le (key b)).Pairwise
      fun a b => (key a).value ≤ (key b).value :=
  (List.pairwise_mergeSort (le_trans_key key) (le_total_key key) rows).imp fun h =>
    (le_iff _ _).mp h

/-- Sorting is stable. -/
theorem filter_mergeSort (v : ℚ) :
    (rows.mergeSort fun a b => (key a).le (key b)).filter (fun row => (key row).value = v) =
      rows.filter (fun row => (key row).value = v) := by
  have hpairwise : (rows.filter (fun row => (key row).value = v)).Pairwise
      fun a b => (key a).le (key b) = true := by
    apply List.pairwise_of_forall_mem_list
    intro a ha b hb
    rw [le_iff, of_decide_eq_true (List.mem_filter.mp ha).2,
      of_decide_eq_true (List.mem_filter.mp hb).2]
  have hsublist := (List.sublist_mergeSort (le_trans_key key) (le_total_key key) hpairwise
    List.filter_sublist).filter (fun row => (key row).value = v)
  simp only [List.filter_filter, Bool.and_self] at hsublist
  have hperm := (List.mergeSort_perm rows fun a b => (key a).le (key b)).filter
    (fun row => (key row).value = v)
  exact (hsublist.eq_of_length hperm.length_eq.symm).symm

variable {key rows}

theorem mergeSort_eq_of_perm {rows' : List α} (hperm : rows.Perm rows')
    (hdistinct : (rows.map fun row => (key row).value).Nodup) :
    (rows.mergeSort fun a b => (key a).le (key b)) =
      rows'.mergeSort fun a b => (key a).le (key b) := by
  have hsorted := (List.mergeSort_perm rows fun a b => (key a).le (key b)).trans
    (hperm.trans (List.mergeSort_perm rows' fun a b => (key a).le (key b)).symm)
  refine hsorted.eq_of_pairwise ?_ (pairwise_mergeSort key rows) (pairwise_mergeSort key rows')
  intro a b ha hb hab hba
  have hb := hperm.mem_iff.mpr (List.mem_mergeSort.mp hb)
  exact List.inj_on_of_nodup_map hdistinct (List.mem_mergeSort.mp ha) hb (le_antisymm hab hba)

end Payroll.Decimal
