import Mathlib.Data.Nat.Notation
import Payroll.Proofs.Decimal.Value
import Payroll.ResultCache

/-!
# Stores as maps

A store is a map from what keys stand for to payslips. Each operation has an equation for what is
found after it, and no operation stores two payslips under keys that stand for the same.
-/

set_option autoImplicit false

namespace Payroll.ResultCache

namespace Key

/-- What a key stands for. Sales count by their value. -/
@[ext]
structure Identity where
  employeeId : String
  planId : Option String
  sales : Option ℚ
  period : String

def identity (k : Key) : Identity :=
  { employeeId := k.employeeId, planId := k.planId
    sales := k.sales.map Decimal.value, period := k.period }

theorem sameSales_iff {a b : Option Decimal} :
    sameSales a b = true ↔ a.map Decimal.value = b.map Decimal.value := by
  cases a with
  | none => cases b <;> simp [sameSales]
  | some a =>
    cases b with
    | none => simp [sameSales]
    | some b => simp [sameSales, Decimal.same_iff]

theorem same_iff {a b : Key} :
    a.same b = true ↔ a.employeeId = b.employeeId ∧ a.planId = b.planId ∧
      a.sales.map Decimal.value = b.sales.map Decimal.value ∧ a.period = b.period := by
  unfold same
  simp only [Bool.and_eq_true, decide_eq_true_eq, sameSales_iff, and_assoc]

theorem same_iff_identity {a b : Key} : a.same b = true ↔ a.identity = b.identity := by
  rw [same_iff, Identity.ext_iff]
  rfl

theorem same_symm {a b : Key} (h : a.same b = true) : b.same a = true :=
  same_iff_identity.mpr (same_iff_identity.mp h).symm

end Key

variable {s : ResultCache}

theorem find?_of_entries {key k : Key} {p : Payslip} {rest : List (Key × Payslip)}
    (hs : s.entries = (k, p) :: rest) (h : k.same key = true) : s.find? key = some p := by
  unfold find?
  rw [hs, List.find?_cons_of_pos (p := fun e : Key × Payslip => e.1.same key) h]
  rfl

theorem find?_eq_some {key : Key} {p : Payslip} (h : s.find? key = some p) :
    ∃ k, (k, p) ∈ s.entries ∧ k.identity = key.identity := by
  obtain ⟨e, hfind, rfl⟩ := Option.map_eq_some_iff.mp h
  have hsame := List.find?_some (p := fun e : Key × Payslip => e.1.same key) hfind
  exact ⟨e.1, List.mem_of_find?_eq_some hfind, Key.same_iff_identity.mp hsame⟩

theorem exists_find?_of_mem {k : Key} {p : Payslip} (h : (k, p) ∈ s.entries) :
    ∃ q, s.find? k = some q := by
  have hfound : (s.entries.find? (·.1.same k)).isSome = true :=
    List.find?_isSome.mpr ⟨(k, p), h, Key.same_iff_identity.mpr rfl⟩
  obtain ⟨e, he⟩ := Option.isSome_iff_exists.mp hfound
  exact ⟨e.2, Option.map_eq_some_iff.mpr ⟨e, he, rfl⟩⟩

theorem find?_invalidate_of_identity {k key : Key} (h : k.identity = key.identity) :
    (s.invalidate k).find? key = none := by
  unfold find? invalidate
  rw [Option.map_eq_none_iff, List.find?_eq_none]
  intro e he hsame
  have hleft := (List.mem_filter.mp he).2
  rw [Key.same_iff_identity.mpr ((Key.same_iff_identity.mp hsame).trans h.symm)] at hleft
  cases hleft

theorem find?_invalidate_of_ne {k key : Key} (h : k.identity ≠ key.identity) :
    (s.invalidate k).find? key = s.find? key := by
  unfold find? invalidate
  rw [List.find?_filter]
  congr 2
  funext e
  cases hsame : e.1.same key with
  | false => simp
  | true =>
    have hother : e.1.same k = false := by
      rw [← Bool.not_eq_true, Key.same_iff_identity, Key.same_iff_identity.mp hsame]
      exact h.symm
    simp [hother]

theorem find?_insert_of_identity {k key : Key} {p : Payslip} (hkeeps : s.keeps = true)
    (hp : p.succeeded = true) (h : k.identity = key.identity) :
    (s.insert k p).find? key = some p := by
  unfold insert
  rw [if_pos (by rw [hp, hkeeps]; rfl)]
  exact find?_of_entries rfl (Key.same_iff_identity.mpr h)

theorem find?_insert_of_ne {k key : Key} {p : Payslip} (h : k.identity ≠ key.identity) :
    (s.insert k p).find? key = s.find? key := by
  unfold insert
  split
  · have hother : ¬k.same key = true := fun hsame => h (Key.same_iff_identity.mp hsame)
    have hrest := find?_invalidate_of_ne (s := s) h
    unfold find? at hrest ⊢
    rw [← hrest, List.find?_cons_of_neg (p := fun e : Key × Payslip => e.1.same key) hother]
  · rfl

theorem insert_of_failed {p : Payslip} (hp : p.succeeded = false) (s : ResultCache) (key : Key) :
    s.insert key p = s := by
  unfold insert
  rw [hp]
  rfl

theorem find?_clear (s : ResultCache) (key : Key) : s.clear.find? key = none := rfl

theorem get_fst (s : ResultCache) (key : Key) : (s.get key).1 = s.find? key := by
  unfold get
  cases s.find? key <;> rfl

theorem entries_get (s : ResultCache) (key : Key) : (s.get key).2.entries = s.entries := by
  unfold get
  cases s.find? key <;> rfl

theorem find?_get (s : ResultCache) (k key : Key) : (s.get k).2.find? key = s.find? key := by
  unfold find?
  rw [entries_get]

theorem keeps_insert (s : ResultCache) (key : Key) (p : Payslip) :
    (s.insert key p).keeps = s.keeps := by
  unfold insert
  split <;> rfl

theorem keeps_get (s : ResultCache) (key : Key) : (s.get key).2.keeps = s.keeps := by
  unfold get
  cases s.find? key <;> rfl

/-- No two entries have keys that stand for the same. -/
def IsMap (s : ResultCache) : Prop := (s.entries.map (·.1.identity)).Nodup

theorem IsMap.of_sublist (hs : s.IsMap) {t : ResultCache} (h : t.entries.Sublist s.entries) :
    t.IsMap :=
  List.Nodup.sublist (h.map _) hs

theorem IsMap.invalidate (hs : s.IsMap) (key : Key) : (s.invalidate key).IsMap :=
  hs.of_sublist List.filter_sublist

theorem IsMap.insert (hs : s.IsMap) (key : Key) (p : Payslip) : (s.insert key p).IsMap := by
  unfold ResultCache.insert
  split
  · refine List.nodup_cons.mpr ⟨?_, hs.invalidate key⟩
    intro hmem
    obtain ⟨e, he, hsame⟩ := List.mem_map.mp hmem
    have hleft := (List.mem_filter.mp he).2
    rw [Key.same_iff_identity.mpr hsame] at hleft
    cases hleft
  · exact hs

end Payroll.ResultCache
