import Mathlib.Data.List.Infix
import Payroll.Calendar.Period
import Payroll.Proofs.Calendar.Reading

/-!
# The names of periods

How a period comes from its name, in either form, and the name that is written for it. Every period
that is read starts on the day it ends or before, and is read again from the name written for it.
-/

set_option autoImplicit false

namespace Payroll.Period

open Text

theorem splitRange?_append {before : List Char} (h : '.' ∉ before) (behind : List Char) :
    splitRange? (before ++ '.' :: '.' :: behind) = some (before, behind) := by
  induction before with
  | nil => rfl
  | cons c before ih =>
    obtain ⟨hc, hbefore⟩ := not_or.mp (mt List.mem_cons.mpr h)
    rw [List.cons_append]
    unfold splitRange?
    split
    · next heq => exact absurd (List.cons.inj heq).1.symm hc
    · next heq =>
      cases heq
      rw [ih hbefore]
      rfl
    · next heq => cases heq

theorem splitRange?_eq_none_iff {cs : List Char} :
    splitRange? cs = none ↔ ¬['.', '.'] <:+: cs := by
  fun_induction splitRange? cs with
  | case1 rest => exact iff_of_false nofun fun h => h ⟨[], rest, rfl⟩
  | case2 c rest hmark ih =>
    rw [Option.map_eq_none_iff, ih, List.infix_cons_iff, not_or]
    refine (and_iff_right ?_).symm
    rintro ⟨behind, heq⟩
    cases heq
    exact hmark behind rfl rfl
  | case3 => exact iff_of_true rfl fun h => by simpa using h.length_le

section
variable {p : Period} {first : Date} {cs start finish : List Char}

theorem ofRange_eq_ok_iff : ofRange start finish = .ok p ↔
    Date.ofChars? (trimmed start) = some p.first ∧
      Date.ofChars? (trimmed finish) = some p.last ∧ p.first.le p.last = true := by
  unfold ofRange
  constructor
  · intro h
    split at h
    · cases h
    · next first hfirst =>
      split at h
      · cases h
      · next last hlast =>
        split at h
        · next hle =>
          cases h
          exact ⟨hfirst, hlast, hle⟩
        · cases h
  · rintro ⟨hfirst, hlast, hle⟩
    simp only [hfirst, hlast]
    rw [if_pos hle]

theorem ofMonth_eq_ok_iff : ofMonth first = .ok p ↔
    p.first = first ∧ ∃ next, first.nextMonth? = some next ∧ next.previous? = some p.last := by
  unfold ofMonth
  constructor
  · intro h
    split at h
    · next last hlast =>
      cases h
      exact ⟨rfl, Option.bind_eq_some_iff.mp hlast⟩
    · cases h
  · rintro ⟨rfl, hlast⟩
    rw [Option.bind_eq_some_iff.mpr hlast]

theorem ofChars_of_range (h : splitRange? cs = some (start, finish)) :
    ofChars cs = ofRange start finish := by
  unfold ofChars
  rw [h]

theorem ofChars_eq_ok_of_single (h : splitRange? cs = none) : ofChars cs = .ok p ↔
    ∃ first, Date.ofChars? (cs ++ ['-', '0', '1']) = some first ∧ ofMonth first = .ok p := by
  unfold ofChars
  rw [h]
  dsimp only
  constructor
  · intro h
    split at h
    · next first hfirst => exact ⟨first, hfirst, h⟩
    · cases h
  · rintro ⟨first, hfirst, hmonth⟩
    rw [hfirst]
    exact hmonth

theorem ofText_eq_ok_iff {name : String} :
    ofText name = .ok p ↔ ofChars (trimmed name.toList) = .ok p := by
  unfold ofText
  dsimp only
  cases ofChars (trimmed name.toList) with
  | error fault => exact iff_of_false nofun nofun
  | ok q => exact ⟨fun h => congrArg _ (Except.ok.inj h), fun h => congrArg _ (Except.ok.inj h)⟩

theorem le_of_ofMonth (h : ofMonth first = .ok p) : p.first.le p.last = true := by
  obtain ⟨rfl, next, hnext, hlast⟩ := ofMonth_eq_ok_iff.mp h
  rw [Date.le_iff_of_previous? hlast]
  obtain ⟨hday, hmonth⟩ := Date.nextMonth?_eq_some hnext
  have hbound := p.first.day_le
  unfold Date.number
  omega

theorem le_of_ofChars (h : ofChars cs = .ok p) : p.first.le p.last = true := by
  cases hsplit : splitRange? cs with
  | none =>
    obtain ⟨first, -, hmonth⟩ := (ofChars_eq_ok_of_single hsplit).mp h
    exact le_of_ofMonth hmonth
  | some parts =>
    rw [ofChars_of_range hsplit] at h
    exact (ofRange_eq_ok_iff.mp h).2.2

end

theorem toList_toText (p : Period) :
    p.toText.toList = p.first.toChars ++ '.' :: '.' :: p.last.toChars := by
  simp [toText, Date.toText]

/-- A period whose days are in order is read from the name written for it. -/
theorem ofText_toText_of_le {p : Period} (h : p.first.le p.last = true) :
    ofText p.toText = .ok p := by
  have hblank {d : Date} : ∀ c ∈ d.toChars, isBlank c = false := fun c hc =>
    Date.not_isBlank_of_isDateChar (Date.isDateChar_of_mem_toChars hc)
  have htext : ∀ c ∈ p.first.toChars ++ '.' :: '.' :: p.last.toChars, isBlank c = false := by
    simp only [List.forall_mem_append, List.forall_mem_cons]
    exact ⟨hblank, by decide, by decide, hblank⟩
  have hmark : '.' ∉ p.first.toChars := fun hc =>
    Date.ne_dot_of_isDateChar (Date.isDateChar_of_mem_toChars hc) rfl
  rw [ofText_eq_ok_iff, toList_toText, trimmed_of_not_blank htext,
    ofChars_of_range (splitRange?_append hmark _), ofRange_eq_ok_iff,
    trimmed_of_not_blank hblank, trimmed_of_not_blank hblank]
  exact ⟨Date.ofChars?_toChars p.first, Date.ofChars?_toChars p.last, h⟩

/-- A period that is read from a name has its days in order and is read again from the name written
for it. Every period with its days in order has a name. -/
theorem names_roundtrip (p : Period) :
    (∀ name, ofText name = .ok p → p.first.le p.last = true ∧ ofText p.toText = .ok p) ∧
      (p.first.le p.last = true → ∃ name, ofText name = .ok p) := by
  constructor
  · intro name h
    have hle := le_of_ofChars (ofText_eq_ok_iff.mp h)
    exact ⟨hle, ofText_toText_of_le hle⟩
  · intro hle
    exact ⟨p.toText, ofText_toText_of_le hle⟩

def februaryBefore : Period where
  first := ⟨-4, 2, 1, by decide, by decide, by decide⟩
  last := ⟨-4, 2, 29, by decide, by decide, by decide⟩

theorem names_roundtrip_februaryBefore :
    ofText " -4-2\t" = .ok februaryBefore ∧
      februaryBefore.toText = "-0004-02-01..-0004-02-29" ∧
      februaryBefore.first.le februaryBefore.last = true ∧
      ofText februaryBefore.toText = .ok februaryBefore :=
  have hread : ofText " -4-2\t" = .ok februaryBefore := by decide
  ⟨hread, by decide, (names_roundtrip februaryBefore).1 _ hread⟩

end Payroll.Period
