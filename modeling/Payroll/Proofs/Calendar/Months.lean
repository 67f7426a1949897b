import Mathlib.Data.List.Basic
import Payroll.Proofs.Calendar.Periods
import Payroll.Transaction

/-!
# Transactions of a month

A name without the mark of a range is the name of a month. The period it is read as has the days of
this month, so the months share out the transactions of each employee: none stands in two
selections, and none is left out unless its month is the last one of the calendar.
-/

set_option autoImplicit false

namespace Payroll

open Calendar Text

namespace Date

variable {cs : List Char} {d : Date}

theorem ofChars?_firstDay_iff :
    ofChars? (cs ++ ['-', '0', '1']) = some d ↔ SpellsMonth cs d.year d.month ∧ d.day = 1 := by
  have hone : SpellsPart ['0', '1'] 1 := @spellsPart_padded 1 (by decide)
  rw [ofChars?_eq_some_iff]
  constructor
  · rintro ⟨ms, ds, heq, hmonth, hday⟩
    obtain ⟨rfl, rfl⟩ := append_inj_of_notMem_right hone.dash_notMem hday.dash_notMem heq
    exact ⟨hmonth, hday.unique hone⟩
  · rintro ⟨hmonth, hday⟩
    exact ⟨cs, ['0', '1'], rfl, hmonth, by rwa [hday]⟩

theorem exists_firstDay (d : Date) :
    ∃ f : Date, f.year = d.year ∧ f.month = d.month ∧ f.day = 1 := by
  have hday := le_daysInMonth d.year d.month
  obtain ⟨f, hf⟩ := exists_ofParts? d.year_mem d.month_mem ⟨Nat.le_refl 1, by omega⟩
  exact ⟨f, ofParts?_eq_some_iff.mp hf⟩

end Date

namespace Period

/-- The name has no mark of a range in it and is read as the period. -/
structure NamedMonth (name : String) (p : Period) : Prop where
  unmarked : ¬['.', '.'] <:+: name.toList
  read : ofText name = .ok p

section
variable {name : String} {p : Period}

theorem namedMonth_iff (h : ¬['.', '.'] <:+: name.toList) :
    NamedMonth name p ↔
      Date.SpellsMonth (trimmed name.toList) p.first.year p.first.month ∧ p.first.day = 1 ∧
        ∃ next, p.first.nextMonth? = some next ∧ next.previous? = some p.last := by
  have hsplit : splitRange? (trimmed name.toList) = none :=
    splitRange?_eq_none_iff.mpr fun hmark => h (hmark.trans (isInfix_trimmed _))
  have hread : NamedMonth name p ↔ ofText name = .ok p := ⟨fun hp => hp.read, fun hp => ⟨h, hp⟩⟩
  rw [hread, ofText_eq_ok_iff, ofChars_eq_ok_of_single hsplit]
  constructor
  · rintro ⟨first, hfirst, hmonth⟩
    obtain ⟨rfl, hlast⟩ := ofMonth_eq_ok_iff.mp hmonth
    obtain ⟨hspells, hday⟩ := Date.ofChars?_firstDay_iff.mp hfirst
    exact ⟨hspells, hday, hlast⟩
  · rintro ⟨hspells, hday, hlast⟩
    exact ⟨p.first, Date.ofChars?_firstDay_iff.mpr ⟨hspells, hday⟩,
      ofMonth_eq_ok_iff.mpr ⟨rfl, hlast⟩⟩

theorem NamedMonth.contains_iff (h : NamedMonth name p) (d : Date) :
    p.contains d = true ↔ d.year = p.first.year ∧ d.month = p.first.month := by
  obtain ⟨-, hday, next, hnext, hlast⟩ := (namedMonth_iff h.unmarked).mp h
  unfold contains
  rw [Bool.and_eq_true, Date.le_iff, Date.le_iff_of_previous? hlast]
  exact Date.between_iff hday hnext

theorem NamedMonth.eq_of_spells (h : NamedMonth name p) {d : Date}
    (hd : Date.SpellsMonth (trimmed name.toList) d.year d.month) :
    d.year = p.first.year ∧ d.month = p.first.month := by
  obtain ⟨hspells, hday, -⟩ := (namedMonth_iff h.unmarked).mp h
  obtain ⟨f, hyear, hmonth, hf⟩ := d.exists_firstDay
  rw [← hyear, ← hmonth] at hd ⊢
  have hsame := (Date.ofChars?_firstDay_iff.mpr ⟨hd, hf⟩).symm.trans
    (Date.ofChars?_firstDay_iff.mpr ⟨hspells, hday⟩)
  rw [Option.some.inj hsame]
  exact ⟨rfl, rfl⟩

theorem NamedMonth.period_eq {name' : String} {p' : Period} (h : NamedMonth name p)
    (h' : NamedMonth name' p') (hyear : p.first.year = p'.first.year)
    (hmonth : p.first.month = p'.first.month) : p = p' := by
  obtain ⟨-, hday, next, hnext, hlast⟩ := (namedMonth_iff h.unmarked).mp h
  obtain ⟨-, hday', next', hnext', hlast'⟩ := (namedMonth_iff h'.unmarked).mp h'
  have hfirst : p.first = p'.first := Date.ext hyear hmonth (hday.trans hday'.symm)
  rw [hfirst, hnext'] at hnext
  obtain rfl := Option.some.inj hnext
  have hsame : p.last = p'.last := Option.some.inj (hlast.symm.trans hlast')
  cases p
  cases p'
  simp_all

end

def monthName (d : Date) : String := String.ofList (Date.monthChars d.year d.month)

theorem trimmed_monthName (d : Date) :
    trimmed (monthName d).toList = Date.monthChars d.year d.month := by
  unfold monthName
  rw [String.toList_ofList]
  exact trimmed_of_not_blank fun c hc =>
    Date.not_isBlank_of_isDateChar (Date.isDateChar_of_mem_monthChars hc)

theorem spellsMonth_monthName (d : Date) :
    Date.SpellsMonth (trimmed (monthName d).toList) d.year d.month := by
  have hmonth := d.month_mem.2
  rw [trimmed_monthName]
  exact Date.spellsMonth_monthChars d.year (by omega)

/-- Every month has a name but the last one, which the first day of no month follows. -/
theorem exists_namedMonth_monthName_iff (d : Date) :
    (∃ p, NamedMonth (monthName d) p) ↔ ¬(d.year = lastYear ∧ d.month = 12) := by
  have hunmarked : ¬['.', '.'] <:+: (monthName d).toList := by
    intro h
    unfold monthName at h
    rw [String.toList_ofList] at h
    exact Date.ne_dot_of_isDateChar
      (Date.isDateChar_of_mem_monthChars (h.subset List.mem_cons_self)) rfl
  constructor
  · rintro ⟨p, h⟩
    obtain ⟨hyear, hmonth⟩ := h.eq_of_spells (spellsMonth_monthName d)
    obtain ⟨-, -, next, hnext, -⟩ := (namedMonth_iff hunmarked).mp h
    rw [hyear, hmonth]
    exact Date.exists_nextMonth?_iff.mp ⟨next, hnext⟩
  · intro h
    obtain ⟨f, hyear, hmonth, hday⟩ := d.exists_firstDay
    rw [← hyear, ← hmonth] at h
    obtain ⟨next, hnext⟩ := Date.exists_nextMonth?_iff.mpr h
    have hspells := spellsMonth_monthName d
    rw [← hyear, ← hmonth] at hspells
    obtain ⟨last, hlast⟩ : ∃ last, next.previous? = some last := by
      obtain ⟨-, hnumber⟩ := Date.nextMonth?_eq_some hnext
      have hfirst := f.year_mem.1
      have hpos := f.month_mem.1
      exact Date.exists_previous? (by omega)
    exact ⟨⟨f, last⟩, (namedMonth_iff hunmarked).mpr ⟨hspells, hday, next, hnext, hlast⟩⟩

end Period

namespace Transaction

open Period

variable {ts : List Transaction} {name : String} {p : Period}

theorem mem_select_iff {employeeId : String} {t : Transaction} : t ∈ select ts employeeId p ↔
    t ∈ ts ∧ t.employeeId = employeeId ∧ p.contains t.date = true := by
  simp [select]

theorem count_select {employeeId : String} {t : Transaction} (h : t ∈ select ts employeeId p) :
    (select ts employeeId p).count t = ts.count t := by
  obtain ⟨-, hemployee, hdate⟩ := mem_select_iff.mp h
  exact List.count_filter (by simp [hemployee, hdate])

theorem eq_of_mem_select {name' : String} {p' : Period} {employeeId employeeId' : String}
    {t : Transaction} (hp : NamedMonth name p) (hp' : NamedMonth name' p')
    (h : t ∈ select ts employeeId p) (h' : t ∈ select ts employeeId' p') :
    employeeId = employeeId' ∧ p = p' := by
  obtain ⟨-, hemployee, hdate⟩ := mem_select_iff.mp h
  obtain ⟨-, hemployee', hdate'⟩ := mem_select_iff.mp h'
  obtain ⟨hyear, hmonth⟩ := (hp.contains_iff t.date).mp hdate
  obtain ⟨hyear', hmonth'⟩ := (hp'.contains_iff t.date).mp hdate'
  exact ⟨hemployee.symm.trans hemployee',
    hp.period_eq hp' (hyear.symm.trans hyear') (hmonth.symm.trans hmonth')⟩

/-- The period of a name is the month that the name spells. A selection for it keeps the order of
the transactions and how often each of them occurs, has none of them in common with a selection for
another employee or another month, and misses none of the employee's that are dated in it. -/
structure SelectsMonth (ts : List Transaction) (name : String) (p : Period) : Prop where
  spells : Date.SpellsMonth (trimmed name.toList) p.first.year p.first.month
  firstDay : p.first.day = 1
  contains_iff : ∀ d, p.contains d = true ↔ d.year = p.first.year ∧ d.month = p.first.month
  sublist : ∀ employeeId, (select ts employeeId p).Sublist ts
  count : ∀ employeeId, ∀ t ∈ select ts employeeId p,
    (select ts employeeId p).count t = ts.count t
  disjoint : ∀ employeeId employeeId' name' p', NamedMonth name' p' →
    (employeeId, p) ≠ (employeeId', p') →
      (select ts employeeId p).Disjoint (select ts employeeId' p')
  complete : ∀ t ∈ ts, Date.SpellsMonth (trimmed name.toList) t.date.year t.date.month →
    t ∈ select ts t.employeeId p

theorem selectsMonth_of_named (h : NamedMonth name p) (ts : List Transaction) :
    SelectsMonth ts name p := by
  obtain ⟨hspells, hday, -⟩ := (namedMonth_iff h.unmarked).mp h
  exact {
    spells := hspells
    firstDay := hday
    contains_iff := h.contains_iff
    sublist := fun _ => List.filter_sublist
    count := fun _ _ ht => count_select ht
    disjoint := by
      intro employeeId employeeId' name' p' h' hne t ht ht'
      obtain ⟨hemployee, hperiod⟩ := eq_of_mem_select h h' ht ht'
      exact hne (Prod.ext hemployee hperiod)
    complete := fun t ht hd =>
      mem_select_iff.mpr ⟨ht, rfl, (h.contains_iff t.date).mpr (h.eq_of_spells hd)⟩ }

/-- The months that have names share out the transactions of a list, and only what is dated in the
last month of the calendar is in none of their selections. -/
theorem months_partition (ts : List Transaction) :
    (∀ name p, NamedMonth name p → SelectsMonth ts name p) ∧
      ∀ t ∈ ts, (∃ p, NamedMonth (monthName t.date) p ∧ t ∈ select ts t.employeeId p) ↔
        ¬(t.date.year = lastYear ∧ t.date.month = 12) := by
  refine ⟨fun name p h => selectsMonth_of_named h ts, fun t ht => ?_⟩
  rw [← exists_namedMonth_monthName_iff]
  constructor
  · rintro ⟨p, hp, -⟩
    exact ⟨p, hp⟩
  · rintro ⟨p, hp⟩
    exact ⟨p, hp, (selectsMonth_of_named hp ts).complete t ht (spellsMonth_monthName t.date)⟩

def februaryBonuses : List Transaction :=
  let bonus : Transaction := ⟨"b1", "emp_001", .one, februaryBefore.last, ""⟩
  [bonus, { bonus with id := "b2", employeeId := "emp_002" }, bonus]

theorem months_partition_februaryBonuses :
    NamedMonth "-4-2 " februaryBefore ∧
      (select februaryBonuses "emp_001" februaryBefore).length = 2 ∧
      SelectsMonth februaryBonuses "-4-2 " februaryBefore :=
  have hnamed : NamedMonth "-4-2 " februaryBefore := ⟨by decide, by decide⟩
  ⟨hnamed, by decide, (months_partition februaryBonuses).1 _ _ hnamed⟩

end Transaction

end Payroll
