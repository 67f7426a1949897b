import Mathlib.Data.Int.Order.Basic
import Mathlib.Tactic.SplitIfs
import Payroll.Calendar.Date

/-!
# The order of days

Dates are ordered like numbers in which every month has room for 31 days. The day before a date is
the last one that is smaller, and the days before the next month that are not before the first of
this one are the days of this month.
-/

set_option autoImplicit false

namespace Payroll

open Calendar

theorem Calendar.daysInMonth_le (year : ℤ) (month : ℕ) : daysInMonth year month ≤ 31 := by
  unfold daysInMonth
  split_ifs <;> decide

theorem Calendar.le_daysInMonth (year : ℤ) (month : ℕ) : 28 ≤ daysInMonth year month := by
  unfold daysInMonth
  split_ifs <;> decide

namespace Date

variable {a b : Date}

theorem ext (hyear : a.year = b.year) (hmonth : a.month = b.month) (hday : a.day = b.day) :
    a = b := by
  cases a
  cases b
  simp_all

theorem ofParts?_eq_some_iff {year : ℤ} {month day : ℕ} {d : Date} :
    ofParts? year month day = some d ↔ d.year = year ∧ d.month = month ∧ d.day = day := by
  unfold ofParts?
  constructor
  · intro h
    split_ifs at h
    cases h
    exact ⟨rfl, rfl, rfl⟩
  · rintro ⟨rfl, rfl, rfl⟩
    rw [dif_pos d.year_mem, dif_pos d.month_mem, dif_pos d.day_mem]

theorem exists_ofParts? {year : ℤ} {month day : ℕ} (hyear : firstYear ≤ year ∧ year ≤ lastYear)
    (hmonth : 1 ≤ month ∧ month ≤ 12) (hday : 1 ≤ day ∧ day ≤ daysInMonth year month) :
    ∃ d, ofParts? year month day = some d :=
  ⟨⟨year, month, day, hyear, hmonth, hday⟩, ofParts?_eq_some_iff.mpr ⟨rfl, rfl, rfl⟩⟩

/-- A number that orders dates; not every number has a date. -/
def number (d : Date) : ℤ := (d.year * 12 + d.month) * 31 + d.day

theorem day_le (d : Date) : d.day ≤ 31 := Nat.le_trans d.day_mem.2 (daysInMonth_le _ _)

theorem le_iff : a.le b = true ↔ a.number ≤ b.number := by
  have ha := a.day_le
  have hb := b.day_le
  obtain ⟨ha₁, ha₂⟩ := a.month_mem
  obtain ⟨hb₁, hb₂⟩ := b.month_mem
  have hda := a.day_mem.1
  have hdb := b.day_mem.1
  unfold le number
  simp only [Bool.or_eq_true, Bool.and_eq_true, decide_eq_true_eq]
  omega

/-- No day lies between a date and the day before it. -/
theorem le_iff_of_previous? {d e : Date} (h : d.previous? = some e) (x : Date) :
    x.le e = true ↔ x.number < d.number := by
  rw [le_iff]
  have hd := d.day_mem.1
  have hx := x.day_mem
  have hx' := x.day_le
  obtain ⟨hx₁, hx₂⟩ := x.month_mem
  obtain ⟨hd₁, hd₂⟩ := d.month_mem
  unfold previous? at h
  split_ifs at h with hday hmonth
  · obtain ⟨hyear, hmonth, hday⟩ := ofParts?_eq_some_iff.mp h
    unfold number
    rw [hyear, hmonth, hday]
    omega
  · obtain ⟨hyear, hmonth, hday⟩ := ofParts?_eq_some_iff.mp h
    have hlast := le_daysInMonth d.year (d.month - 1)
    have hlast' := daysInMonth_le d.year (d.month - 1)
    by_cases hsame : x.year = d.year ∧ x.month = d.month - 1
    · -- Days of the same month go up to the last one.
      have hbound := hx.2
      rw [hsame.1, hsame.2] at hbound
      unfold number
      rw [hyear, hmonth, hday]
      omega
    · unfold number
      rw [hyear, hmonth, hday]
      omega
  · obtain ⟨hyear, hmonth, hday⟩ := ofParts?_eq_some_iff.mp h
    have hlast : daysInMonth (d.year - 1) 12 = 31 := rfl
    unfold number
    rw [hyear, hmonth, hday, hlast]
    omega

theorem exists_previous? {d : Date} (h : firstYear < d.year ∨ 1 < d.month) :
    ∃ e, d.previous? = some e := by
  obtain ⟨hyear₁, hyear₂⟩ := d.year_mem
  obtain ⟨hmonth₁, hmonth₂⟩ := d.month_mem
  obtain ⟨hday₁, hday₂⟩ := d.day_mem
  unfold previous?
  split_ifs
  · exact exists_ofParts? d.year_mem d.month_mem ⟨by omega, by omega⟩
  · have hlast := le_daysInMonth d.year (d.month - 1)
    exact exists_ofParts? d.year_mem ⟨by omega, by omega⟩ ⟨by omega, Nat.le_refl _⟩
  · have hlast : 1 ≤ 31 ∧ 31 ≤ 31 := by decide
    exact exists_ofParts? ⟨by omega, by omega⟩ ⟨by omega, by omega⟩ hlast

theorem nextMonth?_eq_some {d n : Date} (h : d.nextMonth? = some n) :
    n.day = 1 ∧ n.year * 12 + n.month = d.year * 12 + d.month + 1 := by
  unfold nextMonth? at h
  split_ifs at h with hlast
  · obtain ⟨hyear, hmonth, hday⟩ := ofParts?_eq_some_iff.mp h
    rw [hyear, hmonth, hlast]
    omega
  · obtain ⟨hyear, hmonth, hday⟩ := ofParts?_eq_some_iff.mp h
    rw [hyear, hmonth]
    omega

theorem exists_nextMonth?_iff {d : Date} :
    (∃ n, d.nextMonth? = some n) ↔ ¬(d.year = lastYear ∧ d.month = 12) := by
  obtain ⟨hyear₁, hyear₂⟩ := d.year_mem
  obtain ⟨hmonth₁, hmonth₂⟩ := d.month_mem
  unfold nextMonth?
  split_ifs with hlast
  · constructor
    · rintro ⟨n, hn⟩ ⟨hyear, -⟩
      obtain ⟨hnext, -, -⟩ := ofParts?_eq_some_iff.mp hn
      have hn₂ := n.year_mem.2
      omega
    · intro h
      have hday := le_daysInMonth (d.year + 1) 1
      exact exists_ofParts? ⟨by omega, by omega⟩ (by decide) ⟨by decide, by omega⟩
  · have hday := le_daysInMonth d.year (d.month + 1)
    exact iff_of_true
      (exists_ofParts? d.year_mem ⟨by omega, by omega⟩ ⟨by decide, by omega⟩) fun h => hlast h.2

theorem between_iff {first next x : Date} (hfirst : first.day = 1)
    (hnext : first.nextMonth? = some next) :
    (first.number ≤ x.number ∧ x.number < next.number) ↔
      x.year = first.year ∧ x.month = first.month := by
  obtain ⟨hday, hmonth⟩ := nextMonth?_eq_some hnext
  have hx := x.day_mem.1
  have hx' := x.day_le
  obtain ⟨hx₁, hx₂⟩ := x.month_mem
  obtain ⟨hf₁, hf₂⟩ := first.month_mem
  unfold number
  rw [hfirst, hday]
  omega

end Date

end Payroll
