import Payroll.Proofs.Calendar.Days
import Payroll.Proofs.Text

/-!
# Dates read from texts

The texts that are read as a date: a year, a month and a day with dashes between them, each behind
white space or none, the year of up to four digits or with a sign, the others of up to two digits. A
reader takes exactly these texts. What is written for a date is one of them.
-/

set_option autoImplicit false

namespace Payroll.Date

open Calendar Text

def IsGap (cs : List Char) : Prop := ∀ c ∈ cs, isBlank c = true

theorem isGap_nil : IsGap [] := List.forall_mem_nil _

/-- The spellings of a year. Only behind a sign there may be more than four digits. -/
inductive SpellsYear : List Char → ℤ → Prop
  | plain {gap digits : List Char} {n : ℕ} : IsGap gap → IsNumeral digits n → digits.length ≤ 4 →
      SpellsYear (gap ++ digits) n
  | plus {gap digits : List Char} {n : ℕ} : IsGap gap → IsNumeral digits n →
      SpellsYear (gap ++ '+' :: digits) n
  | minus {gap digits : List Char} {n : ℕ} : IsGap gap → IsNumeral digits n →
      SpellsYear (gap ++ '-' :: digits) (-n)

/-- The spellings of the number of a month or a day. -/
def SpellsPart (cs : List Char) (n : ℕ) : Prop :=
  ∃ gap digits, cs = gap ++ digits ∧ IsGap gap ∧ IsNumeral digits n ∧ digits.length ≤ 2

def SpellsMonth (cs : List Char) (year : ℤ) (month : ℕ) : Prop :=
  ∃ ys ms, cs = ys ++ '-' :: ms ∧ SpellsYear ys year ∧ SpellsPart ms month

def Spells (cs : List Char) (d : Date) : Prop :=
  ∃ ms ds, cs = ms ++ '-' :: ds ∧ SpellsMonth ms d.year d.month ∧ SpellsPart ds d.day

theorem dash_notMem_of_isNumeral {cs : List Char} {n : ℕ} (h : IsNumeral cs n) : '-' ∉ cs :=
  fun hmem => absurd (h.digits '-' hmem) (by decide)

theorem SpellsPart.dash_notMem {cs : List Char} {n : ℕ} (h : SpellsPart cs n) : '-' ∉ cs := by
  obtain ⟨gap, digits, rfl, hgap, hdigits, -⟩ := h
  intro hmem
  rcases List.mem_append.mp hmem with hmem | hmem
  · exact absurd (hgap '-' hmem) (by decide)
  · exact dash_notMem_of_isNumeral hdigits hmem

section
variable {cs digits rest : List Char} {n width : ℕ}

theorem skipBlanks_append {gap : List Char} (hgap : IsGap gap)
    (hrest : ∀ c ∈ rest.head?, isBlank c = false) : skipBlanks (gap ++ rest) = rest :=
  dropWhile_append_of_delimited hgap hrest

theorem exists_gap (cs : List Char) : ∃ gap, IsGap gap ∧ cs = gap ++ skipBlanks cs := by
  refine ⟨cs.takeWhile isBlank, fun c hc => List.mem_takeWhile_imp hc, ?_⟩
  exact List.takeWhile_append_dropWhile.symm

theorem not_isBlank_head? (h : IsNumeral digits n) (rest : List Char) :
    ∀ c ∈ (digits ++ rest).head?, isBlank c = false := by
  obtain ⟨first, others, rfl⟩ := List.exists_cons_of_ne_nil h.ne_nil
  intro c hc
  obtain rfl : first = c := Option.some.inj hc
  exact isBlank_of_isDigit (h.digits first List.mem_cons_self)

theorem digits?_eq_some (h : digits? cs = some (n, rest)) :
    ∃ digits, cs = digits ++ rest ∧ IsNumeral digits n := by
  obtain ⟨m, hm, heq⟩ := Option.map_eq_some_iff.mp h
  cases heq
  exact ⟨_, List.takeWhile_append_dropWhile.symm, natural?_eq_some_iff.mp hm⟩

theorem digits?_append (h : IsNumeral digits n) (hrest : ∀ c ∈ rest.head?, c.isDigit = false) :
    digits? (digits ++ rest) = some (n, rest) := by
  unfold digits?
  dsimp only
  rw [takeWhile_append_of_delimited h.digits hrest, dropWhile_append_of_delimited h.digits hrest,
    natural?_eq_some_iff.mpr h]
  rfl

theorem digitsWithin?_eq_some (h : digitsWithin? width cs = some (n, rest)) :
    ∃ digits, cs = digits ++ rest ∧ IsNumeral digits n ∧ digits.length ≤ width := by
  obtain ⟨m, hm, heq⟩ := Option.map_eq_some_iff.mp h
  cases heq
  have hprefix : (cs.take width).takeWhile Char.isDigit <+: cs :=
    (List.takeWhile_prefix _).trans (List.take_prefix width cs)
  refine ⟨(cs.take width).takeWhile Char.isDigit, ?_, natural?_eq_some_iff.mp hm, ?_⟩
  · exact List.prefix_iff_eq_append.mp hprefix |>.symm
  · exact ((List.takeWhile_prefix _).length_le).trans (List.length_take_le width cs)

theorem digitsWithin?_append (h : IsNumeral digits n) (hlength : digits.length ≤ width)
    (hrest : ∀ c ∈ rest.head?, c.isDigit = false) :
    digitsWithin? width (digits ++ rest) = some (n, rest) := by
  have htake : ((digits ++ rest).take width).takeWhile Char.isDigit = digits := by
    rw [List.take_append, List.take_of_length_le hlength]
    refine takeWhile_append_of_delimited h.digits fun c hc => hrest c ?_
    rw [List.head?_take] at hc
    split at hc
    · cases hc
    · exact hc
  unfold digitsWithin?
  dsimp only
  rw [htake, natural?_eq_some_iff.mpr h, List.drop_left]
  rfl

theorem part?_eq_some (h : part? cs = some (n, rest)) :
    ∃ part, cs = part ++ rest ∧ SpellsPart part n := by
  obtain ⟨gap, hgap, hcs⟩ := exists_gap cs
  obtain ⟨digits, hskip, hdigits, hlength⟩ := digitsWithin?_eq_some h
  refine ⟨gap ++ digits, ?_, gap, digits, rfl, hgap, hdigits, hlength⟩
  rw [List.append_assoc, ← hskip]
  exact hcs

theorem part?_append {part : List Char} (h : SpellsPart part n)
    (hrest : ∀ c ∈ rest.head?, c.isDigit = false) : part? (part ++ rest) = some (n, rest) := by
  obtain ⟨gap, digits, rfl, hgap, hdigits, hlength⟩ := h
  unfold part?
  rw [List.append_assoc, skipBlanks_append hgap (not_isBlank_head? hdigits rest)]
  exact digitsWithin?_append hdigits hlength hrest

theorem part?_of_spells (h : SpellsPart cs n) : part? cs = some (n, []) := by
  have happend : part? (cs ++ []) = some (n, []) := part?_append h nofun
  rwa [List.append_nil] at happend

theorem SpellsPart.unique {m : ℕ} (hm : SpellsPart cs m) (hn : SpellsPart cs n) : m = n := by
  have hread := (part?_of_spells hm).symm.trans (part?_of_spells hn)
  exact (Prod.mk.inj (Option.some.inj hread)).1

theorem exists_signed {gap behind : List Char} {sign : Char} (hcs : cs = gap ++ sign :: behind)
    (h : digits? behind = some (n, rest)) :
    ∃ digits, cs = gap ++ sign :: digits ++ rest ∧ IsNumeral digits n := by
  obtain ⟨digits, rfl, hdigits⟩ := digits?_eq_some h
  refine ⟨digits, ?_, hdigits⟩
  rw [hcs, List.append_assoc, List.cons_append]

theorem skipBlanks_signed {gap : List Char} {sign : Char} (hgap : IsGap gap)
    (hsign : isBlank sign = false) (digits rest : List Char) :
    skipBlanks (gap ++ sign :: digits ++ rest) = sign :: (digits ++ rest) := by
  rw [List.append_assoc, List.cons_append]
  refine skipBlanks_append hgap fun c hc => ?_
  rwa [← Option.some.inj hc]

theorem year?_eq_some {year : ℤ} (h : year? cs = some (year, rest)) :
    ∃ ys, cs = ys ++ rest ∧ SpellsYear ys year := by
  obtain ⟨gap, hgap, hcs⟩ := exists_gap cs
  unfold year? at h
  split at h
  · next behind hskip =>
    rw [hskip] at hcs
    obtain ⟨⟨m, r⟩, hm, heq⟩ := Option.map_eq_some_iff.mp h
    cases heq
    obtain ⟨digits, hcs, hdigits⟩ := exists_signed hcs hm
    exact ⟨_, hcs, .minus hgap hdigits⟩
  · next behind hskip =>
    rw [hskip] at hcs
    obtain ⟨⟨m, r⟩, hm, heq⟩ := Option.map_eq_some_iff.mp h
    cases heq
    obtain ⟨digits, hcs, hdigits⟩ := exists_signed hcs hm
    exact ⟨_, hcs, .plus hgap hdigits⟩
  · obtain ⟨⟨m, r⟩, hm, heq⟩ := Option.map_eq_some_iff.mp h
    cases heq
    obtain ⟨digits, hskip, hdigits, hlength⟩ := digitsWithin?_eq_some hm
    refine ⟨gap ++ digits, ?_, .plain hgap hdigits hlength⟩
    rw [List.append_assoc, ← hskip]
    exact hcs

theorem year?_append {ys : List Char} {year : ℤ} (h : SpellsYear ys year)
    (hrest : ∀ c ∈ rest.head?, c.isDigit = false) : year? (ys ++ rest) = some (year, rest) := by
  unfold year?
  cases h with
  | @plain gap digits n hgap hdigits hlength =>
    rw [List.append_assoc, skipBlanks_append hgap (not_isBlank_head? hdigits rest)]
    -- A digit is no sign.
    obtain ⟨c, digits, rfl⟩ := List.exists_cons_of_ne_nil hdigits.ne_nil
    have hc := hdigits.digits c List.mem_cons_self
    split
    · next heq =>
      cases heq
      cases hc
    · next heq =>
      cases heq
      cases hc
    · rw [digitsWithin?_append hdigits hlength hrest]
      rfl
  | @plus gap digits n hgap hdigits =>
    rw [skipBlanks_signed hgap rfl]
    change (digits? (digits ++ rest)).map _ = _
    rw [digits?_append hdigits hrest]
    rfl
  | @minus gap digits n hgap hdigits =>
    rw [skipBlanks_signed hgap rfl]
    change (digits? (digits ++ rest)).map _ = _
    rw [digits?_append hdigits hrest]
    rfl

theorem dash?_eq_some (h : dash? cs = some rest) : cs = '-' :: rest := by
  unfold dash? at h
  split at h
  · exact congrArg _ (Option.some.inj h)
  · cases h

end

/-- The reader takes the spellings of dates and nothing else. -/
theorem ofChars?_eq_some_iff {cs : List Char} {d : Date} :
    ofChars? cs = some d ↔ Spells cs d := by
  unfold ofChars? read?
  constructor
  · intro h
    obtain ⟨⟨year, cs₁⟩, hyear, h₁⟩ := Option.bind_eq_some_iff.mp h
    obtain ⟨cs₂, hdash, h₂⟩ := Option.bind_eq_some_iff.mp h₁
    obtain ⟨⟨month, cs₃⟩, hmonth, h₃⟩ := Option.bind_eq_some_iff.mp h₂
    obtain ⟨cs₄, hdash', h₄⟩ := Option.bind_eq_some_iff.mp h₃
    obtain ⟨⟨day, cs₅⟩, hday, hend⟩ := Option.bind_eq_some_iff.mp h₄
    obtain ⟨ys, rfl, hys⟩ := year?_eq_some hyear
    obtain rfl := dash?_eq_some hdash
    obtain ⟨ms, rfl, hms⟩ := part?_eq_some hmonth
    obtain rfl := dash?_eq_some hdash'
    obtain ⟨ds, rfl, hds⟩ := part?_eq_some hday
    obtain ⟨hempty, hparts⟩ := Option.ite_none_right_eq_some.mp hend
    obtain rfl : cs₅ = [] := List.isEmpty_iff.mp hempty
    obtain ⟨rfl, rfl, rfl⟩ := ofParts?_eq_some_iff.mp hparts
    refine ⟨ys ++ '-' :: ms, ds, ?_, ⟨ys, ms, rfl, hys, hms⟩, hds⟩
    simp
  · rintro ⟨_, ds, rfl, ⟨ys, ms, rfl, hys, hms⟩, hds⟩
    have hdash {cs : List Char} : ∀ c ∈ ('-' :: cs).head?, c.isDigit = false := by
      intro c hc
      cases hc
      rfl
    rw [List.append_assoc, List.cons_append, year?_append hys hdash]
    simp only [Option.bind_eq_bind, Option.bind_some, id, dash?, part?_append hms hdash,
      part?_of_spells hds]
    exact ofParts?_eq_some_iff.mpr ⟨rfl, rfl, rfl⟩

theorem spellsYear_yearChars (year : ℤ) : SpellsYear (yearChars year) year := by
  unfold yearChars
  split
  · next h =>
    have habs : (year.natAbs : ℤ) = year := by omega
    have hplain := SpellsYear.plain isGap_nil
      (isNumeral_padded 4 year.natAbs) (length_padded_le (by decide) (by omega))
    rwa [habs] at hplain
  · split
    · have habs : -(year.natAbs : ℤ) = year := by omega
      have hminus := SpellsYear.minus isGap_nil (isNumeral_padded 4 year.natAbs)
      rwa [habs] at hminus
    · have habs : (year.natAbs : ℤ) = year := by omega
      have hplus := SpellsYear.plus isGap_nil (isNumeral_padded 4 year.natAbs)
      rwa [habs] at hplus

theorem spellsPart_padded {n : ℕ} (h : n < 100) : SpellsPart (padded 2 n) n :=
  ⟨[], _, rfl, isGap_nil, isNumeral_padded 2 n, length_padded_le (by decide) h⟩

def monthChars (year : ℤ) (month : ℕ) : List Char := yearChars year ++ '-' :: padded 2 month

theorem spellsMonth_monthChars (year : ℤ) {month : ℕ} (h : month < 100) :
    SpellsMonth (monthChars year month) year month :=
  ⟨_, _, rfl, spellsYear_yearChars year, spellsPart_padded h⟩

theorem toChars_eq (d : Date) :
    d.toChars = monthChars d.year d.month ++ '-' :: padded 2 d.day := rfl

theorem spells_toChars (d : Date) : Spells d.toChars d := by
  have hmonth := d.month_mem.2
  have hday := d.day_le
  exact ⟨_, _, d.toChars_eq, spellsMonth_monthChars d.year (by omega), spellsPart_padded (by omega)⟩

theorem ofChars?_toChars (d : Date) : ofChars? d.toChars = some d :=
  ofChars?_eq_some_iff.mpr (spells_toChars d)

def IsDateChar (c : Char) : Prop := c.isDigit = true ∨ c = '-' ∨ c = '+'

theorem not_isBlank_of_isDateChar {c : Char} (h : IsDateChar c) : isBlank c = false := by
  rcases h with hdigit | rfl | rfl
  · exact isBlank_of_isDigit hdigit
  · rfl
  · rfl

theorem ne_dot_of_isDateChar {c : Char} (h : IsDateChar c) : c ≠ '.' := by
  rintro rfl
  rcases h with h | h | h
  · cases h
  · cases h
  · cases h

theorem isDateChar_of_mem_padded {c : Char} {width n : ℕ} (h : c ∈ '-' :: padded width n) :
    IsDateChar c := by
  rcases List.mem_cons.mp h with rfl | hc
  · exact .inr (.inl rfl)
  · exact .inl (isDigit_of_mem_padded hc)

theorem isDateChar_of_mem_monthChars {year : ℤ} {month : ℕ} {c : Char}
    (h : c ∈ monthChars year month) : IsDateChar c := by
  rcases List.mem_append.mp h with hc | hc
  · unfold yearChars at hc
    split at hc
    · exact .inl (isDigit_of_mem_padded hc)
    · split at hc
      · exact isDateChar_of_mem_padded hc
      · rcases List.mem_cons.mp hc with rfl | hc
        · exact .inr (.inr rfl)
        · exact .inl (isDigit_of_mem_padded hc)
  · exact isDateChar_of_mem_padded hc

theorem isDateChar_of_mem_toChars {d : Date} {c : Char} (h : c ∈ d.toChars) : IsDateChar c := by
  rcases List.mem_append.mp h with hc | hc
  · exact isDateChar_of_mem_monthChars hc
  · exact isDateChar_of_mem_padded hc

end Payroll.Date
