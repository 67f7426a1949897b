import Mathlib.Data.List.TakeWhile
import Mathlib.Data.Nat.Notation
import Payroll.Text.Basic

/-!
# Parts of texts

Where a part of a text ends, if what stands behind it cannot belong to it; numerals, and what
trimming leaves.
-/

set_option autoImplicit false

namespace Payroll.Text

-- Powers are those of core, whatever other instances there are.
attribute [local instance (2000)] instPowNat

section
variable {p : Char → Bool} {xs ys r r' : List Char}

theorem takeWhile_append_of_delimited (hxs : ∀ c ∈ xs, p c) (hr : ∀ c ∈ r.head?, p c = false) :
    (xs ++ r).takeWhile p = xs := by
  rw [List.takeWhile_append_of_pos hxs]
  cases r with
  | nil => simp
  | cons c rest => simp [hr c rfl]

theorem dropWhile_append_of_delimited (hxs : ∀ c ∈ xs, p c) (hr : ∀ c ∈ r.head?, p c = false) :
    (xs ++ r).dropWhile p = r := by
  rw [List.dropWhile_append_of_pos hxs]
  cases r with
  | nil => rfl
  | cons c rest => simp [hr c rfl]

/-- Two texts with ends that cannot be taken for a part of them. -/
theorem append_inj_of_delimited (hxs : ∀ c ∈ xs, p c) (hys : ∀ c ∈ ys, p c)
    (hr : ∀ c ∈ r.head?, p c = false) (hr' : ∀ c ∈ r'.head?, p c = false)
    (h : xs ++ r = ys ++ r') : xs = ys ∧ r = r' := by
  have hsame : xs = ys := by
    rw [← takeWhile_append_of_delimited hxs hr, h, takeWhile_append_of_delimited hys hr']
  subst hsame
  exact ⟨rfl, List.append_cancel_left h⟩

/-- A text ends where a character that it does not contain first stands. -/
theorem append_inj_of_notMem {mark : Char} (hxs : mark ∉ xs) (hys : mark ∉ ys)
    (h : xs ++ mark :: r = ys ++ mark :: r') : xs = ys ∧ r = r' := by
  have hstop {q : List Char} : ∀ c ∈ (mark :: q).head?, (c != mark) = false := by
    intro c hc
    cases hc
    exact bne_self_eq_false mark
  have hfree {zs : List Char} (hzs : mark ∉ zs) : ∀ c ∈ zs, (c != mark) = true := by
    intro c hc
    rw [bne_iff_ne]
    rintro rfl
    exact hzs hc
  obtain ⟨hsame, hrest⟩ := append_inj_of_delimited (p := fun c => c != mark)
    (hfree hxs) (hfree hys) hstop hstop h
  exact ⟨hsame, (List.cons.inj hrest).2⟩

/-- A text starts behind the last place of a character that it does not contain. -/
theorem append_inj_of_notMem_right {mark : Char} (hxs : mark ∉ xs) (hys : mark ∉ ys)
    (h : r ++ mark :: xs = r' ++ mark :: ys) : r = r' ∧ xs = ys := by
  have hreverse : xs.reverse ++ mark :: r.reverse = ys.reverse ++ mark :: r'.reverse := by
    simpa using congrArg List.reverse h
  obtain ⟨hsame, hrest⟩ := append_inj_of_notMem (by simpa using hxs) (by simpa using hys) hreverse
  exact ⟨List.reverse_inj.mp hrest, List.reverse_inj.mp hsame⟩

end

/-- Digits, at least one of them, that spell a number. -/
structure IsNumeral (cs : List Char) (n : ℕ) : Prop where
  ne_nil : cs ≠ []
  digits : ∀ c ∈ cs, c.isDigit = true
  number : Nat.ofDigitChars 10 cs 0 = n

theorem natural?_eq_some_iff {cs : List Char} {n : ℕ} : natural? cs = some n ↔ IsNumeral cs n := by
  unfold natural?
  constructor
  · intro h
    split at h
    · cases h
    · next hform =>
      simp only [Bool.or_eq_true, List.isEmpty_iff, Bool.not_eq_true', not_or,
        Bool.not_eq_false, List.all_eq_true] at hform
      exact ⟨hform.1, hform.2, Option.some.inj h⟩
  · rintro ⟨hne, hdigits, rfl⟩
    have hall : cs.all Char.isDigit = true := List.all_eq_true.mpr hdigits
    rw [if_neg (by simp [hne, hall])]

theorem isDigit_of_mem_padded {width n : ℕ} {c : Char} (h : c ∈ padded width n) : c.isDigit := by
  rcases List.mem_append.mp h with h | h
  · rw [List.eq_of_mem_replicate h]
    rfl
  · exact Nat.isDigit_of_mem_toDigits (by decide) (by decide) h

theorem ofDigitChars_padded (width n : ℕ) : Nat.ofDigitChars 10 (padded width n) 0 = n := by
  unfold padded
  rw [Nat.ofDigitChars_append, Nat.ofDigitChars_replicate_zero, Nat.mul_zero]
  exact Nat.ofDigitChars_ten_toDigits

theorem le_length_padded (width n : ℕ) : width ≤ (padded width n).length := by
  unfold padded
  rw [List.length_append, List.length_replicate]
  omega

theorem length_padded_le {width n : ℕ} (hwidth : 0 < width) (h : n < 10 ^ width) :
    (padded width n).length ≤ width := by
  have hdigits : (Nat.toDigits 10 n).length ≤ width :=
    Nat.length_toDigits_le_iff (by decide) hwidth |>.mpr h
  unfold padded
  rw [List.length_append, List.length_replicate]
  omega

theorem isNumeral_padded (width n : ℕ) : IsNumeral (padded width n) n := by
  refine ⟨?_, fun c hc => isDigit_of_mem_padded hc, ofDigitChars_padded width n⟩
  exact List.append_ne_nil_of_right_ne_nil _ Nat.toDigits_ne_nil

theorem isBlank_of_isDigit {c : Char} (h : c.isDigit = true) : isBlank c = false := by
  have hc : 48 ≤ c.toNat ∧ c.toNat ≤ 57 := by
    simpa [Char.isDigit, Char.le_def, UInt32.le_iff_toNat_le] using h
  unfold isBlank
  simp
  omega

theorem trimmed_of_not_blank {cs : List Char} (h : ∀ c ∈ cs, isBlank c = false) :
    trimmed cs = cs := by
  have hskip {ds : List Char} (hds : ∀ c ∈ ds, isBlank c = false) : skipBlanks ds = ds :=
    @dropWhile_append_of_delimited isBlank [] ds (List.forall_mem_nil _)
      fun c hc => hds c (List.mem_of_mem_head? hc)
  unfold trimmed
  rw [hskip h, hskip fun c hc => h c (List.mem_reverse.mp hc), List.reverse_reverse]

theorem isInfix_trimmed (cs : List Char) : trimmed cs <:+: cs := by
  have hskip (ds : List Char) : skipBlanks ds <:+ ds := List.dropWhile_suffix _
  have hright : trimmed cs <+: skipBlanks cs := by
    rw [← List.reverse_suffix]
    unfold trimmed
    rw [List.reverse_reverse]
    exact hskip _
  exact hright.isInfix.trans (hskip cs).isInfix

end Payroll.Text
