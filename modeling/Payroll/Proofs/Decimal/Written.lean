import Payroll.Decimal.Text
import Payroll.Proofs.Decimal.Value
import Payroll.Proofs.Text

/-!
# What the text of a decimal tells

A text has a sign for negative decimals, digits, and behind a point as many digits as the scale
says. So no two decimals are written alike.
-/

set_option autoImplicit false

namespace Payroll

namespace Decimal

open Text

def signChars (a : Decimal) : List Char := if a.negative then ['-'] else []

theorem not_isDigit_of_mem_signChars (a : Decimal) : ∀ c ∈ a.signChars, (!c.isDigit) = true := by
  intro c hc
  unfold signChars at hc
  split at hc
  · rw [List.mem_singleton.mp hc]
    rfl
  · cases hc

theorem negative_eq_of_signChars {a b : Decimal} (h : a.signChars = b.signChars) :
    a.negative = b.negative := by
  unfold signChars at h
  cases ha : a.negative <;> cases hb : b.negative <;> simp [ha, hb] at h ⊢

/-- A text by its parts: the sign, digits, and behind a point the digits of the scale. -/
theorem exists_toChars (a : Decimal) :
    ∃ whole fraction : List Char, (∀ c ∈ whole, c.isDigit) ∧ (∀ c ∈ fraction, c.isDigit) ∧
      whole ≠ [] ∧ fraction.length = a.scale ∧
      Nat.ofDigitChars 10 (whole ++ fraction) 0 = a.magnitude ∧
      a.toChars = a.signChars ++ (whole ++ if a.scale = 0 then [] else '.' :: fraction) := by
  have hlength := le_length_padded (a.scale + 1) a.magnitude
  let digits := padded (a.scale + 1) a.magnitude
  let n := digits.length - a.scale
  have hn : n ≤ digits.length := Nat.sub_le _ _
  have hdigit {c : Char} (h : c ∈ digits) : c.isDigit := isDigit_of_mem_padded h
  refine ⟨digits.take n, digits.drop n, fun c h => hdigit (List.mem_of_mem_take h),
    fun c h => hdigit (List.mem_of_mem_drop h), ?_, ?_, ?_, ?_⟩
  · intro hnil
    have := congrArg List.length hnil
    rw [List.length_take, List.length_nil] at this
    change a.scale + 1 ≤ digits.length at hlength
    omega
  · rw [List.length_drop]
    change a.scale + 1 ≤ digits.length at hlength
    omega
  · rw [List.take_append_drop]
    exact ofDigitChars_padded _ _
  · have hunsigned : (if a.scale = 0 then digits else digits.take n ++ '.' :: digits.drop n) =
        digits.take n ++ if a.scale = 0 then [] else '.' :: digits.drop n := by
      split
      · next h =>
        rw [List.append_nil, List.take_of_length_le]
        omega
      · rfl
    unfold toChars signChars
    dsimp only
    rw [← hunsigned]
    split
    · rfl
    · rfl

theorem toChars_injective {a b : Decimal} (h : a.toChars = b.toChars) : a = b := by
  obtain ⟨whole, fraction, hwhole, -, hne, hscale, hmagnitude, ha⟩ := exists_toChars a
  obtain ⟨whole', fraction', hwhole', -, hne', hscale', hmagnitude', hb⟩ := exists_toChars b
  rw [ha, hb] at h
  have hpoint {s : ℕ} {f : List Char} :
      ∀ c ∈ (if s = 0 then [] else '.' :: f).head?, c.isDigit = false := by
    intro c hc
    split at hc
    · cases hc
    · cases hc
      rfl
  have hsign {cs rest : List Char} (hcs : ∀ c ∈ cs, c.isDigit) (hne : cs ≠ []) :
      ∀ c ∈ (cs ++ rest).head?, (!c.isDigit) = false := by
    intro c hc
    rw [List.head?_append_of_ne_nil _ hne] at hc
    rw [hcs c (List.mem_of_mem_head? hc)]
    rfl
  obtain ⟨hnegative, h⟩ := append_inj_of_delimited (p := fun c => !c.isDigit)
    (not_isDigit_of_mem_signChars a) (not_isDigit_of_mem_signChars b) (hsign hwhole hne)
    (hsign hwhole' hne') h
  obtain ⟨rfl, htail⟩ := append_inj_of_delimited (p := Char.isDigit) hwhole hwhole' hpoint hpoint h
  have hfraction : fraction = fraction' := by
    split at htail
    · next h0 =>
      split at htail
      · next h0' =>
        rw [h0] at hscale
        rw [h0'] at hscale'
        rw [List.length_eq_zero_iff.mp hscale, List.length_eq_zero_iff.mp hscale']
      · cases htail
    · split at htail
      · cases htail
      · exact (List.cons.inj htail).2
  subst hfraction
  exact ext (negative_eq_of_signChars hnegative) (hmagnitude.symm.trans hmagnitude')
    (hscale.symm.trans hscale')

theorem toText_injective {a b : Decimal} (h : a.toText = b.toText) : a = b :=
  toChars_injective (String.ofList_injective h)

theorem mem_toChars {a : Decimal} {c : Char} (h : c ∈ a.toChars) :
    c.isDigit = true ∨ c = '-' ∨ c = '.' := by
  obtain ⟨whole, fraction, hwhole, hfraction, -, -, -, ha⟩ := exists_toChars a
  rw [ha, List.mem_append, List.mem_append] at h
  rcases h with h | h | h
  · unfold signChars at h
    split at h
    · exact .inr (.inl (List.mem_singleton.mp h))
    · cases h
  · exact .inl (hwhole c h)
  · split at h
    · cases h
    · rcases List.mem_cons.mp h with rfl | h
      · exact .inr (.inr rfl)
      · exact .inl (hfraction c h)

/-- Decimals that are written alike in their shortest form have one value. -/
theorem value_eq_of_normalize {a b : Decimal}
    (h : a.normalize.toText = b.normalize.toText) : a.value = b.value := by
  rw [← value_normalize a, ← value_normalize b, toText_injective h]

end Decimal

end Payroll
