import Payroll.Decimal.Text
import Payroll.Proofs.Decimal.Written

/-!
# Amounts read back

All digits of a decimal are written, and all are read again: the text gives back sign, magnitude and
scale. Only a zero comes back without a sign.
-/

set_option autoImplicit false

namespace Payroll.Decimal

open Text

/-- The amount as it is read back: a zero has no sign. -/
def plain (a : Decimal) : Decimal := { a with negative := a.negative && !a.isZero }

section
variable (a : Decimal)

theorem coefficient_plain : a.plain.coefficient = a.coefficient := by
  unfold plain coefficient isZero
  by_cases h : a.magnitude = 0 <;> simp [h]

theorem value_plain : a.plain.value = a.value := by
  unfold value
  rw [coefficient_plain]
  rfl

theorem scale_plain : a.plain.scale = a.scale := rfl

end

theorem digit?_of_isDigit {c : Char} (h : c.isDigit = true) :
    digit? c = some (c.toNat - '0'.toNat) :=
  if_pos h

theorem le_ofDigitChars (cs : List Char) (m : ℕ) : m ≤ Nat.ofDigitChars 10 cs m := by
  induction cs generalizing m with
  | nil => exact le_rfl
  | cons c cs ih =>
    have hrest := ih (10 * m + (c.toNat - '0'.toNat))
    rw [Nat.ofDigitChars_cons]
    omega

/-- The places behind the point once `n` more digits are read. -/
def places (point : Bool) (scale n : ℕ) : ℕ := if point then scale + n else scale

theorem places_places_one (point : Bool) (scale n : ℕ) :
    places point (places point scale 1) n = places point scale (n + 1) := by
  cases point
  · rfl
  · change scale + 1 + n = scale + (n + 1)
    omega

theorem places_le_places (point : Bool) (scale : ℕ) {m n : ℕ} (h : m ≤ n) :
    places point scale m ≤ places point scale n := by
  cases point
  · exact le_rfl
  · exact Nat.add_le_add_left h scale

theorem readDigits?_append {cs rest : List Char} {point started : Bool} {m scale : ℕ}
    (hcs : ∀ c ∈ cs, c.isDigit = true) (hrest : rest.head? ≠ some '_')
    (hm : Nat.ofDigitChars 10 cs m < capacity) (hscale : places point scale cs.length ≤ maxScale) :
    readDigits? point started m scale (cs ++ rest) =
      readDigits? point (started || !cs.isEmpty) (Nat.ofDigitChars 10 cs m)
        (places point scale cs.length) rest := by
  induction cs generalizing started m scale with
  | nil =>
    cases point
    · simp [Nat.ofDigitChars, places]
    · simp [Nat.ofDigitChars, places]
  | cons c cs ih =>
    have hdigits : ∀ c ∈ cs, c.isDigit = true := fun c hc => hcs c (List.mem_cons_of_mem _ hc)
    have hnext : (cs ++ rest).head? ≠ some '_' := by
      cases cs with
      | nil => exact hrest
      | cons c' cs =>
        intro h
        have hdigit := hdigits c' List.mem_cons_self
        rw [Option.some.inj h] at hdigit
        cases hdigit
    have hfirst : (if point then scale + 1 else scale) ≤ maxScale :=
      (places_le_places point scale (Nat.le_add_left 1 _)).trans hscale
    rw [List.length_cons, ← places_places_one] at hscale ⊢
    rw [Nat.ofDigitChars_cons, mul_comm] at hm ⊢
    have hfits := (le_ofDigitChars cs _).trans_lt hm
    have hstep : readDigits? point true _ (places point scale 1) (cs ++ rest) = _ :=
      ih hdigits hm hscale
    rw [List.cons_append, readDigits?, digit?_of_isDigit (hcs c List.mem_cons_self)]
    dsimp only
    rw [if_pos ⟨hfits, hfirst⟩, if_neg fun h => hnext h.2.2]
    exact hstep.trans (by simp)

theorem readDigits?_toChars (a : Decimal) :
    ∃ first rest, first.isDigit = true ∧ a.toChars = a.signChars ++ first :: rest ∧
      readDigits? false false 0 0 (first :: rest) = some (a.magnitude, a.scale) := by
  obtain ⟨whole, fraction, hwhole, hfraction, hne, hlength, hmagnitude, hchars⟩ := exists_toChars a
  have hfits : Nat.ofDigitChars 10 fraction (Nat.ofDigitChars 10 whole 0) < capacity := by
    rw [← Nat.ofDigitChars_append, hmagnitude]
    exact a.magnitude_lt
  have hread : readDigits? false false 0 0 (whole ++ if a.scale = 0 then [] else '.' :: fraction) =
      some (a.magnitude, a.scale) := by
    rw [readDigits?_append hwhole (by split <;> simp) ((le_ofDigitChars _ _).trans_lt hfits)
      (Nat.zero_le _)]
    rw [Nat.ofDigitChars_append] at hmagnitude
    have hstarted : (false || !whole.isEmpty) = true := by simpa using hne
    rw [hstarted]
    change readDigits? false true _ 0 _ = _
    split
    · next hzero =>
      rw [hzero] at hlength ⊢
      rw [List.length_eq_zero_iff.mp hlength] at hmagnitude
      simp [readDigits?, ← hmagnitude, Nat.ofDigitChars]
    · have hpoint : digit? '.' = none := rfl
      have hplaces : places true 0 fraction.length = a.scale := by
        rw [← hlength]
        exact Nat.zero_add _
      have htail : readDigits? true true _ 0 (fraction ++ []) = _ :=
        readDigits?_append hfraction (by simp) hfits (hplaces ▸ a.scale_le)
      rw [List.append_nil, hplaces] at htail
      simp [readDigits?, hpoint, htail, hmagnitude]
  obtain ⟨first, rest, rfl⟩ := List.exists_cons_of_ne_nil hne
  exact ⟨first, _, hwhole first List.mem_cons_self, hchars, hread⟩

theorem splitSign_append (a : Decimal) {first : Char} (h : first.isDigit = true)
    (rest : List Char) :
    splitSign (a.signChars ++ first :: rest) = (a.negative, first :: rest) := by
  unfold signChars
  cases a.negative with
  | true => rfl
  | false =>
    unfold splitSign
    split
    · next heq =>
      rw [(List.cons.inj heq).1] at h
      cases h
    · next heq =>
      rw [(List.cons.inj heq).1] at h
      cases h
    · rfl

theorem ofChars?_toChars (a : Decimal) : ofChars? a.toChars = some a.plain := by
  obtain ⟨first, rest, hfirst, hchars, hread⟩ := readDigits?_toChars a
  unfold ofChars?
  rw [hchars, splitSign_append a hfirst]
  dsimp only
  rw [hread]
  apply ofParts?_eq_some_iff.mpr
  refine ⟨coefficient_plain a, rfl, ?_⟩
  intro hzero
  have hzero : a.isZero = true := decide_eq_true hzero
  simp [plain, hzero]

theorem ofAmount?_toText (a : Decimal) : ofAmount? a.toText = some a.plain := by
  have htext : ofText? a.toText = some a.plain := by
    rw [ofText?, toText, String.toList_ofList]
    exact ofChars?_toChars a
  rw [ofAmount?, htext]

theorem ofJson?_toJson (a : Decimal) : ofJson? a.toJson = some a.plain := ofAmount?_toText a

end Payroll.Decimal
