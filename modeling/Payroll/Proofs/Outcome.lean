import Payroll.Error

/-!
# Outcomes

What follows from how a computation ended for the computations it was made of. Two outcomes agree
under a function when they are equal once it is applied to what they answer.
-/

set_option autoImplicit false

namespace Payroll

section
variable {ε α β : Type}

theorem bind_eq_ok {x : Except ε α} {k : α → Except ε β} {b : β} (h : x >>= k = .ok b) :
    ∃ a, x = .ok a ∧ k a = .ok b := by
  cases x with
  | error e => cases h
  | ok a => exact ⟨a, rfl, h⟩

theorem bind_eq_error {x : Except ε α} {k : α → Except ε β} {e : ε} (h : x >>= k = .error e) :
    x = .error e ∨ ∃ a, x = .ok a ∧ k a = .error e := by
  cases x with
  | error e' =>
    cases h
    exact .inl rfl
  | ok a => exact .inr ⟨a, rfl, h⟩

variable {f : α → β}

theorem exists_ok_of_map_eq {x y : Except ε α} (h : x.map f = y.map f) {a : α} (hx : x = .ok a) :
    ∃ b, y = .ok b ∧ f b = f a := by
  subst hx
  cases y with
  | error e => cases h
  | ok b => exact ⟨b, rfl, (Except.ok.inj h).symm⟩

theorem eq_error_of_map_eq {x y : Except ε α} (h : x.map f = y.map f) {e : ε} (hx : x = .error e) :
    y = .error e := by
  subst hx
  cases y with
  | error e' => exact congrArg Except.error (Except.error.inj h).symm
  | ok b => cases h

theorem map_eq_error {x : Except ε α} {e : ε} : x.map f = .error e ↔ x = .error e := by
  cases x with
  | error e' =>
    exact ⟨fun h => congrArg _ (Except.error.inj h), fun h => congrArg _ (Except.error.inj h)⟩
  | ok a => exact iff_of_false nofun nofun

theorem exists_map_eq_ok {x : Except ε α} : (∃ b, x.map f = .ok b) ↔ ∃ a, x = .ok a := by
  cases x with
  | error e => exact iff_of_false nofun nofun
  | ok a => exact iff_of_true ⟨f a, rfl⟩ ⟨a, rfl⟩

theorem exists_ok_of_toOption_map {x : Except ε α} {b : β} (h : x.toOption.map f = some b) :
    ∃ a, x = .ok a ∧ f a = b := by
  cases x with
  | error e => cases h
  | ok a => exact ⟨a, rfl, Option.some.inj h⟩

/-- Agreement of two computations, and of what follows from what they answer. -/
theorem map_bind_congr {γ δ : Type} {x y : Except ε α} {k l : α → Except ε γ} {g : γ → δ}
    (h : x.map f = y.map f) (hk : ∀ a b, f a = f b → (k a).map g = (l b).map g) :
    (x >>= k).map g = (y >>= l).map g := by
  cases hx : x with
  | error e =>
    rw [eq_error_of_map_eq h hx]
    rfl
  | ok a =>
    obtain ⟨b, hy, hb⟩ := exists_ok_of_map_eq h hx
    rw [hy]
    exact hk a b hb.symm

theorem map_bind_congr_right {γ δ : Type} {x : Except ε α} {k l : α → Except ε γ} {g : γ → δ}
    (hk : ∀ a, (k a).map g = (l a).map g) : (x >>= k).map g = (x >>= l).map g := by
  cases x with
  | error e => rfl
  | ok a => exact hk a

theorem cases_of_map_eq_option {x y : Option α} (h : x.map f = y.map f) :
    (x = none ∧ y = none) ∨ ∃ a b, x = some a ∧ y = some b ∧ f a = f b := by
  cases x with
  | none => exact .inl ⟨rfl, Option.map_eq_none_iff.mp h.symm⟩
  | some a =>
    obtain ⟨b, rfl, hb⟩ := Option.map_eq_some_iff.mp h.symm
    exact .inr ⟨a, b, rfl, rfl, hb.symm⟩

theorem map_bind_congr_option {γ δ : Type} {x y : Option α} {k l : α → Option γ} {g : γ → δ}
    (h : x.map f = y.map f) (hk : ∀ a b, f a = f b → (k a).map g = (l b).map g) :
    (x >>= k).map g = (y >>= l).map g := by
  rcases cases_of_map_eq_option h with ⟨rfl, rfl⟩ | ⟨a, b, rfl, rfl, hab⟩
  · rfl
  · exact hk a b hab

end

theorem Halt.ofError_eq_ok {α : Type} {x : Except PayError α} {a : α} :
    ofError x = .ok a ↔ x = .ok a := by
  cases x with
  | error e => exact iff_of_false nofun nofun
  | ok b => exact ⟨fun h => congrArg _ (Except.ok.inj h), fun h => congrArg _ (Except.ok.inj h)⟩

theorem Halt.guarded_eq_ok {α : Type} {context : String} {x : Option α} {a : α} :
    guarded context x = .ok a ↔ x = some a := by
  cases x with
  | none => exact iff_of_false nofun nofun
  | some b => exact ⟨fun h => congrArg _ (Except.ok.inj h), fun h => congrArg _ (Option.some.inj h)⟩

theorem Halt.unguarded_eq_ok {α : Type} {cause : Abort} {x : Option α} {a : α} :
    unguarded cause x = .ok a ↔ x = some a := by
  cases x with
  | none => exact iff_of_false nofun nofun
  | some b => exact ⟨fun h => congrArg _ (Except.ok.inj h), fun h => congrArg _ (Option.some.inj h)⟩

section
variable {α β : Type} (f : α → β)

theorem Halt.map_ofError (x : Except PayError α) : (ofError x).map f = ofError (x.map f) := by
  cases x <;> rfl

variable {f} {x y : Option α} (h : x.map f = y.map f)
include h

theorem Halt.map_guarded_congr (context : String) :
    (guarded context x).map f = (guarded context y).map f := by
  rcases cases_of_map_eq_option h with ⟨rfl, rfl⟩ | ⟨a, b, rfl, rfl, hab⟩
  · rfl
  · exact congrArg Except.ok hab

theorem Halt.map_unguarded_congr (cause : Abort) :
    (unguarded cause x).map f = (unguarded cause y).map f := by
  rcases cases_of_map_eq_option h with ⟨rfl, rfl⟩ | ⟨a, b, rfl, rfl, hab⟩
  · rfl
  · exact congrArg Except.ok hab

end

section
variable {α β : Type}

def Unaborted (x : Except Halt α) : Prop := ∀ cause, x ≠ .error (.abort cause)

theorem unaborted_ok (a : α) : Unaborted (.ok a) := nofun

theorem Unaborted.bind {x : Except Halt α} {k : α → Except Halt β} (hx : Unaborted x)
    (hk : ∀ a, x = .ok a → Unaborted (k a)) : Unaborted (x >>= k) := by
  intro cause h
  rcases bind_eq_error h with h | ⟨a, ha, h⟩
  · exact hx cause h
  · exact hk a ha cause h

theorem unaborted_bind {x : Except Halt α} {k : α → Except Halt β} :
    Unaborted (x >>= k) ↔ Unaborted x ∧ ∀ a, x = .ok a → Unaborted (k a) := by
  constructor
  · intro h
    constructor
    · rintro cause rfl
      exact h cause rfl
    · rintro a rfl
      exact h
  · rintro ⟨hx, hk⟩
    exact hx.bind hk

/-- Nothing but the rest can abort. -/
theorem unaborted_bind_of_ok {x : Except Halt α} {k : α → Except Halt β} {a : α} (hx : x = .ok a) :
    Unaborted (x >>= k) ↔ Unaborted (k a) := by
  subst hx
  rfl

namespace Halt

theorem unaborted_ofError (x : Except PayError α) : Unaborted (ofError x) := by
  intro cause h
  cases x <;> cases h

theorem unaborted_guarded (context : String) (x : Option α) : Unaborted (guarded context x) :=
  unaborted_ofError _

theorem unaborted_unguarded {cause : Abort} {x : Option α} :
    Unaborted (unguarded cause x) ↔ x ≠ none := by
  cases x with
  | none => exact iff_of_false (fun h => h cause rfl) fun h => h rfl
  | some a => exact iff_of_true (unaborted_ok a) nofun

end Halt

end

end Payroll
