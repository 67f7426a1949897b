import Payroll.Proofs.Decimal.Shortest
import Payroll.Proofs.Formula.Keys
import Payroll.Proofs.Formula.Meaning

/-!
# Likeness

Parameters in two scopes are alike if they agree in all that a key spells: what kind they are, their
names, identifiers and operators, and which values literals have and names stand for. Alike
parameters have the same parts in a key, and their values are equal.
-/

set_option autoImplicit false

namespace Payroll

open Decimal

/-- Both are literals, or references, or apply one operator. -/
inductive Operation.SameKind : Operation → Operation → Prop
  | literal {v w : Decimal} : SameKind (.literal v) (.literal w)
  | reference {name name' : String} : SameKind (.reference name) (.reference name')
  | apply {op : Operator} {ps ps' : List Parameter} : SameKind (.apply op ps) (.apply op ps')

theorem Operation.SameKind.kindOf_eq {o o' : Operation} (h : o.SameKind o') :
    Trace.kindOf o = Trace.kindOf o' := by
  cases h <;> rfl

/-- The parameters of two lists, each list in a scope of its own, match position by position: both
are literals of equal value, or references by one name that stands for equal values, or steps with
one identifier, whose operations are of one kind and have operands that match in turn. -/
inductive Alike (s t : Scope) : List Parameter → List Parameter → Prop
  | nil : Alike s t [] []
  | literal {v w : Decimal} {rest rest' : List Parameter} : v.value = w.value →
      Alike s t rest rest' → Alike s t (.literal v :: rest) (.literal w :: rest')
  | reference {name : String} {v w : Decimal} {rest rest' : List Parameter} :
      s.resolve name = .ok v → t.resolve name = .ok w → v.value = w.value →
      Alike s t rest rest' → Alike s t (.reference name :: rest) (.reference name :: rest')
  | step {heading heading' : Heading} {o o' : Operation} {rest rest' : List Parameter} :
      heading.id = heading'.id → o.SameKind o' → Alike s t o.operands o'.operands →
      Alike s t rest rest' → Alike s t (.step heading o :: rest) (.step heading' o' :: rest')

section
variable {s t : Scope}

theorem Key.literal_congr {v w : Decimal} (h : v.value = w.value) :
    Key.literal v = Key.literal w := by
  unfold Key.literal
  rw [normalize_congr h]

theorem Key.reference_congr (name : String) {v w : Decimal} (h : v.value = w.value) :
    Key.reference name v = Key.reference name w := by
  unfold Key.reference
  rw [normalize_congr h]

theorem Alike.map_keyParts {ps ps' : List Parameter} (h : Alike s t ps ps') :
    ∀ {d e : ℕ} {parts parts' : List (Option String × Option KeyTree)},
      keyParts s d ps = .ok parts → keyParts t e ps' = .ok parts' →
        parts.map Prod.fst = parts'.map Prod.fst := by
  induction h with
  | nil =>
    intro d e parts parts' hps hps'
    cases hps
    cases hps'
    rfl
  | literal hvalue _ ih =>
    intro d e parts parts' hps hps'
    obtain ⟨part, rest, hpart, hrest, rfl⟩ := keyParts_cons_eq_ok hps
    obtain ⟨part', rest', hpart', hrest', rfl⟩ := keyParts_cons_eq_ok hps'
    cases hpart
    cases hpart'
    rw [List.map_cons, List.map_cons, ih hrest hrest', Key.literal_congr hvalue]
  | @reference name v w _ _ hv hw hvalue _ ih =>
    intro d e parts parts' hps hps'
    obtain ⟨part, rest, hpart, hrest, rfl⟩ := keyParts_cons_eq_ok hps
    obtain ⟨part', rest', hpart', hrest', rfl⟩ := keyParts_cons_eq_ok hps'
    rw [Parameter.keyPart_reference, hv] at hpart
    rw [Parameter.keyPart_reference, hw] at hpart'
    cases hpart
    cases hpart'
    rw [List.map_cons, List.map_cons, ih hrest hrest', Key.reference_congr name hvalue]
  | @step heading heading' o o' _ _ hid hkind _ _ ihoperands ih =>
    intro d e parts parts' hps hps'
    obtain ⟨part, rest, hpart, hrest, rfl⟩ := keyParts_cons_eq_ok hps
    obtain ⟨part', rest', hpart', hrest', rfl⟩ := keyParts_cons_eq_ok hps'
    obtain ⟨inner, hinner, hkey⟩ := keyPart_step_eq_ok hpart
    obtain ⟨inner', hinner', hkey'⟩ := keyPart_step_eq_ok hpart'
    rw [List.map_cons, List.map_cons, ih hrest hrest', hkey, hkey', hid, hkind.kindOf_eq,
      ihoperands hinner hinner']

/-- Where the first parameters have values, the second ones have equal values. -/
def Carries (s t : Scope) (ps ps' : List Parameter) : Prop :=
  ∀ vs, valuesOf s ps = .ok vs → ∃ ws, valuesOf t ps' = .ok ws ∧ Operator.SameValues vs ws

theorem Carries.cons {p p' : Parameter} {rest rest' : List Parameter}
    (hp : ∀ v, p.value s = .ok v → ∃ w, p'.value t = .ok w ∧ w.value = v.value)
    (hrest : Carries s t rest rest') : Carries s t (p :: rest) (p' :: rest') := by
  intro vs h
  rw [valuesOf] at h
  obtain ⟨v, hv, h⟩ := bind_eq_ok h
  obtain ⟨vs', hvs', h⟩ := bind_eq_ok h
  cases h
  obtain ⟨w, hw, hvalue⟩ := hp v hv
  obtain ⟨ws, hws, hsame⟩ := hrest vs' hvs'
  refine ⟨w :: ws, ?_, .cons hvalue.symm hsame⟩
  rw [valuesOf, hw, hws]
  rfl

theorem Carries.value_of_singleton {p q : Parameter} (h : Carries s t [p] [q]) {v : Decimal}
    (hv : p.value s = .ok v) : ∃ w, q.value t = .ok w ∧ w.value = v.value := by
  have hvs : valuesOf s [p] = .ok [v] := by
    rw [valuesOf, hv]
    rfl
  obtain ⟨ws, hws, hsame⟩ := h [v] hvs
  rw [valuesOf] at hws
  obtain ⟨w, hw, hws⟩ := bind_eq_ok hws
  cases hws
  cases hsame with
  | cons hvw _ => exact ⟨w, hw, hvw.symm⟩

theorem Carries.value_apply {op : Operator} {ps ps' : List Parameter} (h : Carries s t ps ps')
    {v : Decimal} (hv : (Operation.apply op ps).value s = .ok v) :
    ∃ w, (Operation.apply op ps').value t = .ok w ∧ w.value = v.value := by
  obtain ⟨hcount, vs, hvs, happly⟩ := value_apply_eq_ok hv
  obtain ⟨ws, hws, hsame⟩ := h vs hvs
  obtain ⟨w, hw, hvalue⟩ :=
    exists_ok_of_map_eq (Operator.map_applyTo_congr op s.stepId hsame) happly
  have hlength : ps.length = ps'.length := by
    rw [← length_of_valuesOf hvs, ← length_of_valuesOf hws, hsame.length_eq]
  refine ⟨w, ?_, hvalue⟩
  rw [Operation.value, ← hlength, hcount, hws]
  exact Operator.applyTo_ok_of_ok hw t.stepId

theorem Carries.value_of_sameKind {o o' : Operation} (h : Carries s t o.operands o'.operands)
    (hkind : o.SameKind o') {v : Decimal} (hv : o.value s = .ok v) :
    ∃ w, o'.value t = .ok w ∧ w.value = v.value := by
  cases hkind with
  | @literal a b => exact h.value_of_singleton (p := .literal a) (q := .literal b) hv
  | @reference name name' =>
    rw [Operation.value] at hv
    exact h.value_of_singleton (p := .reference name) (q := .reference name') hv
  | apply => exact h.value_apply hv

theorem Alike.carries {ps ps' : List Parameter} (h : Alike s t ps ps') : Carries s t ps ps' := by
  induction h with
  | nil => exact fun vs hvs => ⟨vs, hvs, List.forall₂_same.mpr fun _ _ => rfl⟩
  | @literal v w _ _ hvalue _ ih =>
    refine ih.cons fun u hu => ?_
    cases hu
    exact ⟨w, rfl, hvalue.symm⟩
  | @reference name v w _ _ hv hw hvalue _ ih =>
    refine ih.cons fun u hu => ⟨w, ?_, ?_⟩
    · rw [Parameter.value, hw]
      rfl
    · rw [Parameter.value, hv] at hu
      cases hu
      exact hvalue.symm
  | step _ hkind _ _ ihoperands ih =>
    refine ih.cons fun v hv => ?_
    rw [Parameter.value] at hv ⊢
    exact ihoperands.value_of_sameKind hkind hv

end

end Payroll
