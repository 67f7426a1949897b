import Payroll.Formula.Json
import Payroll.Proofs.Decimal.Readback
import Payroll.Proofs.Json.Record

/-!
# Formulas in storage

A formula that was read can be written and read again. Literals and references share the form of a
string, so this takes that amounts are written as texts that read as amounts, and that no text of a
reference does. An operator is stored by its tag: one that has two is written with the one and read
from either.
-/

set_option autoImplicit false

namespace Payroll

def Decimal.Equal (a b : Decimal) : Prop := a.value = b.value ∧ a.scale = b.scale

mutual
def Operation.Equal : Operation → Operation → Prop
  | .literal a, .literal b => a.Equal b
  | .reference name, .reference name' => name = name'
  | .apply operator parameters, .apply operator' parameters' =>
    operator = operator' ∧ AllEqual parameters parameters'
  | _, _ => False
def Parameter.Equal : Parameter → Parameter → Prop
  | .literal a, .literal b => a.Equal b
  | .reference name, .reference name' => name = name'
  | .step heading operation, .step heading' operation' =>
    heading = heading' ∧ operation.Equal operation'
  | _, _ => False
def AllEqual : List Parameter → List Parameter → Prop
  | [], [] => True
  | p :: ps, q :: qs => p.Equal q ∧ AllEqual ps qs
  | _, _ => False
end

structure Variable.Equal (v w : Variable) : Prop where
  name : v.name = w.name
  description : v.description = w.description
  default : v.default.Equal w.default
  source : v.source = w.source

structure Step.Equal (s t : Step) : Prop where
  heading : s.toHeading = t.toHeading
  operation : s.operation.Equal t.operation

structure Formula.Equal (f g : Formula) : Prop where
  declared : f.declared.Forall₂ Variable.Equal g.declared
  steps : f.steps.Forall₂ Step.Equal g.steps
  output : f.output = g.output

theorem Decimal.plain_equal (a : Decimal) : a.plain.Equal a := ⟨value_plain a, scale_plain a⟩

theorem Operator.eq_of_ofTag_eq_unsupported {tag tag' : String}
    (h : ofTag tag = unsupported tag') : tag' = tag := by
  unfold ofTag at h
  split at h <;> cases h
  rfl

/-- The tag that an operator is written with stands for it, also if it was read from another. -/
theorem Operator.ofTag_tag_ofTag (tag : String) : ofTag (ofTag tag).tag = ofTag tag := by
  cases h : ofTag tag with
  | unsupported tag' =>
    obtain rfl := eq_of_ofTag_eq_unsupported h
    exact h
  | _ => rfl

mutual
/-- References do not read as amounts, and operators are those that their tags stand for. -/
def Operation.Legible : Operation → Prop
  | .literal _ => True
  | .reference name => Decimal.ofAmount? name = none
  | .apply operator parameters =>
    Operator.ofTag operator.tag = operator ∧ AllLegible parameters
def Parameter.Legible : Parameter → Prop
  | .literal _ => True
  | .reference name => Decimal.ofAmount? name = none
  | .step _ operation => operation.Legible
def AllLegible : List Parameter → Prop
  | [] => True
  | p :: rest => p.Legible ∧ AllLegible rest
end

theorem allLegible_of_forall {ps : List Parameter} (h : ∀ p ∈ ps, p.Legible) : AllLegible ps := by
  induction ps with
  | nil => trivial
  | cons p rest ih =>
    obtain ⟨hp, hrest⟩ := List.forall_mem_cons.mp h
    exact ⟨hp, ih hrest⟩

section
variable {depth : ℕ} {j : Json}

theorem Operation.legible_of_ofJsonWithin?_succ {o : Operation}
    (hparameter : ∀ j p, Parameter.ofJsonWithin? depth j = some p → p.Legible)
    (h : ofJsonWithin? (depth + 1) j = some o) : o.Legible := by
  unfold ofJsonWithin? at h
  split at h
  · cases h
    trivial
  · next hamount =>
    split at h
    · cases h
      exact hamount
    · obtain ⟨row, -, h⟩ := Option.bind_eq_some_iff.mp h
      obtain ⟨tag, -, h⟩ := Option.bind_eq_some_iff.mp h
      obtain ⟨parameters, hparameters, h⟩ := Option.bind_eq_some_iff.mp h
      cases h
      refine ⟨Operator.ofTag_tag_ofTag tag, allLegible_of_forall ?_⟩
      rcases Json.Row.exists_of_default? hparameters with rfl | ⟨j', hj'⟩
      · exact List.forall_mem_nil _
      · intro p hp
        obtain ⟨item, hitem⟩ := Json.exists_of_list? hj' p hp
        exact hparameter item p hitem

theorem Parameter.legible_of_ofJsonWithin?_succ {p : Parameter}
    (hoperation : ∀ j o, Operation.ofJsonWithin? depth j = some o → o.Legible)
    (h : ofJsonWithin? (depth + 1) j = some p) : p.Legible := by
  unfold ofJsonWithin? at h
  split at h
  · cases h
    trivial
  · next hamount =>
    split at h
    · cases h
      exact hamount
    · obtain ⟨row, -, h⟩ := Option.bind_eq_some_iff.mp h
      obtain ⟨heading, -, h⟩ := Option.bind_eq_some_iff.mp h
      obtain ⟨operation, hread, h⟩ := Option.bind_eq_some_iff.mp h
      cases h
      obtain ⟨j', hj'⟩ := Json.Row.exists_of_required? hread
      exact hoperation j' operation hj'

end

theorem legible_of_ofJsonWithin? (depth : ℕ) :
    (∀ j o, Operation.ofJsonWithin? depth j = some o → o.Legible) ∧
      ∀ j p, Parameter.ofJsonWithin? depth j = some p → p.Legible := by
  induction depth with
  | zero => exact ⟨nofun, nofun⟩
  | succ depth ih =>
    obtain ⟨hoperation, hparameter⟩ := ih
    exact ⟨fun _ _ => Operation.legible_of_ofJsonWithin?_succ hparameter,
      fun _ _ => Parameter.legible_of_ofJsonWithin?_succ hoperation⟩

theorem Formula.legible_of_ofJson? {j : Json} {f : Formula} (h : ofJson? j = some f) :
    ∀ s ∈ f.steps, s.operation.Legible := by
  obtain ⟨row, -, h⟩ := Option.bind_eq_some_iff.mp h
  obtain ⟨declared, -, h⟩ := Option.bind_eq_some_iff.mp h
  obtain ⟨steps, hsteps, h⟩ := Option.bind_eq_some_iff.mp h
  obtain ⟨output, -, h⟩ := Option.bind_eq_some_iff.mp h
  cases h
  rcases Json.Row.exists_of_default? hsteps with rfl | ⟨j', hj'⟩
  · exact List.forall_mem_nil _
  · intro s hs
    obtain ⟨item, hitem⟩ := Json.exists_of_list? hj' s hs
    obtain ⟨row, -, hitem⟩ := Option.bind_eq_some_iff.mp hitem
    obtain ⟨heading, -, hitem⟩ := Option.bind_eq_some_iff.mp hitem
    obtain ⟨operation, hread, hitem⟩ := Option.bind_eq_some_iff.mp hitem
    cases hitem
    obtain ⟨j'', hj''⟩ := Json.Row.exists_of_required? hread
    exact (legible_of_ofJsonWithin? _).1 j'' operation hj''

theorem Source.ofJson?_toJson (s : Source) : ofJson? s.toJson = some s := by
  cases s <;> rfl

theorem Heading.ofRow?_fields (h : Heading) (operation : Json) :
    ofRow? (.named (h.fields operation)) = some h := by
  obtain ⟨id, name, description, result⟩ := h
  cases description <;> rfl

theorem Heading.required?_fields {α : Type} (h : Heading) (operation : Json)
    (decode : Json → Option α) :
    (Json.Row.named (h.fields operation)).required? 3 ["operation"] decode = decode operation := by
  obtain ⟨id, name, description, result⟩ := h
  cases description <;> rfl

theorem Heading.height_lt (h : Heading) (operation : Json) :
    operation.height < (Json.object (h.fields operation)).height := by
  obtain ⟨id, name, description, result⟩ := h
  cases description <;> simp [fields, Json.height, Json.heightOfFields]

mutual
theorem Operation.exists_ofJsonWithin? : (o : Operation) → o.Legible → (depth : ℕ) →
    o.toJson.height ≤ depth →
      ∃ o', Operation.ofJsonWithin? (depth + 1) o.toJson = some o' ∧ o'.Equal o
  | .literal value, _, depth, _ => by
    refine ⟨.literal value.plain, ?_, value.plain_equal⟩
    unfold Operation.ofJsonWithin? Operation.toJson
    rw [Decimal.ofJson?_toJson]
  | .reference name, ho, depth, _ => by
    refine ⟨.reference name, ?_, rfl⟩
    have hamount : Decimal.ofJson? (.string name) = none := ho
    unfold Operation.ofJsonWithin? Operation.toJson
    rw [hamount]
  | .apply operator parameters, ⟨htag, hparameters⟩, depth, hdepth => by
    -- Parameters stand two levels below their operator, and are read with one level less.
    simp only [Operation.toJson, Json.height, Json.heightOfFields] at hdepth
    obtain ⟨depth, rfl⟩ := Nat.exists_eq_add_one_of_ne_zero (by omega : depth ≠ 0)
    obtain ⟨ps, hps, hequal⟩ :=
      exists_mapM_jsonOfParameters parameters hparameters depth (by omega)
    refine ⟨.apply operator ps, ?_, rfl, hequal⟩
    unfold Operation.ofJsonWithin? Operation.toJson
    change (Option.bind ((jsonOfParameters parameters).mapM (Parameter.ofJsonWithin? (depth + 1)))
      fun ps => some (Operation.apply (Operator.ofTag operator.tag) ps)) = _
    rw [hps, htag]
    rfl
theorem Parameter.exists_ofJsonWithin? : (p : Parameter) → p.Legible → (depth : ℕ) →
    p.toJson.height ≤ depth →
      ∃ p', Parameter.ofJsonWithin? (depth + 1) p.toJson = some p' ∧ p'.Equal p
  | .literal value, _, depth, _ => by
    refine ⟨.literal value.plain, ?_, value.plain_equal⟩
    unfold Parameter.ofJsonWithin? Parameter.toJson
    rw [Decimal.ofJson?_toJson]
  | .reference name, hp, depth, _ => by
    refine ⟨.reference name, ?_, rfl⟩
    have hamount : Decimal.ofJson? (.string name) = none := hp
    unfold Parameter.ofJsonWithin? Parameter.toJson
    rw [hamount]
  | .step heading operation, hp, depth, hdepth => by
    have hlt := heading.height_lt operation.toJson
    rw [Parameter.toJson] at hdepth
    obtain ⟨depth, rfl⟩ := Nat.exists_eq_add_one_of_ne_zero (by omega : depth ≠ 0)
    obtain ⟨o, ho, hequal⟩ := operation.exists_ofJsonWithin? hp depth (by omega)
    refine ⟨.step heading o, ?_, rfl, hequal⟩
    unfold Parameter.ofJsonWithin? Parameter.toJson
    change ((Heading.ofRow? (.named (heading.fields operation.toJson))).bind fun heading' =>
      ((Json.Row.named (heading.fields operation.toJson)).required? 3 ["operation"] _).bind
        fun o => some (Parameter.step heading' o)) = _
    rw [heading.ofRow?_fields, heading.required?_fields, ho]
    rfl
theorem exists_mapM_jsonOfParameters : (ps : List Parameter) → AllLegible ps → (depth : ℕ) →
    Json.heightOfItems (jsonOfParameters ps) ≤ depth →
      ∃ qs, (jsonOfParameters ps).mapM (Parameter.ofJsonWithin? (depth + 1)) = some qs ∧
        AllEqual qs ps
  | [], _, depth, _ => ⟨[], rfl, trivial⟩
  | p :: rest, ⟨hp, hrest⟩, depth, hdepth => by
    rw [jsonOfParameters, Json.heightOfItems] at hdepth
    obtain ⟨q, hq, hequal⟩ := p.exists_ofJsonWithin? hp depth (by omega)
    obtain ⟨qs, hqs, hequals⟩ := exists_mapM_jsonOfParameters rest hrest depth (by omega)
    refine ⟨q :: qs, ?_, hequal, hequals⟩
    rw [jsonOfParameters, List.mapM_cons, hq, hqs]
    rfl
end

theorem Variable.exists_ofJson? (v : Variable) :
    ∃ w, ofJson? v.toJson = some w ∧ w.Equal v := by
  refine ⟨{ v with default := v.default.plain }, ?_, rfl, rfl, v.default.plain_equal, rfl⟩
  change ((Decimal.ofJson? v.default.toJson).bind fun default =>
    (Source.ofJson? v.source.toJson).bind fun source =>
      some { v with default, source }) = _
  rw [Decimal.ofJson?_toJson, Source.ofJson?_toJson]
  rfl

theorem Step.exists_ofJson? (s : Step) (hs : s.operation.Legible) :
    ∃ t, ofJson? s.toJson = some t ∧ t.Equal s := by
  obtain ⟨o, ho, hequal⟩ := s.operation.exists_ofJsonWithin? hs _ le_rfl
  refine ⟨{ s with operation := o }, ?_, rfl, hequal⟩
  change ((Heading.ofRow? (.named (s.fields s.operation.toJson))).bind fun heading =>
    ((Json.Row.named (s.fields s.operation.toJson)).required? 3 ["operation"]
      Operation.ofJson?).bind fun operation => some ({ heading with operation } : Step)) = _
  rw [s.ofRow?_fields, s.required?_fields, Operation.ofJson?, ho]
  rfl

namespace Formula

/-- Formulas whose references and tags are legible are read as they were written. -/
theorem exists_ofJson?_toJson {f : Formula} (hf : ∀ s ∈ f.steps, s.operation.Legible) :
    ∃ g, ofJson? f.toJson = some g ∧ g.Equal f := by
  obtain ⟨declared, hdeclared, hvariables⟩ :=
    Json.exists_list?_list fun (v : Variable) (_ : v ∈ f.declared) => v.exists_ofJson?
  obtain ⟨steps, hsteps, hequal⟩ :=
    Json.exists_list?_list fun (s : Step) (hs : s ∈ f.steps) => s.exists_ofJson? (hf s hs)
  refine ⟨{ declared, steps, output := f.output }, ?_, hvariables, hequal, rfl⟩
  change ((Json.list? Variable.ofJson? (.list Variable.toJson f.declared)).bind fun declared =>
    (Json.list? Step.ofJson? (.list Step.toJson f.steps)).bind fun steps =>
      some ({ declared, steps, output := f.output } : Formula)) = _
  rw [hdeclared, hsteps]
  rfl

/-- A formula that was read survives storage: written and read again it is an equal formula, and so
is the formula of a plan that holds it. -/
theorem survives_storage {j : Json} {f : Formula} (h : ofJson? j = some f) :
    ∃ g, g.Equal f ∧ ofJson? f.toJson = some g ∧
      ∀ plan : Plan,
        plan.config = f.toJson ∨ plan.config.field? "formula" = some f.toJson →
          ofPlan plan = .ok g := by
  obtain ⟨g, hg, hequal⟩ := exists_ofJson?_toJson (legible_of_ofJson? h)
  refine ⟨g, hequal, hg, ?_⟩
  rintro plan (hconfig | hconfig)
  · have hbare : plan.config.field? "formula" = none := by
      rw [hconfig]
      rfl
    rw [ofPlan, hbare, Option.getD_none, hconfig, hg]
  · rw [ofPlan, hconfig, Option.getD_some, hg]

def bonusConfig : Json :=
  .object
    [("steps", .array
      [.object
        [("operation", .object
          [("type", .string "conditional"),
            ("parameters", .array
              [.object [("id", .string "s1"), ("operation", .string "salesAmount")],
                .natural 100, .string "-0.50"])]),
          ("result", .string "bonus")]]),
      ("outputVariable", .string "bonus")]

theorem survives_storage_bonusConfig :
    ∃ f g, ofJson? bonusConfig = some f ∧ g.Equal f ∧ ofJson? f.toJson = some g ∧
      ofPlan
        { id := "p1", type := "formula", name := "Bonus"
          config := .object [("formula", f.toJson)] } = .ok g := by
  have hread : (ofJson? bonusConfig).isSome = true := by decide +kernel
  obtain ⟨f, hf⟩ := Option.isSome_iff_exists.mp hread
  obtain ⟨g, hequal, hg, hplan⟩ := survives_storage hf
  exact ⟨f, g, hf, hequal, hg, hplan _ (.inr rfl)⟩

end Formula

end Payroll
