import Mathlib.Data.List.Forall2
import Payroll.Json.Record

/-!
# Reading records and lists

A field is given once, under one of its spellings or at its place, or it is left out; what is read
of it follows from that. Lists are read item by item.
-/

set_option autoImplicit false

namespace Payroll.Json

namespace Row

variable {α : Type} {row : Row} {index : ℕ} {spellings : List String} {decode : Json → Option α}

/-- The field is given, under one spelling and once, with a value of which `P` holds. -/
def Gives (row : Row) (index : ℕ) (spellings : List String) (P : Json → Prop) : Prop :=
  match row with
  | named fields =>
    ∃ before key value after, fields = before ++ (key, value) :: after ∧ key ∈ spellings ∧
      P value ∧ ∀ field ∈ before ++ after, field.1 ∉ spellings
  | listed items => ∃ value, items[index]? = some value ∧ P value

def Omits (row : Row) (index : ℕ) (spellings : List String) : Prop :=
  match row with
  | named fields => ∀ field ∈ fields, field.1 ∉ spellings
  | listed items => items.length ≤ index

theorem filter_eq_nil_iff {fields : List (String × Json)} :
    fields.filter (fun field => spellings.contains field.1) = [] ↔
      ∀ field ∈ fields, field.1 ∉ spellings := by
  simp

theorem gives_iff {P : Json → Prop} :
    row.Gives index spellings P ↔
      ∃ value, row.cell? index spellings = some (.given value) ∧ P value := by
  cases row with
  | named fields =>
    constructor
    · rintro ⟨before, key, value, after, rfl, hkey, hvalue, hrest⟩
      refine ⟨value, ?_, hvalue⟩
      have hbefore := filter_eq_nil_iff.mpr fun field h => hrest field (List.mem_append_left _ h)
      have hafter := filter_eq_nil_iff.mpr fun field h => hrest field (List.mem_append_right _ h)
      rw [cell?, List.filter_append, hbefore, List.filter_cons_of_pos (by simpa using hkey), hafter]
      rfl
    · rintro ⟨value, hcell, hvalue⟩
      rw [cell?] at hcell
      split at hcell
      · cases hcell
      · next field hfilter =>
        cases hcell
        obtain ⟨before, after, rfl, hbefore, hkey, hafter⟩ := List.filter_eq_cons_iff.mp hfilter
        refine ⟨before, field.1, field.2, after, rfl, by simpa using hkey, hvalue, ?_⟩
        intro other hother
        rcases List.mem_append.mp hother with hother | hother
        · simpa using hbefore other hother
        · exact filter_eq_nil_iff.mp hafter other hother
      · cases hcell
  | listed items =>
    cases h : items[index]? with
    | none => simp [Gives, cell?, h]
    | some value => simp [Gives, cell?, h]

theorem omits_iff :
    row.Omits index spellings ↔
      row.cell? index spellings = some .unnamed ∨ row.cell? index spellings = some .cut := by
  cases row with
  | named fields =>
    change (∀ field ∈ fields, field.1 ∉ spellings) ↔ _
    rw [← filter_eq_nil_iff, cell?]
    generalize fields.filter (fun field => spellings.contains field.1) = found
    rcases found with - | ⟨field, - | _⟩ <;> simp
  | listed items =>
    simp only [Omits, cell?, ← List.getElem?_eq_none_iff]
    cases items[index]? <;> simp

theorem Gives.not_omits {P : Json → Prop} (h : row.Gives index spellings P) :
    ¬row.Omits index spellings := by
  obtain ⟨value, hcell, -⟩ := gives_iff.mp h
  rw [omits_iff, hcell]
  simp

theorem required?_eq_some_iff {a : α} :
    row.required? index spellings decode = some a ↔
      row.Gives index spellings (decode · = some a) := by
  rw [required?, gives_iff]
  rcases row.cell? index spellings with - | ⟨value⟩ | - | - <;> simp

theorem default?_eq_some_iff {absent a : α} :
    row.default? index spellings absent decode = some a ↔
      row.Gives index spellings (decode · = some a) ∨ row.Omits index spellings ∧ a = absent := by
  rw [default?, gives_iff, omits_iff]
  rcases row.cell? index spellings with - | ⟨value⟩ | - | - <;> simp [eq_comm]

theorem lookup_eq_none_iff {fields : List (String × Json)} {key : String} :
    fields.lookup key = none ↔ (named fields).Omits 0 [key] := by
  rw [List.lookup_eq_none_iff]
  apply forall₂_congr
  intro field _
  rw [List.mem_singleton, bne_iff_ne, ne_comm]

theorem exists_of_required? {a : α} (h : row.required? index spellings decode = some a) :
    ∃ value, decode value = some a := by
  obtain ⟨value, -, hvalue⟩ := gives_iff.mp (required?_eq_some_iff.mp h)
  exact ⟨value, hvalue⟩

theorem exists_of_default? {absent a : α}
    (h : row.default? index spellings absent decode = some a) :
    a = absent ∨ ∃ value, decode value = some a := by
  rcases default?_eq_some_iff.mp h with hgiven | ⟨-, habsent⟩
  · obtain ⟨value, -, hvalue⟩ := gives_iff.mp hgiven
    exact .inr ⟨value, hvalue⟩
  · exact .inl habsent

/-- The rows differ in one field that both give, where their values are related by `R`. -/
inductive Changes (index : ℕ) (spellings : List String) (R : Json → Json → Prop) : Row → Row → Prop
  | named (before after : List (String × Json)) {key : String} {x y : Json}
    (hkey : key ∈ spellings) (h : R x y) :
    Changes index spellings R (.named (before ++ (key, x) :: after))
      (.named (before ++ (key, y) :: after))
  | listed {items : List Json} {x y : Json} (hx : items[index]? = some x) (h : R x y) :
    Changes index spellings R (.listed items) (.listed (items.set index y))

namespace Changes

variable {row' : Row} {R : Json → Json → Prop}

/-- In the field itself are related values, unless it is given twice. -/
theorem cell? (h : Changes index spellings R row row') :
    (row.cell? index spellings = none ∧ row'.cell? index spellings = none) ∨
      ∃ x y, row.cell? index spellings = some (.given x) ∧
        row'.cell? index spellings = some (.given y) ∧ R x y := by
  cases h with
  | @named before after key x y hkey h =>
    have hfilter (value : Json) : (before ++ (key, value) :: after).filter
        (fun field => spellings.contains field.1) =
          before.filter (fun field => spellings.contains field.1) ++
            (key, value) :: after.filter (fun field => spellings.contains field.1) := by
      rw [List.filter_append, List.filter_cons_of_pos (by simpa using hkey)]
    rw [Row.cell?, Row.cell?, hfilter, hfilter]
    generalize before.filter (fun field => spellings.contains field.1) = earlier
    generalize after.filter (fun field => spellings.contains field.1) = later
    rcases earlier with _ | ⟨_, _ | _⟩
    · rcases later with _ | _
      · exact .inr ⟨x, y, rfl, rfl, h⟩
      · exact .inl ⟨rfl, rfl⟩
    · exact .inl ⟨rfl, rfl⟩
    · exact .inl ⟨rfl, rfl⟩
  | @listed items x y hx h =>
    refine .inr ⟨x, y, ?_, ?_, h⟩
    · simp [Row.cell?, hx]
    · obtain ⟨hindex, -⟩ := List.getElem?_eq_some_iff.mp hx
      simp [Row.cell?, hindex]

theorem not_omits (h : Changes index spellings R row row') :
    ¬row.Omits index spellings ∧ ¬row'.Omits index spellings := by
  rcases h.cell? with ⟨hx, hy⟩ | ⟨x, y, hx, hy, -⟩
  · rw [omits_iff, omits_iff, hx, hy]
    simp
  · rw [omits_iff, omits_iff, hx, hy]
    simp

section other
variable {index' : ℕ} {spellings' : List String} (h : Changes index spellings R row row')
  (hindex : index ≠ index') (hspellings : ∀ spelling ∈ spellings, spelling ∉ spellings')
include h hindex hspellings

theorem cell?_other : row'.cell? index' spellings' = row.cell? index' spellings' := by
  cases h with
  | @named before after key x y hkey h =>
    have hkey := hspellings key hkey
    simp [Row.cell?, List.filter_append, hkey]
  | @listed items x y hx h => simp [Row.cell?, hindex]

theorem required?_other :
    row'.required? index' spellings' decode = row.required? index' spellings' decode := by
  unfold required?
  rw [h.cell?_other hindex hspellings]

theorem default?_other (absent : α) :
    row'.default? index' spellings' absent decode =
      row.default? index' spellings' absent decode := by
  unfold default?
  rw [h.cell?_other hindex hspellings]

end other

theorem fits (h : Changes index spellings R row row') (width : ℕ) :
    row'.fits width = row.fits width := by
  cases h with
  | named => rfl
  | listed => simp [Row.fits]

section
variable {β : Type} {f : α → β} (h : Changes index spellings R row row')
  (hR : ∀ x y, R x y → (decode x).map f = (decode y).map f)
include h hR

theorem map_required? : (row.required? index spellings decode).map f =
    (row'.required? index spellings decode).map f := by
  unfold required?
  rcases h.cell? with ⟨hx, hy⟩ | ⟨x, y, hx, hy, hxy⟩
  · rw [hx, hy]
  · rw [hx, hy]
    exact hR x y hxy

theorem map_default? (absent : α) : (row.default? index spellings absent decode).map f =
    (row'.default? index spellings absent decode).map f := by
  unfold default?
  rcases h.cell? with ⟨hx, hy⟩ | ⟨x, y, hx, hy, hxy⟩
  · rw [hx, hy]
  · rw [hx, hy]
    exact hR x y hxy

end

end Changes

end Row

section
variable {α β : Type} {decode : Json → Option β}

theorem mapM_eq_some_iff {items : List Json} {bs : List β} :
    items.mapM decode = some bs ↔ bs.Forall₂ (fun b item => decode item = some b) items := by
  induction items generalizing bs with
  | nil =>
    rw [List.forall₂_nil_right_iff]
    exact ⟨fun h => (Option.some.inj h).symm, fun h => congrArg some h.symm⟩
  | cons item rest ih =>
    rw [List.mapM_cons, List.forall₂_cons_right_iff]
    constructor
    · intro h
      obtain ⟨b, hb, h⟩ := Option.bind_eq_some_iff.mp h
      obtain ⟨bs', hrest, h⟩ := Option.bind_eq_some_iff.mp h
      exact ⟨b, bs', hb, ih.mp hrest, (Option.some.inj h).symm⟩
    · rintro ⟨b, bs', hb, hrest, rfl⟩
      rw [hb, ih.mpr hrest]
      rfl

theorem list?_eq_some_iff {j : Json} {bs : List β} :
    j.list? decode = some bs ↔
      ∃ items, j = .array items ∧ bs.Forall₂ (fun b item => decode item = some b) items := by
  constructor
  · intro h
    unfold list? at h
    split at h
    · exact ⟨_, rfl, mapM_eq_some_iff.mp h⟩
    · cases h
  · rintro ⟨items, rfl, h⟩
    exact mapM_eq_some_iff.mpr h

theorem exists_of_list? {j : Json} {bs : List β} (h : j.list? decode = some bs) :
    ∀ b ∈ bs, ∃ item, decode item = some b := by
  obtain ⟨items, rfl, hitems⟩ := list?_eq_some_iff.mp h
  clear h
  induction hitems with
  | nil => exact List.forall_mem_nil _
  | cons hb _ ih => exact List.forall_mem_cons.mpr ⟨⟨_, hb⟩, ih⟩

/-- A written list is read as one with related items if each item is. -/
theorem exists_list?_list {encode : α → Json} {R : β → α → Prop} {items : List α}
    (h : ∀ a ∈ items, ∃ b, decode (encode a) = some b ∧ R b a) :
    ∃ bs, list? decode (list encode items) = some bs ∧ bs.Forall₂ R items := by
  induction items with
  | nil => exact ⟨[], rfl, .nil⟩
  | cons a rest ih =>
    obtain ⟨b, hb, hba⟩ := h a List.mem_cons_self
    obtain ⟨bs, hbs, hrest⟩ := ih fun a ha => h a (List.mem_cons_of_mem _ ha)
    refine ⟨b :: bs, ?_, .cons hba hrest⟩
    change (rest.map encode).mapM decode = some bs at hbs
    change ((a :: rest).map encode).mapM decode = some (b :: bs)
    rw [List.map_cons, List.mapM_cons, hb, hbs]
    rfl

end

end Payroll.Json
