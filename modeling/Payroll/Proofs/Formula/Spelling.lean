import Payroll.Proofs.Decimal.Written
import Payroll.Proofs.Formula.Likeness

/-!
# Reading keys back

In a key every part starts behind a bar. A name ends where the first equals sign stands, an
identifier where the first parenthesis opens, a tag and an amount before a bar or a closing
parenthesis. If the texts in a formula do not contain the character that ends them, a key can be
read in one way only, and operators with one key are the same, of alike parameters.
-/

set_option autoImplicit false

namespace Payroll

open Decimal

/-- A tag that a key can hold, and that stands for this operator and for nothing else. -/
structure Operator.IsPlain (op : Operator) : Prop where
  ofTag : Operator.ofTag op.tag = op
  notLiteral : op.tag ≠ "literal"
  notReference : op.tag ≠ "reference"
  free : ∀ c ∈ op.tag.toList, c ≠ '|' ∧ c ≠ ')'

mutual
/-- An operation whose names, identifiers and tags do not contain what ends them in a key. -/
def Operation.IsPlain : Operation → Prop
  | .literal _ => True
  | .reference name => '=' ∉ name.toList
  | .apply op parameters => op.IsPlain ∧ AllPlain parameters
def Parameter.IsPlain : Parameter → Prop
  | .literal _ => True
  | .reference name => '=' ∉ name.toList
  | .step heading operation => '(' ∉ heading.id.toList ∧ operation.IsPlain
def AllPlain : List Parameter → Prop
  | [] => True
  | p :: rest => p.IsPlain ∧ AllPlain rest
end

namespace Key

def joined (strs : List String) : List Char := strs.flatMap fun str => '|' :: str.toList

theorem toList_intercalate (tag : String) (strs : List String) :
    ("|".intercalate (tag :: strs)).toList = tag.toList ++ joined strs := by
  rw [String.toList_intercalate]
  induction strs generalizing tag with
  | nil => simp [joined]
  | cons str rest ih =>
    have := ih str
    rw [List.map_cons] at this
    rw [List.map_cons, List.map_cons, List.intercalate_cons_cons, this]
    simp [joined]

theorem join?_eq_some {tag key : String} {parts : List (Option String)}
    (h : join? tag parts = some key) :
    ∃ strs, parts = strs.map some ∧ key.toList = tag.toList ++ joined strs := by
  obtain ⟨strs, hstrs, rfl⟩ := Option.map_eq_some_iff.mp h
  refine ⟨strs, ?_, toList_intercalate tag strs⟩
  clear h
  induction parts generalizing strs with
  | nil =>
    cases hstrs
    rfl
  | cons part rest ih =>
    cases part with
    | none => cases hstrs
    | some str =>
      cases hrest : rest.mapM id with
      | none =>
        rw [List.mapM_cons, hrest] at hstrs
        cases hstrs
      | some strs' =>
        rw [List.mapM_cons, hrest] at hstrs
        cases hstrs
        rw [ih strs' hrest]
        rfl

theorem step?_eq_some {id str : String} {inner : Option String} (h : step? id inner = some str) :
    ∃ key, inner = some key ∧
      str.toList = "step:".toList ++ (id.toList ++ '(' :: (key.toList ++ [')'])) := by
  unfold step? at h
  split at h
  · cases h
  · obtain ⟨key, rfl, rfl⟩ := Option.map_eq_some_iff.mp h
    exact ⟨key, rfl, by simp⟩

end Key

/-- How parameters are spelled in a scope, for plain ones. -/
inductive Spelled (s : Scope) : List Parameter → List Char → Prop
  | nil : Spelled s [] []
  | literal {v : Decimal} {rest : List Parameter} {cs : List Char} : Spelled s rest cs →
      Spelled s (.literal v :: rest) ('|' :: ("lit:".toList ++ (v.normalize.toChars ++ cs)))
  | reference {name : String} {v : Decimal} {rest : List Parameter} {cs : List Char} :
      s.resolve name = .ok v → '=' ∉ name.toList → Spelled s rest cs →
      Spelled s (.reference name :: rest)
        ('|' :: ("var:".toList ++ (name.toList ++ '=' :: (v.normalize.toChars ++ cs))))
  | step {heading : Heading} {o : Operation} {rest : List Parameter} {cs ds : List Char} :
      '(' ∉ heading.id.toList → o.IsPlain → Spelled s o.operands cs → Spelled s rest ds →
      Spelled s (.step heading o :: rest)
        ('|' :: ("step:".toList ++ (heading.id.toList ++
          '(' :: ((Trace.kindOf o).toList ++ (cs ++ ')' :: ds)))))

section
variable {s : Scope}

theorem Spelled.joined_literal {v : Decimal} {rest : List Parameter} {strs : List String}
    (h : Spelled s rest (Key.joined strs)) :
    Spelled s (.literal v :: rest) (Key.joined (Key.literal v :: strs)) := by
  have := Spelled.literal (v := v) h
  simpa [Key.joined, Key.literal, toText] using this

theorem Spelled.joined_reference {name : String} {v : Decimal} {rest : List Parameter}
    {strs : List String} (hv : s.resolve name = .ok v) (hname : '=' ∉ name.toList)
    (h : Spelled s rest (Key.joined strs)) :
    Spelled s (.reference name :: rest) (Key.joined (Key.reference name v :: strs)) := by
  have := Spelled.reference hv hname h
  simpa [Key.joined, Key.reference, toText] using this

theorem Spelled.joined_step {heading : Heading} {o : Operation} {rest : List Parameter}
    {str key : String} {inner strs : List String} (hid : '(' ∉ heading.id.toList) (ho : o.IsPlain)
    (hstr : str.toList = "step:".toList ++ (heading.id.toList ++ '(' :: (key.toList ++ [')'])))
    (hkey : key.toList = (Trace.kindOf o).toList ++ Key.joined inner)
    (hinner : Spelled s o.operands (Key.joined inner)) (h : Spelled s rest (Key.joined strs)) :
    Spelled s (.step heading o :: rest) (Key.joined (str :: strs)) := by
  have := Spelled.step hid ho hinner h
  rw [Key.joined, List.flatMap_cons, hstr, hkey]
  simpa [Key.joined] using this

theorem keyParts_cons_spelled {depth : ℕ} {p : Parameter} {rest : List Parameter}
    {parts : List (Option String × Option KeyTree)} {strs : List String}
    (hparts : keyParts s depth (p :: rest) = .ok parts)
    (hstrs : parts.map Prod.fst = strs.map some) :
    ∃ part str parts' strs', p.keyPart s depth = .ok part ∧ part.1 = some str ∧
      keyParts s depth rest = .ok parts' ∧ parts'.map Prod.fst = strs'.map some ∧
      strs = str :: strs' := by
  obtain ⟨part, parts', hpart, hparts', rfl⟩ := keyParts_cons_eq_ok hparts
  cases strs with
  | nil => cases hstrs
  | cons str strs' =>
    obtain ⟨hstr, hstrs'⟩ := List.cons.inj hstrs
    exact ⟨part, str, parts', strs', hpart, hstr, hparts', hstrs', rfl⟩

theorem spelled_literal_cons {depth : ℕ} {v : Decimal} {rest : List Parameter}
    {parts : List (Option String × Option KeyTree)} {strs : List String}
    (hrest : ∀ parts strs, keyParts s depth rest = .ok parts →
      parts.map Prod.fst = strs.map some → Spelled s rest (Key.joined strs))
    (hparts : keyParts s depth (.literal v :: rest) = .ok parts)
    (hstrs : parts.map Prod.fst = strs.map some) :
    Spelled s (.literal v :: rest) (Key.joined strs) := by
  obtain ⟨part, str, parts', strs', hpart, hstr, hparts', hstrs', rfl⟩ :=
    keyParts_cons_spelled hparts hstrs
  cases hpart
  cases hstr
  exact (hrest parts' strs' hparts' hstrs').joined_literal

theorem spelled_reference_cons {depth : ℕ} {name : String} {rest : List Parameter}
    {parts : List (Option String × Option KeyTree)} {strs : List String}
    (hname : '=' ∉ name.toList)
    (hrest : ∀ parts strs, keyParts s depth rest = .ok parts →
      parts.map Prod.fst = strs.map some → Spelled s rest (Key.joined strs))
    (hparts : keyParts s depth (.reference name :: rest) = .ok parts)
    (hstrs : parts.map Prod.fst = strs.map some) :
    Spelled s (.reference name :: rest) (Key.joined strs) := by
  obtain ⟨part, str, parts', strs', hpart, hstr, hparts', hstrs', rfl⟩ :=
    keyParts_cons_spelled hparts hstrs
  rw [Parameter.keyPart] at hpart
  obtain ⟨v, hv, hpart⟩ := bind_eq_ok hpart
  cases hpart
  cases hstr
  exact (hrest parts' strs' hparts' hstrs').joined_reference hv hname

theorem spelled_nil {depth : ℕ} (parts : List (Option String × Option KeyTree))
    (strs : List String) (hparts : keyParts s depth [] = .ok parts)
    (hstrs : parts.map Prod.fst = strs.map some) : Spelled s [] (Key.joined strs) := by
  cases hparts
  rw [List.map_eq_nil_iff.mp hstrs.symm]
  exact .nil

mutual
theorem Operation.spelled {depth : ℕ} : (o : Operation) → o.IsPlain →
    ∀ parts strs, keyParts s depth o.operands = .ok parts →
      parts.map Prod.fst = strs.map some → Spelled s o.operands (Key.joined strs)
  | .literal _ => fun _ _ _ => spelled_literal_cons spelled_nil
  | .reference _ => fun hplain _ _ => spelled_reference_cons hplain spelled_nil
  | .apply _ ps => fun hplain => spelled_of_keyParts ps hplain.2
theorem spelled_of_keyParts {depth : ℕ} : (ps : List Parameter) → AllPlain ps →
    ∀ parts strs, keyParts s depth ps = .ok parts →
      parts.map Prod.fst = strs.map some → Spelled s ps (Key.joined strs)
  | [] => fun _ => spelled_nil
  | .literal _ :: rest => fun hplain _ _ => spelled_literal_cons (spelled_of_keyParts rest hplain.2)
  | .reference _ :: rest => fun hplain _ _ =>
    spelled_reference_cons hplain.1 (spelled_of_keyParts rest hplain.2)
  | .step heading o :: rest => fun hplain parts strs hparts hstrs => by
    obtain ⟨⟨hid, ho⟩, hrest⟩ := hplain
    obtain ⟨part, str, parts', strs', hpart, hstr, hparts', hstrs', rfl⟩ :=
      keyParts_cons_spelled hparts hstrs
    obtain ⟨inner, hinner, hkey⟩ := keyPart_step_eq_ok hpart
    obtain ⟨key, hjoin, hstr⟩ := Key.step?_eq_some (hkey.symm.trans hstr)
    obtain ⟨innerStrs, hinnerStrs, hkeyText⟩ := Key.join?_eq_some hjoin
    exact .joined_step hid ho hstr hkeyText (o.spelled ho inner innerStrs hinner hinnerStrs)
      (spelled_of_keyParts rest hrest parts' strs' hparts' hstrs')
end

end

/-- What may stand behind an operand: nothing, the next one, or the end of its list. -/
def Ends (r : List Char) : Prop := ∀ c ∈ r.head?, c = '|' ∨ c = ')'

/-- What may stand behind a list of operands: nothing, or its end. -/
def Closes (r : List Char) : Prop := ∀ c ∈ r.head?, c = ')'

theorem Spelled.ends {s : Scope} {ps : List Parameter} {cs r : List Char} (h : Spelled s ps cs)
    (hr : Closes r) : Ends (cs ++ r) := by
  intro c hc
  cases h with
  | nil => exact .inr (hr c hc)
  | literal _ => exact .inl (Option.some.inj hc).symm
  | reference _ _ _ => exact .inl (Option.some.inj hc).symm
  | step _ _ _ _ => exact .inl (Option.some.inj hc).symm

section
variable {xs ys r r' : List Char}

theorem append_inj_of_ends (hxs : ∀ c ∈ xs, c ≠ '|' ∧ c ≠ ')') (hys : ∀ c ∈ ys, c ≠ '|' ∧ c ≠ ')')
    (hr : Ends r) (hr' : Ends r') (h : xs ++ r = ys ++ r') : xs = ys ∧ r = r' := by
  have hstop {q : List Char} (hq : Ends q) :
      ∀ c ∈ q.head?, (decide (c ≠ '|' ∧ c ≠ ')')) = false := by
    intro c hc
    rcases hq c hc with rfl | rfl <;> rfl
  exact Text.append_inj_of_delimited (p := fun c => decide (c ≠ '|' ∧ c ≠ ')'))
    (fun c hc => decide_eq_true (hxs c hc)) (fun c hc => decide_eq_true (hys c hc))
    (hstop hr) (hstop hr') h

theorem toChars_free (v : Decimal) : ∀ c ∈ v.toChars, c ≠ '|' ∧ c ≠ ')' := by
  intro c hc
  rcases mem_toChars hc with h | rfl | rfl
  · constructor <;> rintro rfl <;> cases h
  · decide
  · decide

theorem value_eq_of_chars {v w : Decimal} (hr : Ends r) (hr' : Ends r')
    (h : v.normalize.toChars ++ r = w.normalize.toChars ++ r') : v.value = w.value ∧ r = r' := by
  obtain ⟨hchars, hrest⟩ := append_inj_of_ends (toChars_free _) (toChars_free _) hr hr' h
  exact ⟨value_eq_of_normalize (congrArg String.ofList hchars), hrest⟩

end

section
variable {s t : Scope}

theorem Operation.sameKind_of_kindOf {o o' : Operation} (ho : o.IsPlain) (ho' : o'.IsPlain)
    (h : Trace.kindOf o = Trace.kindOf o') : o.SameKind o' := by
  cases o with
  | literal a =>
    cases o' with
    | literal b => exact .literal
    | reference name => exact absurd h (show "literal" ≠ "reference" by decide)
    | apply op ps => exact absurd h.symm ho'.1.notLiteral
  | reference name =>
    cases o' with
    | literal b => exact absurd h (show "reference" ≠ "literal" by decide)
    | reference name' => exact .reference
    | apply op ps => exact absurd h.symm ho'.1.notReference
  | apply op ps =>
    cases o' with
    | literal b => exact absurd h ho.1.notLiteral
    | reference name => exact absurd h ho.1.notReference
    | apply op' ps' =>
      obtain rfl : op = op' := by
        rw [← ho.1.ofTag, ← ho'.1.ofTag]
        exact congrArg Operator.ofTag h
      exact .apply

theorem kindOf_free {o : Operation} (ho : o.IsPlain) :
    ∀ c ∈ (Trace.kindOf o).toList, c ≠ '|' ∧ c ≠ ')' := by
  cases o with
  | literal v => exact show ∀ c ∈ "literal".toList, c ≠ '|' ∧ c ≠ ')' by simp
  | reference name => exact show ∀ c ∈ "reference".toList, c ≠ '|' ∧ c ≠ ')' by simp
  | apply op ps => exact ho.1.free

theorem not_closes_bar {r : List Char} : ¬Closes ('|' :: r) :=
  fun h => absurd (h '|' rfl) (by decide)

theorem nil_append_ne {r r' cs : List Char} (hr : Closes r) : [] ++ r ≠ '|' :: cs ++ r' := by
  intro heq
  rw [List.nil_append, List.cons_append] at heq
  rw [heq] at hr
  exact not_closes_bar hr

theorem closes_parenthesis (r : List Char) : Closes (')' :: r) :=
  fun _ hc => (Option.some.inj hc).symm

theorem Spelled.nil_inv {ps : List Parameter} {cs r r' : List Char} (h : Spelled s ps cs)
    (hr : Closes r') (heq : r' = cs ++ r) : ps = [] ∧ r' = r := by
  cases h with
  | nil => exact ⟨rfl, heq⟩
  | literal _ => exact absurd heq (nil_append_ne hr)
  | reference _ _ _ => exact absurd heq (nil_append_ne hr)
  | step _ _ _ _ => exact absurd heq (nil_append_ne hr)

section
variable {ps : List Parameter} {cs r tail : List Char} (h : Spelled s ps cs) (hr : Closes r)
include h hr

theorem Spelled.literal_inv (heq : '|' :: ("lit:".toList ++ tail) = cs ++ r) :
    ∃ w rest ds, ps = .literal w :: rest ∧ Spelled s rest ds ∧
      tail = w.normalize.toChars ++ (ds ++ r) := by
  cases h with
  | nil => exact absurd heq.symm (nil_append_ne hr)
  | @literal w rest ds h => exact ⟨w, rest, ds, rfl, h, by simpa using heq⟩
  | reference _ _ _ => simp at heq
  | step _ _ _ _ => simp at heq

theorem Spelled.reference_inv (heq : '|' :: ("var:".toList ++ tail) = cs ++ r) :
    ∃ name w rest ds, ps = .reference name :: rest ∧ s.resolve name = .ok w ∧
      '=' ∉ name.toList ∧ Spelled s rest ds ∧
        tail = name.toList ++ '=' :: (w.normalize.toChars ++ (ds ++ r)) := by
  cases h with
  | nil => exact absurd heq.symm (nil_append_ne hr)
  | literal _ => simp at heq
  | @reference name w rest ds hw hname h =>
    exact ⟨name, w, rest, ds, rfl, hw, hname, h, by simpa using heq⟩
  | step _ _ _ _ => simp at heq

theorem Spelled.step_inv (heq : '|' :: ("step:".toList ++ tail) = cs ++ r) :
    ∃ heading o rest ds es, ps = .step heading o :: rest ∧ '(' ∉ heading.id.toList ∧
      o.IsPlain ∧ Spelled s o.operands ds ∧ Spelled s rest es ∧
        tail = heading.id.toList ++
          '(' :: ((Trace.kindOf o).toList ++ (ds ++ ')' :: (es ++ r))) := by
  cases h with
  | nil => exact absurd heq.symm (nil_append_ne hr)
  | literal _ => simp at heq
  | reference _ _ _ => simp at heq
  | @step heading o rest ds es hid ho hops h =>
    exact ⟨heading, o, rest, ds, es, rfl, hid, ho, hops, h, by simpa using heq⟩

end

/-- A text spells parameters that are alike, whatever stands behind it. -/
theorem Spelled.alike {ps : List Parameter} {cs : List Char} (h : Spelled s ps cs) :
    ∀ {ps' : List Parameter} {cs' r r' : List Char}, Spelled t ps' cs' → Closes r → Closes r' →
      cs ++ r = cs' ++ r' → r = r' ∧ Alike s t ps ps' := by
  induction h with
  | nil =>
    intro ps' cs' r r' h' hr hr' heq
    obtain ⟨rfl, hrest⟩ := h'.nil_inv hr heq
    exact ⟨hrest, .nil⟩
  | @literal v rest cs h ih =>
    intro ps' cs' r r' h' hr hr' heq
    have heq : '|' :: ("lit:".toList ++ (v.normalize.toChars ++ (cs ++ r))) = cs' ++ r' := by
      simpa using heq
    obtain ⟨w, rest', ds, rfl, hds, htail⟩ := h'.literal_inv hr' heq
    obtain ⟨hvalue, hrest⟩ := value_eq_of_chars (h.ends hr) (hds.ends hr') htail
    obtain ⟨hr, halike⟩ := ih hds hr hr' hrest
    exact ⟨hr, .literal hvalue halike⟩
  | @reference name v rest cs hv hname h ih =>
    intro ps' cs' r r' h' hr hr' heq
    have heq : '|' :: ("var:".toList ++ (name.toList ++
        '=' :: (v.normalize.toChars ++ (cs ++ r)))) = cs' ++ r' := by
      simpa using heq
    obtain ⟨name', w, rest', ds, rfl, hw, hname', hds, htail⟩ := h'.reference_inv hr' heq
    obtain ⟨hsame, hvalues⟩ := Text.append_inj_of_notMem hname hname' htail
    obtain rfl := String.toList_injective hsame
    obtain ⟨hvalue, hrest⟩ := value_eq_of_chars (h.ends hr) (hds.ends hr') hvalues
    obtain ⟨hr, halike⟩ := ih hds hr hr' hrest
    exact ⟨hr, .reference hv hw hvalue halike⟩
  | @step heading o rest cs ds hid ho hops h ihops ih =>
    intro ps' cs' r r' h' hr hr' heq
    have heq : '|' :: ("step:".toList ++ (heading.id.toList ++
        '(' :: ((Trace.kindOf o).toList ++ (cs ++ ')' :: (ds ++ r))))) = cs' ++ r' := by
      simpa using heq
    obtain ⟨heading', o', rest', cs', ds', rfl, hid', ho', hops', hds', htail⟩ :=
      h'.step_inv hr' heq
    obtain ⟨hsame, htail⟩ := Text.append_inj_of_notMem hid hid' htail
    obtain ⟨hkind, htail⟩ := append_inj_of_ends (kindOf_free ho) (kindOf_free ho')
      (hops.ends (closes_parenthesis _)) (hops'.ends (closes_parenthesis _)) htail
    obtain ⟨hrest, hoperands⟩ := ihops hops' (closes_parenthesis _) (closes_parenthesis _) htail
    obtain ⟨hr, halike⟩ := ih hds' hr hr' (List.cons.inj hrest).2
    exact ⟨hr, .step (String.toList_injective hsame)
      (o.sameKind_of_kindOf ho ho' (String.toList_injective hkind)) hoperands halike⟩

end

theorem exists_spelled {s : Scope} {op : Operator} {ps : List Parameter} {tree : KeyTree}
    {key : String} (hps : AllPlain ps) (h : keyTree s op ps = .ok tree)
    (hkey : tree.key = some key) :
    ∃ cs, Spelled s ps cs ∧ key.toList = op.tag.toList ++ (cs ++ []) := by
  obtain ⟨parts, hparts, rfl⟩ := keyTree_eq_ok h
  obtain ⟨strs, hstrs, htext⟩ := Key.join?_eq_some hkey
  exact ⟨Key.joined strs, spelled_of_keyParts ps hps parts strs hparts hstrs, by
    rw [htext, List.append_nil]⟩

theorem alike_of_key {s t : Scope} {op op' : Operator} {ps ps' : List Parameter}
    {tree tree' : KeyTree} {key : String} (hplain : (Operation.apply op ps).IsPlain)
    (hplain' : (Operation.apply op' ps').IsPlain) (h : keyTree s op ps = .ok tree)
    (h' : keyTree t op' ps' = .ok tree') (hkey : tree.key = some key)
    (hkey' : tree'.key = some key) : op = op' ∧ Alike s t ps ps' := by
  obtain ⟨hop, hps⟩ := hplain
  obtain ⟨hop', hps'⟩ := hplain'
  obtain ⟨cs, hcs, htext⟩ := exists_spelled hps h hkey
  obtain ⟨cs', hcs', htext'⟩ := exists_spelled hps' h' hkey'
  have hnil : Closes [] := nofun
  obtain ⟨htag, htail⟩ := append_inj_of_ends hop.free hop'.free (hcs.ends hnil) (hcs'.ends hnil)
    (htext.symm.trans htext')
  refine ⟨?_, (hcs.alike hcs' hnil hnil htail).2⟩
  rw [← hop.ofTag, ← hop'.ofTag, String.toList_injective htag]

end Payroll
