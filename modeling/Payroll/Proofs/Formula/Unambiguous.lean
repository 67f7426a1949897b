import Payroll.Proofs.Formula.Spelling

/-!
# Keys without ambiguity

Keys have no quotes and no lengths in them. Where operators are supported and neither names nor
identifiers contain a character that sets the parts of a key apart, two operators have one key
exactly when they are the same and their parameters are alike, at every depth.
-/

set_option autoImplicit false

namespace Payroll

def Key.marks : List Char := ['|', '=', '(', ')']

def Key.Unmarked (str : String) : Prop := ∀ c ∈ str.toList, c ∉ marks

def Operator.IsSupported (op : Operator) : Prop := ∀ tag, op ≠ .unsupported tag

mutual
/-- Every operator in the operation is supported, every name and identifier in it unmarked. -/
def Operation.IsUnmarked : Operation → Prop
  | .literal _ => True
  | .reference name => Key.Unmarked name
  | .apply op parameters => op.IsSupported ∧ AllUnmarked parameters
def Parameter.IsUnmarked : Parameter → Prop
  | .literal _ => True
  | .reference name => Key.Unmarked name
  | .step heading operation => Key.Unmarked heading.id ∧ operation.IsUnmarked
def AllUnmarked : List Parameter → Prop
  | [] => True
  | p :: rest => p.IsUnmarked ∧ AllUnmarked rest
end

theorem Key.Unmarked.notMem {str : String} (h : Unmarked str) {c : Char} (hc : c ∈ marks) :
    c ∉ str.toList := fun hmem => h c hmem hc

/-- No tag of a supported operator stands for another one, for a literal or for a reference. -/
theorem Operator.isPlain_of_isSupported {op : Operator} (h : op.IsSupported) : op.IsPlain := by
  cases op with
  | unsupported tag => exact absurd rfl (h tag)
  | _ => exact ⟨rfl, by decide, by decide, by simp [tag]⟩

mutual
theorem Operation.isPlain_of_isUnmarked : (o : Operation) → o.IsUnmarked → o.IsPlain
  | .literal _ => fun _ => trivial
  | .reference _ => fun h => h.notMem (by decide)
  | .apply _ ps => fun h =>
    ⟨Operator.isPlain_of_isSupported h.1, allPlain_of_allUnmarked ps h.2⟩
theorem Parameter.isPlain_of_isUnmarked : (p : Parameter) → p.IsUnmarked → p.IsPlain
  | .literal _ => fun _ => trivial
  | .reference _ => fun h => h.notMem (by decide)
  | .step _ o => fun h => ⟨h.1.notMem (by decide), o.isPlain_of_isUnmarked h.2⟩
theorem allPlain_of_allUnmarked : (ps : List Parameter) → AllUnmarked ps → AllPlain ps
  | [] => fun _ => trivial
  | p :: rest => fun h => ⟨p.isPlain_of_isUnmarked h.1, allPlain_of_allUnmarked rest h.2⟩
end

/-- The same operators of alike parameters have the same key, marked or not, if any. -/
theorem key_eq_of_alike {s t : Scope} {op : Operator} {ps ps' : List Parameter}
    {tree tree' : KeyTree} (halike : Alike s t ps ps') (h : keyTree s op ps = .ok tree)
    (h' : keyTree t op ps' = .ok tree') : tree.key = tree'.key := by
  obtain ⟨parts, hparts, rfl⟩ := keyTree_eq_ok h
  obtain ⟨parts', hparts', rfl⟩ := keyTree_eq_ok h'
  exact congrArg (Key.join? op.tag) (halike.map_keyParts hparts hparts')

/-- Two operators that have keys, unmarked ones, have one key exactly when they are the same
operator of alike parameters. -/
theorem key_eq_iff_alike {s t : Scope} {op op' : Operator} {ps ps' : List Parameter}
    {tree tree' : KeyTree} {key key' : String} (hunmarked : (Operation.apply op ps).IsUnmarked)
    (hunmarked' : (Operation.apply op' ps').IsUnmarked) (h : keyTree s op ps = .ok tree)
    (h' : keyTree t op' ps' = .ok tree') (hkey : tree.key = some key)
    (hkey' : tree'.key = some key') : key = key' ↔ op = op' ∧ Alike s t ps ps' := by
  constructor
  · rintro rfl
    exact alike_of_key (Operation.isPlain_of_isUnmarked _ hunmarked)
      (Operation.isPlain_of_isUnmarked _ hunmarked') h h' hkey hkey'
  · rintro ⟨rfl, halike⟩
    have hsame := key_eq_of_alike halike h h'
    rw [hkey, hkey'] at hsame
    exact Option.some.inj hsame

def rateShare (amount : Decimal) : List Parameter :=
  [.step { id := "net" } (.apply .subtract [.reference "rate", .literal amount]),
    .literal .hundred]

def rateScope (rate : Decimal) : Scope :=
  { bindings := [("rate", rate)], stepId := "s", limit := 8 }

def halfRate : Decimal := (Decimal.ofParts? 5 1).getD .zero

def halfRateInCents : Decimal := (Decimal.ofParts? 50 2).getD .zero

def signedZero : Decimal := { Decimal.zero with negative := true }

theorem rateShare_isUnmarked (amount : Decimal) :
    (Operation.apply .divide (rateShare amount)).IsUnmarked := by
  refine ⟨nofun, ⟨?_, nofun, ?_, trivial, trivial⟩, trivial, trivial⟩
  · exact show ∀ c ∈ "net".toList, c ∉ Key.marks by simp [Key.marks]
  · exact show ∀ c ∈ "rate".toList, c ∉ Key.marks by simp [Key.marks]

theorem key_eq_iff_alike_rateShare :
    ∃ tree tree', keyTree (rateScope halfRate) .divide (rateShare signedZero) = .ok tree ∧
      keyTree (rateScope halfRateInCents) .divide (rateShare .zero) = .ok tree' ∧
      tree.key = some "divide|step:net(subtract|var:rate=0.5|lit:0)|lit:100" ∧
      tree'.key = tree.key ∧
      Alike (rateScope halfRate) (rateScope halfRateInCents) (rateShare signedZero)
        (rateShare .zero) := by
  refine ⟨_, _, rfl, rfl, by decide, by decide, ?_⟩
  exact ((key_eq_iff_alike (rateShare_isUnmarked signedZero) (rateShare_isUnmarked .zero) rfl rfl
    rfl rfl).mp (by decide)).2

end Payroll
