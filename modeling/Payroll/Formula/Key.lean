import Payroll.Formula.Bindings

/-!
# Memo keys

A key spells out an operator and what its parameters stand for at the moment, so that equal keys can
share a value. Keys of all nested operators are made before anything is evaluated; that is also
when the depth of nesting and the names are checked.
-/

set_option autoImplicit false

namespace Payroll

structure Scope where
  bindings : Bindings
  stepId : String
  limit : Nat

namespace Scope

def resolve (s : Scope) (name : String) : Except PayError Decimal :=
  match s.bindings.resolve? name with
  | some value => .ok value
  | none => .error (.undefinedVariable name s.stepId)

def checkDepth (s : Scope) (depth : Nat) : Except PayError Unit :=
  if s.limit < depth then .error (.nestingTooDeep s.stepId s.limit) else .ok ()

end Scope

/-- The key of an operator, if it has one, and for each parameter that is an operator the tree of
keys below it. -/
inductive KeyTree where
  | node (key : Option String) (nested : List (Option KeyTree))

namespace KeyTree

def key : KeyTree → Option String
  | node key _ => key

def nested : KeyTree → List (Option KeyTree)
  | node _ nested => nested

end KeyTree

namespace Key

def literal (value : Decimal) : String := "lit:" ++ value.normalize.toText

def reference (name : String) (value : Decimal) : String :=
  "var:" ++ name ++ "=" ++ value.normalize.toText

/-- A nested step counts by its identifier and its own key; without either there is no key. -/
def step? (id : String) (inner : Option String) : Option String :=
  if id.isEmpty then none else inner.map fun inner => "step:" ++ id ++ "(" ++ inner ++ ")"

/-- A tag and the parts behind it; one part without a key takes the key from the whole. -/
def join? (tag : String) (parts : List (Option String)) : Option String :=
  (parts.mapM id).map fun parts => "|".intercalate (tag :: parts)

end Key

def KeyTree.ofParts (op : Operator) (parts : List (Option String × Option KeyTree)) : KeyTree :=
  .node (Key.join? op.tag (parts.map Prod.fst)) (parts.map Prod.snd)

mutual
/-- The part of a key for a parameter of an operator at `depth`, and the keys below it. -/
def Parameter.keyPart (scope : Scope) (depth : Nat) :
    Parameter → Except PayError (Option String × Option KeyTree)
  | .literal value => .ok (some (Key.literal value), none)
  | .reference name => do
    let value ← scope.resolve name
    return (some (Key.reference name value), none)
  | .step heading operation => operation.keyPart scope heading.id (depth + 1)
def Operation.keyPart (scope : Scope) (id : String) (depth : Nat) :
    Operation → Except PayError (Option String × Option KeyTree)
  | .literal value =>
    .ok (Key.step? id (Key.join? "literal" [some (Key.literal value)]), none)
  | .reference name => do
    let value ← scope.resolve name
    return (Key.step? id (Key.join? "reference" [some (Key.reference name value)]), none)
  | .apply op parameters => do
    scope.checkDepth depth
    let tree := KeyTree.ofParts op (← keyParts scope depth parameters)
    return (Key.step? id tree.key, some tree)
def keyParts (scope : Scope) (depth : Nat) :
    List Parameter → Except PayError (List (Option String × Option KeyTree))
  | [] => .ok []
  | p :: rest => do
    let part ← p.keyPart scope depth
    let parts ← keyParts scope depth rest
    return part :: parts
end

def keyTree (scope : Scope) (op : Operator) (parameters : List Parameter) :
    Except PayError KeyTree := do
  scope.checkDepth 0
  return .ofParts op (← keyParts scope 0 parameters)

end Payroll
