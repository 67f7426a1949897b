import Payroll.Yaml.Token

/-!
# YAML documents

The tree of nodes that a text holds. A reference stands for the node of its anchor. Places without a
node hold an empty plain scalar. `fuel` bounds the tokens that are left.
-/

set_option autoImplicit false

namespace Payroll.Yaml

inductive Node where
  | scalar (plain : Bool) (text : String)
  | sequence (items : List Node)
  | mapping (entries : List (Node × Node))

namespace Node

def empty : Node := scalar true ""

/-- What an anchor names until its node is complete. -/
def unfinished : Node := scalar false ""

end Node

structure Source where
  tokens : List Token
  anchors : List (String × Node) := []

abbrev Composer := StateT Source Option

namespace Composer

def peek : Composer (Option Token) := return (← get).tokens.head?

def next : Composer Unit := modify fun s => { s with tokens := s.tokens.tail }

def accept (t : Token) : Composer Bool := do
  if (← peek) = some t then
    next
    return true
  else return false

def expect (t : Token) : Composer Unit := do
  if ← accept t then return () else failure

def anchor : Composer (Option String) := do
  match ← peek with
  | some (.anchor name) =>
    next
    return some name
  | _ => return none

def define (anchor : Option String) (node : Node) : Composer Unit :=
  match anchor with
  | some name => modify fun s => { s with anchors := (name, node) :: s.anchors }
  | none => pure ()

def lookup (name : String) : Composer Node := do
  match (← get).anchors.lookup name with
  | some node => return node
  | none => failure

def properties : Composer (Option String × Bool) := do
  let before ← anchor
  let tagged ← accept .tag
  let name ← match before with
    | some name => pure (some name)
    | none => if tagged then anchor else pure none
  return (name, tagged || name.isSome)

def stops (ends : List Token) : Composer Bool :=
  return (← peek).any ends.contains

def blockEnds : List Token := [.key, .value, .closeBlock]

mutual
/-- A node. Block collections are allowed `inBlock` only, and a sequence that is not indented only
as a key or value of a mapping. -/
def node (inBlock inMapping : Bool) : (fuel : Nat) → Composer Node
  | 0 => failure
  | fuel + 1 => do
    match ← peek with
    | some (.reference name) =>
      next
      lookup name
    | _ =>
      let (name, marked) ← properties
      define name .unfinished
      let content ←
        match ← peek with
        | some (.scalar plain text) => do
          next
          pure (Node.scalar plain text)
        | some .openSequence => do
          next
          pure (Node.sequence (← flowItems fuel))
        | some .openMapping => do
          next
          pure (Node.mapping (← flowEntries fuel))
        | some .item => if inMapping then pure (Node.sequence (← looseItems fuel)) else failure
        | some .openBlockSequence =>
          if inBlock then do
            next
            pure (Node.sequence (← blockItems fuel))
          else failure
        | some .openBlockMapping =>
          if inBlock then do
            next
            pure (Node.mapping (← blockEntries fuel))
          else failure
        | _ => if marked then pure Node.empty else failure
      define name content
      return content

def nodeUnless (ends : List Token) (inBlock inMapping : Bool) : (fuel : Nat) → Composer Node
  | 0 => failure
  | fuel + 1 => do if ← stops ends then return .empty else node inBlock inMapping fuel

def blockItems : (fuel : Nat) → Composer (List Node)
  | 0 => failure
  | fuel + 1 => do
    if ← accept .closeBlock then return []
    else
      expect .item
      let first ← nodeUnless [.item, .closeBlock] true false fuel
      return first :: (← blockItems fuel)

def looseItems : (fuel : Nat) → Composer (List Node)
  | 0 => failure
  | fuel + 1 => do
    if ← accept .item then
      let first ← nodeUnless (.item :: blockEnds) true false fuel
      return first :: (← looseItems fuel)
    else return []

def blockEntries : (fuel : Nat) → Composer (List (Node × Node))
  | 0 => failure
  | fuel + 1 => do
    if ← accept .closeBlock then return []
    else
      expect .key
      let key ← nodeUnless blockEnds true true fuel
      let value ← if ← accept .value then nodeUnless blockEnds true true fuel else pure .empty
      return (key, value) :: (← blockEntries fuel)

/-- The items of a flow sequence. An item with a colon is a mapping of one entry. -/
def flowItems : (fuel : Nat) → Composer (List Node)
  | 0 => failure
  | fuel + 1 => do
    if ← accept .closeSequence then return []
    else
      let ends := [Token.value, .comma, .closeSequence]
      let first ←
        if ← accept .key then
          let key ← nodeUnless ends false false fuel
          let value ← if ← accept .value then nodeUnless ends.tail false false fuel else pure .empty
          pure (Node.mapping [(key, value)])
        else node false false fuel
      if ← accept .comma then return first :: (← flowItems fuel)
      else
        expect .closeSequence
        return [first]

def flowEntries : (fuel : Nat) → Composer (List (Node × Node))
  | 0 => failure
  | fuel + 1 => do
    if ← accept .closeMapping then return []
    else
      let ends := [Token.value, .comma, .closeMapping]
      let first ←
        if ← accept .key then
          let key ← nodeUnless ends false false fuel
          let value ← if ← accept .value then nodeUnless ends.tail false false fuel else pure .empty
          pure (key, value)
        else
          let key ← node false false fuel
          pure (key, Node.empty)
      if ← accept .comma then return first :: (← flowEntries fuel)
      else
        expect .closeMapping
        return [first]
end

def document (fuel : Nat) : Composer Node := do
  let versioned ← accept .version
  let ends := [Token.version, .documentStart, .documentEnd]
  let root ←
    if versioned || (← peek) = some .documentStart then
      expect .documentStart
      if (← peek).isNone then pure .empty else nodeUnless ends true false fuel
    else if (← peek).isNone then pure .empty
    else node true false fuel
  modify fun s => { s with tokens := s.tokens.dropWhile (· = .documentEnd) }
  if (← peek).isNone then return root else failure

end Composer

def Node.ofText? (text : String) : Option Node := do
  let tokens ← tokens? text
  let (root, _) ← (Composer.document (4 * tokens.length + 4)).run { tokens }
  some root

end Payroll.Yaml
