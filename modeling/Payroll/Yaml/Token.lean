import Payroll.Yaml.Scalar

/-!
# Tokens of a YAML text

The tokens of a document, with indentation made explicit. A block collection is opened when
something stands deeper than before and closed when something stands less deep. A key without a mark
of its own is noticed only at the colon behind it, and its tokens then go to the place where it
started.
-/

set_option autoImplicit false

namespace Payroll.Yaml

inductive Token where
  /-- A directive with the version of the language. -/
  | version
  | documentStart
  | documentEnd
  | openBlockSequence
  | openBlockMapping
  | closeBlock
  | openSequence
  | closeSequence
  | openMapping
  | closeMapping
  | item
  | comma
  | key
  | value
  | anchor (name : String)
  | reference (name : String)
  | tag
  | scalar (plain : Bool) (text : String)
deriving DecidableEq

/-- Something that turns out to be a key if a colon follows it. -/
structure Candidate where
  place : Nat
  start : Cursor
  /-- Whether it cannot be anything but a key, from where it stands. -/
  required : Bool

structure Scanner where
  cursor : Cursor
  tokens : Array Token := #[]
  /-- The columns of the open block collections, innermost first. -/
  indents : List Nat := []
  keyAllowed : Bool := true
  /-- The latest candidate of the block and of each open flow collection, innermost first. -/
  candidates : List (Option Candidate) := [none]

namespace Scanner

def inFlow (s : Scanner) : Bool := 1 < s.candidates.length

def base (s : Scanner) : Nat := (s.indents.head?.map (· + 1)).getD 0

def add (s : Scanner) (t : Token) : Scanner := { s with tokens := s.tokens.push t }

def addAll (s : Scanner) (ts : List Token) : Scanner := ts.foldl add s

def take (s : Scanner) (n : Nat) (t : Token) : Scanner :=
  { s.add t with cursor := s.cursor.advance n }

def insert (s : Scanner) (place : Nat) (t : Token) : Scanner :=
  { s with tokens := s.tokens.extract 0 place ++ #[t] ++ s.tokens.extract place }

def closeTo (s : Scanner) (column : Nat) : Scanner :=
  if s.inFlow then s
  else
    let deeper := s.indents.takeWhile (column < ·)
    { s.addAll (deeper.map fun _ => .closeBlock) with indents := s.indents.drop deeper.length }

def closeAll (s : Scanner) : Scanner :=
  if s.inFlow then s
  else { s.addAll (s.indents.map fun _ => .closeBlock) with indents := [] }

/-- Opens a block collection with `place` tokens before it, unless one of this column or a deeper
one is open. -/
def openAt (s : Scanner) (column place : Nat) (t : Token) : Scanner :=
  if !s.inFlow && decide (s.base ≤ column) then
    { s.insert place t with indents := column :: s.indents }
  else s

def openHere (s : Scanner) (t : Token) : Scanner := s.openAt s.cursor.column s.tokens.size t

def dropCandidate? (s : Scanner) : Option Scanner :=
  match s.candidates with
  | some c :: rest => if c.required then none else some { s with candidates := none :: rest }
  | _ => some s

/-- Takes what starts here as a candidate if a key may start here. -/
def keepCandidate? (s : Scanner) : Option Scanner :=
  if s.keyAllowed then do
    let s ← s.dropCandidate?
    let required := !s.inFlow && s.indents.head? = some s.cursor.column
    some { s with
      candidates :=
        some { place := s.tokens.size, start := s.cursor, required } :: s.candidates.drop 1 }
  else some s

/-- Gives up the candidates on earlier lines and those of more than 1024 characters. -/
def dropStale? (s : Scanner) : Option Scanner := do
  let candidates ← s.candidates.mapM fun
    | some c =>
      if c.start.line < s.cursor.line || c.start.index + 1024 < s.cursor.index then
        if c.required then none else some none
      else some (some c)
    | none => some none
  some { s with candidates }

/-- Behind white space, comments and line breaks. A tab before a token is white space only where no
key may start. -/
def skipToToken : (fuel : Nat) → Scanner → Scanner
  | 0, s => s
  | fuel + 1, s =>
    let blank (c : Char) : Bool := c = ' ' || ((s.inFlow || !s.keyAllowed) && c = '\t')
    let c := s.cursor.skip blank
    let c := if c.sees (· = '#') then c.skip (!isBreak ·) else c
    if c.sees isBreak then
      skipToToken fuel { s with cursor := c.newline, keyAllowed := s.keyAllowed || !s.inFlow }
    else { s with cursor := c }

def boundary? (s : Scanner) (t : Token) : Option Scanner := do
  let s ← s.closeAll.dropCandidate?
  some { s.take 3 t with keyAllowed := false }

def directive? (s : Scanner) : Option Scanner := do
  let s ← s.closeAll.dropCandidate?
  let c := s.cursor.advance 1
  if "YAML".toList.isPrefixOf c.rest && endsWord (c.rest.drop 4) then
    let c := (c.advance 4).skip isSpace
    let major := c.rest.takeWhile Char.isDigit
    let c := c.advance major.length
    if c.sees (· = '.') then
      let c := c.advance 1
      let minor := c.rest.takeWhile Char.isDigit
      let known := Text.natural? major = some 1
        && (Text.natural? minor = some 1 || Text.natural? minor = some 2)
      if known then
        let cursor ← (c.advance minor.length).finishLine?
        some { s.add .version with cursor, keyAllowed := false }
      else none
    else none
  else none

def openFlow? (s : Scanner) (t : Token) : Option Scanner := do
  let s ← s.keepCandidate?
  some { s.take 1 t with candidates := none :: s.candidates, keyAllowed := true }

def closeFlow? (s : Scanner) (t : Token) : Option Scanner := do
  let s ← s.dropCandidate?
  let candidates := if s.inFlow then s.candidates.drop 1 else s.candidates
  some { s.take 1 t with candidates, keyAllowed := false }

def comma? (s : Scanner) : Option Scanner := do
  let s ← s.dropCandidate?
  some { s.take 1 .comma with keyAllowed := true }

def item? (s : Scanner) : Option Scanner := do
  let s ←
    if s.inFlow then some s
    else if s.keyAllowed then some (s.openHere .openBlockSequence)
    else none
  let s ← s.dropCandidate?
  some { s.take 1 .item with keyAllowed := true }

def key? (s : Scanner) : Option Scanner := do
  let s ←
    if s.inFlow then some s
    else if s.keyAllowed then some (s.openHere .openBlockMapping)
    else none
  let s ← s.dropCandidate?
  some { s.take 1 .key with keyAllowed := !s.inFlow }

def value? (s : Scanner) : Option Scanner :=
  match s.candidates with
  | some c :: rest =>
    let s := (s.insert c.place .key).openAt c.start.column c.place .openBlockMapping
    some { s.take 1 .value with candidates := none :: rest, keyAllowed := false }
  | _ =>
    if s.inFlow then some { s.take 1 .value with keyAllowed := false }
    else if s.keyAllowed then
      some { (s.openHere .openBlockMapping).take 1 .value with keyAllowed := true }
    else none

def named? (s : Scanner) (t : String → Token) : Option Scanner := do
  let s ← s.keepCandidate?
  let name := (s.cursor.rest.drop 1).takeWhile isNameChar
  let behind := s.cursor.rest.drop (1 + name.length)
  let ends := endsWord behind || behind.head?.any fun c => "?:,]\x7d%@`".toList.contains c
  if name.isEmpty || !ends then none
  else some { s.take (1 + name.length) (t (String.ofList name)) with keyAllowed := false }

def isTagChar (c : Char) : Bool :=
  isNameChar c || ";/?:@&=+$.%!~*'()".toList.contains c

/-- A tag, with one of the two prefixes that are always known or with its full name. What it says
does not matter. -/
def tag? (s : Scanner) : Option Scanner := do
  let s ← s.keepCandidate?
  let rest := s.cursor.rest.drop 1
  let width ←
    if rest.head? = some '<' then
      let name := (rest.drop 1).takeWhile fun c => isTagChar c || ",[]".toList.contains c
      if !name.isEmpty && (rest.drop (1 + name.length)).head? = some '>' then some (name.length + 3)
      else none
    else
      let name := rest.takeWhile isNameChar
      if (rest.drop name.length).head? = some '!' then
        let suffix := (rest.drop (name.length + 1)).takeWhile isTagChar
        if name.isEmpty && !suffix.isEmpty then some (suffix.length + 2) else none
      else some (1 + (rest.takeWhile isTagChar).length)
  let behind := s.cursor.rest.drop width
  if endsWord behind || (s.inFlow && behind.head? = some ',') then
    some { s.take width .tag with keyAllowed := false }
  else none

def blockScalar? (s : Scanner) (literal : Bool) : Option Scanner := do
  let s ← s.dropCandidate?
  let (text, cursor) ← block? literal s.base (s.cursor.advance 1)
  some { s.add (.scalar false (String.ofList text)) with cursor, keyAllowed := true }

def quotedScalar? (s : Scanner) (quote : Char) : Option Scanner := do
  let s ← s.keepCandidate?
  let (text, cursor) ← quoted? quote (s.cursor.rest.length + 1) (s.cursor.advance 1) []
  some { s.add (.scalar false (String.ofList text)) with cursor, keyAllowed := false }

def plainScalar? (s : Scanner) : Option Scanner := do
  let s ← s.keepCandidate?
  let (text, broken, cursor) ← plain? s.inFlow s.base s.cursor.rest.length s.cursor {} []
  some { s.add (.scalar true (String.ofList text)) with cursor, keyAllowed := broken }

/-- Characters that start no plain scalar, except for the first three before a word. A tab is among
them, because it is no indentation. -/
def isIndicator (c : Char) : Bool := "-?:,[]\x7b\x7d#&*!|>'\"%@`\t".toList.contains c

def token? (s : Scanner) (first : Char) (rest : List Char) : Option Scanner :=
  let ends := endsWord rest
  match first with
  | '[' => s.openFlow? .openSequence
  | '\x7b' => s.openFlow? .openMapping
  | ']' => s.closeFlow? .closeSequence
  | '\x7d' => s.closeFlow? .closeMapping
  | ',' => s.comma?
  | '*' => s.named? .reference
  | '&' => s.named? .anchor
  | '!' => s.tag?
  | '\'' => s.quotedScalar? '\''
  | '"' => s.quotedScalar? '"'
  | _ =>
    if first = '-' && ends then s.item?
    else if first = '?' && (s.inFlow || ends) then s.key?
    else if first = ':' && (s.inFlow || ends) then s.value?
    else if (first = '|' || first = '>') && !s.inFlow then s.blockScalar? (first = '|')
    else if !isIndicator first || first = '-' || (!s.inFlow && (first = '?' || first = ':')) then
      s.plainScalar?
    else none

def run? : (fuel : Nat) → Scanner → Option (List Token)
  | 0, _ => none
  | fuel + 1, s => do
    let s ← (s.skipToToken (s.cursor.rest.length + 1)).dropStale?
    let s := s.closeTo s.cursor.column
    match s.cursor.rest with
    | [] => do
      let s ← s.closeAll.dropCandidate?
      some s.tokens.toList
    | first :: rest =>
      let next :=
        if s.cursor.column = 0 && first = '%' then s.directive?
        else if s.cursor.seesMarker '-' then s.boundary? .documentStart
        else if s.cursor.seesMarker '.' then s.boundary? .documentEnd
        else s.token? first rest
      match next with
      | some s => run? fuel s
      | none => none

end Scanner

/-- The tokens of a text. Each takes at least one character. A mark of the byte order at the start
is skipped, but the first line stands one column to the right of it. -/
def tokens? (text : String) : Option (List Token) :=
  let start : Cursor := { rest := text.toList }
  let cursor := if start.sees (· = '\ufeff') then start.advance 1 else start
  if start.rest.all isAllowed then Scanner.run? (start.rest.length + 1) { cursor } else none

end Payroll.Yaml
