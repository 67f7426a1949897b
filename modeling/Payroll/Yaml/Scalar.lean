import Payroll.Text.Basic
import Payroll.Yaml.Cursor

/-!
# The text of scalars

Plain and quoted scalars fold the line breaks inside them: a single one becomes a space, of several
the first is dropped. Block scalars keep their lines. Each reader returns the text and the cursor
behind it. `fuel` bounds the characters that are left.
-/

set_option autoImplicit false

namespace Payroll.Yaml

def keptBreak (c : Char) : Char := if c = '\r' || c = '\x85' then '\n' else c

structure Gap where
  spaces : List Char := []
  broken : Bool := false
  first : Option Char := none
  more : List Char := []

namespace Gap

def text (g : Gap) : List Char :=
  if g.broken then
    match g.first with
    | some '\n' => if g.more.isEmpty then [' '] else g.more
    | some c => c :: g.more
    | none => g.more
  else g.spaces

def addBreak (g : Gap) (c : Char) : Gap :=
  if g.broken then { g with more := g.more ++ [c] } else { broken := true, first := some c }

/-- Reads white space. Behind a line break there is no tab before the column `indent`. -/
def read? (indent : Nat) : (fuel : Nat) → Cursor → Gap → Option (Gap × Cursor)
  | 0, c, g => some (g, c)
  | fuel + 1, c, g =>
    match c.rest with
    | [] => some (g, c)
    | x :: _ =>
      if isSpace x then
        if g.broken && x = '\t' && decide (c.column < indent) then none
        else
          read? indent fuel (c.advance 1)
            (if g.broken then g else { g with spaces := g.spaces ++ [x] })
      else if isBreak x then read? indent fuel c.newline (g.addBreak (keptBreak x))
      else some (g, c)

end Gap

def isFlowMark (c : Char) : Bool :=
  c = ',' || c = '[' || c = ']' || c = '\x7b' || c = '\x7d'

/-- The characters of a plain scalar up to white space, the colon behind a key or a flow mark. In a
flow collection no colon stands before a flow mark or a question mark. -/
def plainWord? (flow : Bool) : List Char → Option (List Char)
  | [] => some []
  | c :: rest =>
    if isSpace c || isBreak c then some []
    else if flow && c = ':' && rest.head?.any (fun d => isFlowMark d || d = '?') then none
    else if (c = ':' && endsWord rest) || (flow && isFlowMark c) then some []
    else (plainWord? flow rest).map (c :: ·)

/-- Reads a plain scalar. Its further lines are indented at least to `indent`. The answer tells
besides whether a line break stands between the scalar and the cursor. -/
def plain? (flow : Bool) (indent : Nat) :
    (fuel : Nat) → Cursor → Gap → List Char → Option (List Char × Bool × Cursor)
  | 0, c, gap, text => some (text, gap.broken, c)
  | fuel + 1, c, gap, text =>
    if c.seesBoundary || c.sees (· = '#') then some (text, gap.broken, c)
    else
      match plainWord? flow c.rest with
      | none => none
      | some [] => some (text, gap.broken, c)
      | some word =>
        let text := text ++ gap.text ++ word
        let c := c.advance word.length
        if c.sees fun x => isSpace x || isBreak x then
          match Gap.read? indent c.rest.length c {} with
          | none => none
          | some (gap, c) =>
            if !flow && decide (c.column < indent) then some (text, gap.broken, c)
            else plain? flow indent fuel c gap text
        else some (text, false, c)

def escape? : Char → Option Char
  | '0' => some '\x00'
  | 'a' => some '\x07'
  | 'b' => some '\x08'
  | 't' => some '\t'
  | '\t' => some '\t'
  | 'n' => some '\n'
  | 'v' => some '\x0b'
  | 'f' => some '\x0c'
  | 'r' => some '\r'
  | 'e' => some '\x1b'
  | ' ' => some ' '
  | '"' => some '"'
  | '/' => some '/'
  | '\\' => some '\\'
  | 'N' => some '\x85'
  | '_' => some '\u00a0'
  | 'L' => some '\u2028'
  | 'P' => some '\u2029'
  | _ => none

def escapeWidth? : Char → Option Nat
  | 'x' => some 2
  | 'u' => some 4
  | 'U' => some 8
  | _ => none

def codePoint? (width : Nat) (cs : List Char) : Option Char :=
  if cs.length < width then none
  else
    match Text.naturalIn? 16 (cs.take width) with
    | some n => if n.isValidChar then some (Char.ofNat n) else none
    | none => none

/-- Reads a quoted scalar up to white space or the closing quote. The answer tells besides whether
it stops behind a line break that a backslash takes out. -/
def quotedWord? (quote : Char) :
    (fuel : Nat) → Cursor → List Char → Option (List Char × Bool × Cursor)
  | 0, c, text => some (text, false, c)
  | fuel + 1, c, text =>
    match c.rest with
    | [] => some (text, false, c)
    | x :: rest =>
      if isSpace x || isBreak x then some (text, false, c)
      else if x = quote then
        if quote = '\'' ∧ rest.head? = some '\'' then
          quotedWord? quote fuel (c.advance 2) (text ++ ['\''])
        else some (text, false, c)
      else if x = '\\' ∧ quote = '"' then
        match rest with
        | [] => none
        | letter :: behind =>
          if isBreak letter then some (text, true, (c.advance 1).newline)
          else
            match escape? letter, escapeWidth? letter with
            | some y, _ => quotedWord? quote fuel (c.advance 2) (text ++ [y])
            | none, some width =>
              match codePoint? width behind with
              | some y => quotedWord? quote fuel (c.advance (2 + width)) (text ++ [y])
              | none => none
            | none, none => none
      else quotedWord? quote fuel (c.advance 1) (text ++ [x])

def quoted? (quote : Char) : (fuel : Nat) → Cursor → List Char → Option (List Char × Cursor)
  | 0, _, _ => none
  | fuel + 1, c, text =>
    if c.seesBoundary || c.rest.isEmpty then none
    else
      match quotedWord? quote c.rest.length c text with
      | none => none
      | some (text, escaped, c) =>
        if c.sees (· = quote) then some (text, c.advance 1)
        else
          match Gap.read? 0 c.rest.length c { broken := escaped } with
          | none => none
          | some (gap, c) => quoted? quote fuel c (text ++ gap.text)

/-- What becomes of the line breaks at the end of a block scalar. -/
inductive Chomping where
  | strip
  | clip
  | keep
deriving DecidableEq

structure BlockStyle where
  literal : Bool
  chomping : Chomping := .clip
  /-- How much deeper the lines stand than what holds the scalar, where that is given. -/
  depth : Option Nat := none

namespace BlockStyle

def chomping? : Char → Option Chomping
  | '+' => some .keep
  | '-' => some .strip
  | _ => none

def read? (literal : Bool) (c : Cursor) : Option (BlockStyle × Cursor) :=
  let style : BlockStyle := { literal }
  match c.rest with
  | [] => some (style, c)
  | x :: rest =>
    match chomping? x with
    | some chomping =>
      match rest.head?.bind Text.digit? with
      | some 0 => none
      | some depth => some ({ style with chomping, depth := some depth }, c.advance 2)
      | none => some ({ style with chomping }, c.advance 1)
    | none =>
      match Text.digit? x with
      | some 0 => none
      | some depth =>
        match rest.head?.bind chomping? with
        | some chomping => some ({ style with chomping, depth := some depth }, c.advance 2)
        | none => some ({ style with depth := some depth }, c.advance 1)
      | none => some (style, c)

end BlockStyle

/-- Reads the line breaks and the indentation before a line of a block scalar. Without an `indent`
the indentation may be any; the answer tells the deepest. -/
def blockGap? (indent : Option Nat) :
    (fuel : Nat) → Cursor → List Char → Nat → Option (List Char × Nat × Cursor)
  | 0, c, breaks, deepest => some (breaks, deepest, c)
  | fuel + 1, c, breaks, deepest =>
    let spaces := (c.rest.takeWhile (· = ' ')).length
    let c := c.advance ((indent.map fun n => Nat.min spaces (n - c.column)).getD spaces)
    let deepest := Nat.max deepest c.column
    match c.rest with
    | [] => some (breaks, deepest, c)
    | x :: _ =>
      if x = '\t' && (indent.map fun n => decide (c.column < n)).getD true then none
      else if isBreak x then blockGap? indent fuel c.newline (breaks ++ [keptBreak x]) deepest
      else some (breaks, deepest, c)

structure BlockText where
  text : List Char := []
  ending : List Char := []
  empties : List Char := []
  spaced : Bool := false

namespace BlockText

def joined (b : BlockText) (style : BlockStyle) (spaced : Bool) : List Char :=
  if !style.literal && b.ending = ['\n'] && !b.spaced && !spaced then
    b.text ++ (if b.empties.isEmpty then [' '] else b.empties)
  else b.text ++ b.ending ++ b.empties

def closed (b : BlockText) : Chomping → List Char
  | .strip => b.text
  | .clip => b.text ++ b.ending
  | .keep => b.text ++ b.ending ++ b.empties

end BlockText

def blockLines? (style : BlockStyle) (indent : Nat) :
    (fuel : Nat) → Cursor → BlockText → Option (List Char × Cursor)
  | 0, c, b => some (b.closed style.chomping, c)
  | fuel + 1, c, b =>
    if c.column ≠ indent || c.rest.isEmpty then some (b.closed style.chomping, c)
    else
      let spaced := c.sees isSpace
      let line := c.rest.takeWhile (!isBreak ·)
      let text := b.joined style spaced ++ line
      let c := c.advance line.length
      let ending := (c.rest.head?.map keptBreak).toList
      match blockGap? (some indent) c.rest.length c.newline [] 0 with
      | none => none
      | some (empties, _, c) => blockLines? style indent fuel c { text, ending, empties, spaced }

def block? (literal : Bool) (base : Nat) (c : Cursor) : Option (List Char × Cursor) := do
  let (style, c) ← BlockStyle.read? literal c
  let c ← c.finishLine?
  let given := style.depth.map (Nat.max base 1 - 1 + ·)
  let (empties, deepest, c) ← blockGap? given c.rest.length c [] 0
  let indent := given.getD (Nat.max deepest (Nat.max base 1))
  blockLines? style indent (c.rest.length + 1) c { empties }

end Payroll.Yaml
