/-!
# Places in a YAML text

A cursor stands before the characters that are left and knows its line and column, because
indentation decides what belongs together. Tabs and spaces are white space; five characters end a
line.
-/

set_option autoImplicit false

namespace Payroll.Yaml

def isSpace (c : Char) : Bool := c = ' ' || c = '\t'

def isBreak (c : Char) : Bool :=
  c = '\n' || c = '\r' || c = '\x85' || c = '\u2028' || c = '\u2029'

def isAllowed (c : Char) : Bool :=
  let n := c.toNat
  n = 0x09 || n = 0x0A || n = 0x0D || (0x20 ≤ n && n ≤ 0x7E) || n = 0x85 || (0xA0 ≤ n && n ≤ 0xFFFD)
    || 0x10000 ≤ n

def endsWord : List Char → Bool
  | [] => true
  | c :: _ => isSpace c || isBreak c

def isNameChar (c : Char) : Bool := c.isAlphanum || c = '_' || c = '-'

structure Cursor where
  rest : List Char
  index : Nat := 0
  line : Nat := 0
  column : Nat := 0

namespace Cursor

def advance (c : Cursor) (n : Nat) : Cursor :=
  { c with rest := c.rest.drop n, index := c.index + n, column := c.column + n }

def skip (c : Cursor) (test : Char → Bool) : Cursor := c.advance (c.rest.takeWhile test).length

/-- Behind the line break that comes next; a return before a line feed belongs to it. -/
def newline (c : Cursor) : Cursor :=
  match c.rest with
  | '\r' :: '\n' :: rest => { rest, index := c.index + 2, line := c.line + 1 }
  | _ :: rest => { rest, index := c.index + 1, line := c.line + 1 }
  | [] => c

def sees (c : Cursor) (test : Char → Bool) : Bool := c.rest.head?.any test

/-- Whether three of `mark` stand alone at the start of the line. -/
def seesMarker (c : Cursor) (mark : Char) : Bool :=
  c.column = 0 && [mark, mark, mark].isPrefixOf c.rest && endsWord (c.rest.drop 3)

def seesBoundary (c : Cursor) : Bool := c.seesMarker '-' || c.seesMarker '.'

/-- Behind the rest of a line that holds nothing but white space and a comment. -/
def finishLine? (c : Cursor) : Option Cursor :=
  let c := c.skip isSpace
  let c := if c.sees (· = '#') then c.skip (!isBreak ·) else c
  match c.rest with
  | [] => some c
  | x :: _ => if isBreak x then some c.newline else none

end Cursor

end Payroll.Yaml
