/-!
Reading YAML text one character at a time: a position (characters read,
line and column, all counted from zero), the text still to read, and the
character classes that the scanner tests.

A line break is CR LF, CR, LF, NEL, LS or PS. Read as text, the first four
stand for a line feed and the last two for themselves. Only spaces and tabs
are blanks. Word characters are ASCII letters and digits, `_` and `-`. A
document may hold tab, line feed, carriage return, printable ASCII, NEL and
the characters from U+00A0 on, except surrogates, U+FFFE and U+FFFF.

Main definitions: `Yaml.Mark` and `Yaml.Cursor`.
-/

namespace ProtoSchema

namespace Yaml

/-- A position in the text: characters read so far, line and column, from zero. -/
structure Mark where
  index : Nat := 0
  line : Nat := 0
  column : Nat := 0
  deriving Repr, Inhabited, DecidableEq

def Mark.nextLine (m : Mark) (width : Nat) : Mark :=
  { index := m.index + width, line := m.line + 1, column := 0 }

def isBreak (c : Char) : Bool :=
  c = '\r' || c = '\n' || c = '\u0085' || c = '\u2028' || c = '\u2029'

def isBlank (c : Char) : Bool := c = ' ' || c = '\t'

def isWord (c : Char) : Bool := c.isAlphanum || c = '_' || c = '-'

def hexValue? (c : Char) : Option Nat :=
  if '0' ≤ c ∧ c ≤ '9' then some (c.toNat - 48)
  else if 'a' ≤ c ∧ c ≤ 'f' then some (c.toNat - 87)
  else if 'A' ≤ c ∧ c ≤ 'F' then some (c.toNat - 55)
  else none

def isAllowed (c : Char) : Bool :=
  let n := c.toNat
  n = 0x09 || n = 0x0a || n = 0x0d || (0x20 ≤ n && n ≤ 0x7e) || n = 0x85 ||
  (0xa0 ≤ n && n ≤ 0xd7ff) || (0xe000 ≤ n && n ≤ 0xfffd) || (0x10000 ≤ n && n ≤ 0x10ffff)

/-- The text still to read, and the position where it starts. -/
structure Cursor where
  rest : List Char
  mark : Mark := {}
  deriving Repr, Inhabited

namespace Cursor

def at? (c : Cursor) (k : Nat) : Option Char := c.rest[k]?

def check (c : Cursor) (k : Nat) (ch : Char) : Bool := c.at? k == some ch

def test (c : Cursor) (k : Nat) (p : Char → Bool) : Bool := (c.at? k).any p

def atEnd (c : Cursor) : Bool := c.rest.isEmpty

def blankAt (c : Cursor) (k : Nat) : Bool := c.test k isBlank

def breakAt (c : Cursor) (k : Nat) : Bool := c.test k isBreak

def lineEndAt (c : Cursor) (k : Nat) : Bool :=
  match c.at? k with
  | some ch => isBreak ch
  | none => true

def gapAt (c : Cursor) (k : Nat) : Bool :=
  match c.at? k with
  | some ch => isBlank ch || isBreak ch
  | none => true

def atDocumentMarker (c : Cursor) : Bool :=
  c.mark.column = 0 && c.gapAt 3 &&
    ((c.check 0 '-' && c.check 1 '-' && c.check 2 '-') ||
     (c.check 0 '.' && c.check 1 '.' && c.check 2 '.'))

def skip (c : Cursor) : Cursor :=
  match c.rest with
  | [] => c
  | _ :: r => { rest := r, mark := { c.mark with index := c.mark.index + 1, column := c.mark.column + 1 } }

def skipN : Nat → Cursor → Cursor
  | 0, c => c
  | n + 1, c => skipN n c.skip

def skipLine (c : Cursor) : Cursor :=
  match c.rest with
  | '\r' :: '\n' :: r => { rest := r, mark := c.mark.nextLine 2 }
  | ch :: r => if isBreak ch then { rest := r, mark := c.mark.nextLine 1 } else c
  | [] => c

def readBreak (c : Cursor) : String × Cursor :=
  match c.rest with
  | ch :: _ =>
    if ch = '\u2028' || ch = '\u2029' then (ch.toString, c.skipLine)
    else if isBreak ch then ("\n", c.skipLine)
    else ("", c)
  | [] => ("", c)

def read (c : Cursor) (acc : String) : String × Cursor :=
  match c.rest with
  | ch :: _ => (acc.push ch, c.skip)
  | [] => (acc, c)

def skipWhile (p : Char → Bool) (c : Cursor) : Cursor := go c.rest.length c
where
  /-- At most `n` steps. -/
  go : Nat → Cursor → Cursor
    | 0, c => c
    | n + 1, c => if c.test 0 p then go n c.skip else c

def readWhile (p : Char → Bool) (c : Cursor) : String × Cursor := go c.rest.length "" c
where
  /-- At most `n` steps, after reading `acc`. -/
  go : Nat → String → Cursor → String × Cursor
    | 0, acc, c => (acc, c)
    | n + 1, acc, c =>
      if c.test 0 p then
        let (acc, c) := c.read acc
        go n acc c
      else (acc, c)

def skipBlanks (c : Cursor) : Cursor := c.skipWhile isBlank

def skipComment (c : Cursor) : Cursor :=
  if c.check 0 '#' then c.skipWhile (fun ch => !isBreak ch) else c

end Cursor

end Yaml

end ProtoSchema
