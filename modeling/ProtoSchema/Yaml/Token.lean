import ProtoSchema.Yaml.Cursor

/-!
The tokens of a YAML stream, and the state of the scanner that finds them.

Block collections are laid out by indentation. The scanner keeps a stack of
indentation columns and emits a start token when a line goes deeper and an
end token for each level it leaves. A key written without `?` (a simple key)
is only known to be a key when the `:` after it is seen. So each flow level
remembers where such a key could have started, and the `KEY` token, with a
block mapping start before it when the mapping is new, is put back at that
place in the token list. A simple key must fit on one line and in 1024
characters. Where the indentation says a key must stand, one that never
finds its `:` is an error.

Main definitions: `Yaml.Token`, `Yaml.Scanner`, `Scanner.saveKey`,
`Scanner.rollIndent` and `Scanner.unrollIndent`.
-/

namespace ProtoSchema

namespace Yaml

/-- How a scalar is written. -/
inductive ScalarStyle where
  | plain
  | singleQuoted
  | doubleQuoted
  | literal
  | folded
  deriving DecidableEq, Repr, Inhabited

/-- A token of a YAML stream. A tag is kept as bytes, since `%` escapes in it
stand for single bytes. -/
inductive Token where
  | streamStart
  | streamEnd
  | versionDirective (major minor : Nat)
  | tagDirective (handle : String) (uri : List UInt8)
  | documentStart
  | documentEnd
  | blockSequenceStart
  | blockMappingStart
  | blockEnd
  | flowSequenceStart
  | flowSequenceEnd
  | flowMappingStart
  | flowMappingEnd
  | blockEntry
  | flowEntry
  | key
  | value
  | alias (name : String)
  | anchor (name : String)
  | tag (handle : String) (suffix : List UInt8)
  | scalar (text : String) (style : ScalarStyle)
  deriving Repr, Inhabited

/-- Where a simple key could have started on one flow level. -/
structure SimpleKey where
  possible : Bool := false
  /-- The indentation says that a key must stand here. -/
  required : Bool := false
  /-- The place in the token list where its `KEY` token goes. -/
  tokenNumber : Nat := 0
  mark : Mark := {}
  deriving Repr, Inhabited

/-- The state of the scanner. -/
structure Scanner where
  cursor : Cursor
  tokens : Array Token := #[.streamStart]
  /-- How many flow collections are open. -/
  flowLevel : Nat := 0
  /-- The indentation column of the innermost block collection; `-1` outside all. -/
  indent : Int := -1
  /-- The indentation columns of the enclosing block collections, innermost first. -/
  indents : List Int := []
  /-- A simple key may start at the next token. -/
  keyAllowed : Bool := true
  /-- The simple key slot of each flow level, innermost first. -/
  keys : List SimpleKey := [{}]
  /-- The end of the stream has been reached. -/
  finished : Bool := false
  deriving Inhabited

namespace Scanner

def inFlow (s : Scanner) : Bool := s.flowLevel != 0

def emit (s : Scanner) (t : Token) : Scanner := { s with tokens := s.tokens.push t }

def topKey (s : Scanner) : SimpleKey := s.keys.headD {}

def setTopKey (s : Scanner) (k : SimpleKey) : Scanner :=
  { s with keys := k :: s.keys.drop 1 }

def removeKey (s : Scanner) : Except String Scanner :=
  let k := s.topKey
  if k.possible && k.required then .error "could not find expected \x27:\x27"
  else .ok (s.setTopKey { k with possible := false })

/-- Remember that a simple key may start at the current position, when one may. -/
def saveKey (s : Scanner) : Except String Scanner :=
  if s.keyAllowed then do
    let required := !s.inFlow && s.indent == (s.cursor.mark.column : Int)
    let s ← s.removeKey
    return s.setTopKey ⟨true, required, s.tokens.size, s.cursor.mark⟩
  else .ok s

def staleKeys (s : Scanner) : Except String Scanner := do
  let m := s.cursor.mark
  let keys ← s.keys.mapM fun k =>
    if k.possible && (k.mark.line < m.line || k.mark.index + 1024 < m.index) then
      if k.required then throw "could not find expected \x27:\x27"
      else pure { k with possible := false }
    else pure k
  return { s with keys }

/-- Open a block collection at `column` when it is deeper than the current one:
emit `t` at the end, or at `place` in the token list when given. -/
def rollIndent (s : Scanner) (column : Nat) (place : Option Nat) (t : Token) : Scanner :=
  if s.inFlow || (column : Int) ≤ s.indent then s
  else
    let s := { s with indents := s.indent :: s.indents, indent := column }
    match place with
    | none => s.emit t
    | some i => { s with tokens := s.tokens.insertIdxIfInBounds i t }

def closeDeeper (column : Int) : Array Token → Int → List Int → Array Token × Int × List Int
  | ts, indent, [] => (ts, indent, [])
  | ts, indent, outer :: rest =>
    if indent > column then closeDeeper column (ts.push .blockEnd) outer rest
    else (ts, indent, outer :: rest)

/-- Close the block collections deeper than `column`; nothing inside a flow collection. -/
def unrollIndent (s : Scanner) (column : Int) : Scanner :=
  if s.inFlow then s
  else
    let (tokens, indent, indents) := closeDeeper column s.tokens s.indent s.indents
    { s with tokens, indent, indents }

def enterFlow (s : Scanner) : Scanner :=
  { s with keys := {} :: s.keys, flowLevel := s.flowLevel + 1 }

def leaveFlow (s : Scanner) : Scanner :=
  if s.inFlow then { s with keys := s.keys.drop 1, flowLevel := s.flowLevel - 1 } else s

def advance (s : Scanner) (f : Cursor → Cursor) : Scanner := { s with cursor := f s.cursor }

end Scanner

end Yaml

end ProtoSchema
