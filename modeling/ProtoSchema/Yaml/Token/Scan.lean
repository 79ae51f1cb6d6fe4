import ProtoSchema.Yaml.Token.Scalar
import ProtoSchema.Yaml.Token.Property

/-!
Scanning a YAML stream into tokens.

Before each token the scanner steps over blanks, comments and line breaks.
A tab is skipped only inside a flow collection or after another token on
the line. A byte order mark may stand at the start of a line. The column of
the token then closes the block collections deeper than it. The token is
chosen by its first characters:
* a directive or document marker at column 0;
* a flow indicator;
* `-`, `?` or `:` followed by a gap, or `:` anywhere inside a flow collection;
* an alias, anchor or tag;
* a block scalar (outside flow collections), a quoted scalar, or else a plain scalar.

A character that starts none of these is an error. So is a character that
no document may hold, anywhere in the text. A byte order mark at the very
start of the text is dropped.

Main definitions: `Scanner.fetchNext` and `Token.scan`.
-/

namespace ProtoSchema

namespace Yaml

namespace Scanner

def toNextToken (s : Scanner) : Scanner := go (s.cursor.rest.length + 1) s
where
  /-- At most `n` lines. -/
  go : Nat → Scanner → Scanner
    | 0, s => s
    | n + 1, s =>
      let c := s.cursor
      let c := if c.mark.column = 0 && c.check 0 '\uFEFF' then c.skip else c
      let c := c.skipWhile (fun ch => ch = ' ' || ((s.inFlow || !s.keyAllowed) && ch = '\t'))
      let c := c.skipComment
      if c.breakAt 0 then
        go n { s with cursor := c.skipLine, keyAllowed := if s.inFlow then s.keyAllowed else true }
      else { s with cursor := c }

def fetchStreamEnd (s : Scanner) : Except String Scanner := do
  let c := s.cursor
  let c := if c.mark.column ≠ 0 then { c with mark := { c.mark with column := 0, line := c.mark.line + 1 } } else c
  let s ← { s with cursor := c }.unrollIndent (-1) |>.removeKey
  return { s.emit .streamEnd with keyAllowed := false, finished := true }

def fetchDirective (s : Scanner) : Except String Scanner := do
  let s ← (s.unrollIndent (-1)).removeKey
  let (t, c) ← directive s.cursor
  return { s.emit t with cursor := c, keyAllowed := false }

def fetchDocumentIndicator (t : Token) (s : Scanner) : Except String Scanner := do
  let s ← (s.unrollIndent (-1)).removeKey
  return { s.emit t with cursor := s.cursor.skipN 3, keyAllowed := false }

def fetchFlowStart (t : Token) (s : Scanner) : Except String Scanner := do
  let s ← s.saveKey
  return { (s.enterFlow.emit t) with cursor := s.cursor.skip, keyAllowed := true }

def fetchFlowEnd (t : Token) (s : Scanner) : Except String Scanner := do
  let s ← s.removeKey
  return { (s.leaveFlow.emit t) with cursor := s.cursor.skip, keyAllowed := false }

def fetchFlowEntry (s : Scanner) : Except String Scanner := do
  let s ← s.removeKey
  return { s.emit .flowEntry with cursor := s.cursor.skip, keyAllowed := true }

def fetchBlockEntry (s : Scanner) : Except String Scanner := do
  let s ← if s.inFlow then pure s
    else if !s.keyAllowed then throw "block sequence entries are not allowed in this context"
    else pure (s.rollIndent s.cursor.mark.column none .blockSequenceStart)
  let s ← s.removeKey
  return { s.emit .blockEntry with cursor := s.cursor.skip, keyAllowed := true }

def fetchKey (s : Scanner) : Except String Scanner := do
  let s ← if s.inFlow then pure s
    else if !s.keyAllowed then throw "mapping keys are not allowed in this context"
    else pure (s.rollIndent s.cursor.mark.column none .blockMappingStart)
  let s ← s.removeKey
  return { s.emit .key with cursor := s.cursor.skip, keyAllowed := !s.inFlow }

def fetchValue (s : Scanner) : Except String Scanner := do
  let k := s.topKey
  let s ← if k.possible then
      let s := { s with tokens := s.tokens.insertIdxIfInBounds k.tokenNumber .key }
      let s := s.rollIndent k.mark.column (some k.tokenNumber) .blockMappingStart
      pure { s.setTopKey { k with possible := false } with keyAllowed := false }
    else if s.inFlow then pure { s with keyAllowed := false }
    else if !s.keyAllowed then throw "mapping values are not allowed in this context"
    else pure { s.rollIndent s.cursor.mark.column none .blockMappingStart with keyAllowed := true }
  return { s.emit .value with cursor := s.cursor.skip }

def fetchAnchor (isAnchor : Bool) (s : Scanner) : Except String Scanner := do
  let s ← s.saveKey
  let (name, c) ← anchorName s.cursor.skip
  return { s.emit (if isAnchor then .anchor name else .alias name) with cursor := c, keyAllowed := false }

def fetchTag (s : Scanner) : Except String Scanner := do
  let s ← s.saveKey
  let (handle, suffix, c) ← tagProperty s.inFlow s.cursor
  return { s.emit (.tag handle suffix) with cursor := c, keyAllowed := false }

def fetchBlockScalar (literal : Bool) (s : Scanner) : Except String Scanner := do
  let s ← s.removeKey
  let (text, c) ← blockScalar literal s.indent s.cursor
  return { s.emit (.scalar text (if literal then .literal else .folded)) with cursor := c, keyAllowed := true }

def fetchQuotedScalar (single : Bool) (s : Scanner) : Except String Scanner := do
  let s ← s.saveKey
  let (text, c) ← quotedScalar single s.cursor
  let style := if single then ScalarStyle.singleQuoted else .doubleQuoted
  return { s.emit (.scalar text style) with cursor := c, keyAllowed := false }

def fetchPlainScalar (s : Scanner) : Except String Scanner := do
  let s ← s.saveKey
  let (text, broken, c) ← plainScalar s.inFlow (s.indent + 1) s.cursor
  return { s.emit (.scalar text .plain) with cursor := c, keyAllowed := broken }

def isIndicator (c : Char) : Bool :=
  "-?:,[]\x7b\x7d#&*!|>\x27\"%@\x60".contains c

def plainStarts (s : Scanner) : Bool :=
  let c := s.cursor
  !(c.gapAt 0 || c.test 0 isIndicator) ||
  (c.check 0 '-' && !c.blankAt 1) ||
  (!s.inFlow && (c.check 0 '?' || c.check 0 ':') && !c.gapAt 1)

/-- Scan the next token, with the block ends before it. -/
def fetchNext (s : Scanner) : Except String Scanner := do
  let s ← s.toNextToken.staleKeys
  let s := s.unrollIndent s.cursor.mark.column
  let c := s.cursor
  match c.at? 0 with
  | none => s.fetchStreamEnd
  | some ch =>
    if c.mark.column = 0 && ch = '%' then s.fetchDirective
    else if c.atDocumentMarker && ch = '-' then s.fetchDocumentIndicator .documentStart
    else if c.atDocumentMarker then s.fetchDocumentIndicator .documentEnd
    else if ch = '[' then s.fetchFlowStart .flowSequenceStart
    else if ch = '\x7b' then s.fetchFlowStart .flowMappingStart
    else if ch = ']' then s.fetchFlowEnd .flowSequenceEnd
    else if ch = '\x7d' then s.fetchFlowEnd .flowMappingEnd
    else if ch = ',' then s.fetchFlowEntry
    else if ch = '-' && c.gapAt 1 then s.fetchBlockEntry
    else if ch = '?' && (s.inFlow || c.gapAt 1) then s.fetchKey
    else if ch = ':' && (s.inFlow || c.gapAt 1) then s.fetchValue
    else if ch = '*' then s.fetchAnchor false
    else if ch = '&' then s.fetchAnchor true
    else if ch = '!' then s.fetchTag
    else if ch = '|' && !s.inFlow then s.fetchBlockScalar true
    else if ch = '>' && !s.inFlow then s.fetchBlockScalar false
    else if ch = '\x27' then s.fetchQuotedScalar true
    else if ch = '"' then s.fetchQuotedScalar false
    else if s.plainStarts then s.fetchPlainScalar
    else .error "found character that cannot start any token"

def scanAll : Nat → Scanner → Except String (Array Token)
  | 0, _ => .error "the stream does not end"
  | n + 1, s => if s.finished then .ok s.tokens else do scanAll n (← s.fetchNext)

end Scanner

/-- The tokens of a YAML text, from the stream start to the stream end. -/
def Token.scan (text : String) : Except String (Array Token) :=
  let chars := match text.toList with
    | '\uFEFF' :: rest => rest
    | cs => cs
  if !chars.all isAllowed then .error "control characters are not allowed"
  else Scanner.scanAll (chars.length + 2) { cursor := { rest := chars } }

end Yaml

end ProtoSchema
