import ProtoSchema.Yaml.Token

/-!
Reading the text of scalars: plain, single-quoted, double-quoted, and the
block scalars written with `|` (literal) or `>` (folded).

Inside plain and quoted scalars, line breaks fold. A single break between
two lines becomes a space, and each further break is kept. Blanks around a
break are dropped. A plain scalar ends at `: ` or ` #`, at a line indented
no deeper than its parent, at a document marker, and inside a flow
collection at a flow indicator. A double-quoted scalar knows the escapes of
YAML 1.2. A block scalar keeps its lines from its indentation on, found
from its first non-empty line unless given. A folded one joins two text
lines by a space, and the final line breaks are clipped, stripped (`-`) or
kept (`+`).

Main definitions: `Yaml.plainScalar`, `Yaml.quotedScalar` and
`Yaml.blockScalar`.
-/

namespace ProtoSchema

namespace Yaml

/-- A scalar being read: its text so far, the blanks after it on the current line,
the first line break after them and the breaks after that, and whether a line
break has been read since the last text. -/
structure Folding where
  text : String := ""
  blanks : String := ""
  leading : String := ""
  trailing : String := ""
  broken : Bool := false
  deriving Inhabited

namespace Folding

def fold (f : Folding) : Folding :=
  if f.broken then
    let text :=
      if f.leading = "\n" then
        if f.trailing.isEmpty then f.text.push ' ' else f.text ++ f.trailing
      else f.text ++ f.leading ++ f.trailing
    { f with text, leading := "", trailing := "" }
  else { f with text := f.text ++ f.blanks, blanks := "" }

def gap (tabLimit : Option Int) : Nat → Folding → Cursor → Except String (Folding × Cursor)
  | 0, f, c => .ok (f, c)
  | n + 1, f, c =>
    match c.at? 0 with
    | some ch =>
      if isBlank ch then
        if f.broken && ch = '\t' && (tabLimit.any fun l => (c.mark.column : Int) < l) then
          .error "found a tab character that violates indentation"
        else if f.broken then gap tabLimit n f c.skip
        else gap tabLimit n { f with blanks := f.blanks.push ch } c.skip
      else if isBreak ch then
        let (b, c') := c.readBreak
        if f.broken then gap tabLimit n { f with trailing := f.trailing ++ b } c'
        else gap tabLimit n { f with blanks := "", leading := b, broken := true } c'
      else .ok (f, c)
    | none => .ok (f, c)

end Folding

def isFlowIndicator (c : Char) : Bool :=
  c = ',' || c = '[' || c = ']' || c = '\x7b' || c = '\x7d'

def plainRun (flow : Bool) : Nat → Folding → Cursor → Except String (Folding × Cursor)
  | 0, f, c => .ok (f, c)
  | n + 1, f, c =>
    if c.gapAt 0 then .ok (f, c)
    else if flow && c.check 0 ':' && c.test 1 (fun d => d = '?' || isFlowIndicator d) then
      .error "found unexpected \x27:\x27"
    else if (c.check 0 ':' && c.gapAt 1) || (flow && c.test 0 isFlowIndicator) then .ok (f, c)
    else
      let f := { f.fold with broken := false }
      let (text, c) := c.read f.text
      plainRun flow n { f with text } c

def plainLines (flow : Bool) (indent : Int) : Nat → Folding → Cursor → Except String (Folding × Cursor)
  | 0, f, c => .ok (f, c)
  | n + 1, f, c =>
    if c.atDocumentMarker || c.check 0 '#' then .ok (f, c)
    else do
      let (f, c) ← plainRun flow (c.rest.length + 1) f c
      if !(c.blankAt 0 || c.breakAt 0) then return (f, c)
      let (f, c) ← Folding.gap (some indent) (c.rest.length + 1) f c
      if !flow && (c.mark.column : Int) < indent then return (f, c)
      plainLines flow indent n f c

/-- Read a plain scalar whose lines lie right of column `indent - 1`: its text, whether
a line break was read after it, and the cursor after it. -/
def plainScalar (flow : Bool) (indent : Int) (c : Cursor) : Except String (String × Bool × Cursor) := do
  let (f, c) ← plainLines flow indent (c.rest.length + 1) {} c
  return (f.text, f.broken, c)

def simpleEscape : Char → Option Char
  | '0' => some '\x00'
  | 'a' => some '\x07'
  | 'b' => some '\x08'
  | 't' => some '\t'
  | '\t' => some '\t'
  | 'n' => some '\n'
  | 'v' => some '\x0b'
  | 'f' => some '\x0c'
  | 'r' => some '\r'
  | 'e' => some '\x1b'
  | ' ' => some ' '
  | '"' => some '"'
  | '/' => some '/'
  | '\\' => some '\\'
  | 'N' => some '\u0085'
  | '_' => some '\u00a0'
  | 'L' => some '\u2028'
  | 'P' => some '\u2029'
  | _ => none

def escapeWidth : Char → Option Nat
  | 'x' => some 2
  | 'u' => some 4
  | 'U' => some 8
  | _ => none

def hexNumber : Nat → List Char → Option Nat
  | 0, _ => some 0
  | n + 1, cs => do
    let d ← cs.head? >>= hexValue?
    let v ← hexNumber n (cs.drop 1)
    return d * Nat.pow 16 n + v

def escape (text : String) (c : Cursor) : Except String (String × Cursor) :=
  match c.at? 1 with
  | none => .error "found unknown escape character"
  | some e =>
    match simpleEscape e with
    | some ch => .ok (text.push ch, c.skipN 2)
    | none =>
      match escapeWidth e with
      | none => .error "found unknown escape character"
      | some w =>
        let c := c.skipN 2
        match hexNumber w c.rest with
        | none => .error "did not find expected hexdecimal number"
        | some v =>
          if (0xd800 ≤ v && v ≤ 0xdfff) || 0x10ffff < v then
            .error "found invalid Unicode character escape code"
          else .ok (text.push (Char.ofNat v), c.skipN w)

def closingQuote (single : Bool) : Char := if single then '\x27' else '"'

def quotedRun (single : Bool) : Nat → Folding → Cursor → Except String (Folding × Cursor)
  | 0, f, c => .ok (f, c)
  | n + 1, f, c =>
    if c.gapAt 0 then .ok (f, c)
    else if single && c.check 0 '\x27' && c.check 1 '\x27' then
      quotedRun single n { f with text := f.text.push '\x27' } (c.skipN 2)
    else if c.check 0 (closingQuote single) then .ok (f, c)
    else if !single && c.check 0 '\\' && c.breakAt 1 then .ok ({ f with broken := true }, c.skip.skipLine)
    else if !single && c.check 0 '\\' then do
      let (text, c) ← escape f.text c
      quotedRun single n { f with text } c
    else
      let (text, c) := c.read f.text
      quotedRun single n { f with text } c

def quotedLines (single : Bool) : Nat → Folding → Cursor → Except String (Folding × Cursor)
  | 0, _, _ => .error "found unexpected end of stream"
  | n + 1, f, c =>
    if c.atDocumentMarker then .error "found unexpected document indicator"
    else if c.atEnd then .error "found unexpected end of stream"
    else do
      let (f, c) ← quotedRun single (c.rest.length + 1) { f with broken := false } c
      if c.check 0 (closingQuote single) then return (f, c)
      let (f, c) ← Folding.gap none (c.rest.length + 1) f c
      quotedLines single n f.fold c

/-- Read a quoted scalar, the cursor at its opening quote: its text and the cursor
after its closing quote. -/
def quotedScalar (single : Bool) (c : Cursor) : Except String (String × Cursor) := do
  let (f, c) ← quotedLines single (c.rest.length + 1) {} c.skip
  return (f.text, c.skip)

/-- What happens to the line breaks at the end of a block scalar. -/
inductive Chomping where
  /-- Keep one. -/
  | clip
  /-- Keep none. -/
  | strip
  /-- Keep all. -/
  | keep
  deriving DecidableEq, Repr, Inhabited

def skipIndentation (indent : Nat) (c : Cursor) : Cursor := go c.rest.length c
where
  /-- At most `n` steps. -/
  go : Nat → Cursor → Cursor
    | 0, c => c
    | n + 1, c => if (indent = 0 || c.mark.column < indent) && c.check 0 ' ' then go n c.skip else c

def blockBreaks (indent : Nat) : Nat → Nat → String → Cursor → Except String (Nat × String × Cursor)
  | 0, deepest, breaks, c => .ok (deepest, breaks, c)
  | n + 1, deepest, breaks, c =>
    let c := skipIndentation indent c
    let deepest := max deepest c.mark.column
    if (indent = 0 || c.mark.column < indent) && c.check 0 '\t' then
      .error "found a tab character where an indentation space is expected"
    else if !c.breakAt 0 then .ok (deepest, breaks, c)
    else
      let (b, c) := c.readBreak
      blockBreaks indent n deepest (breaks ++ b) c

def blockIndentation (parent : Int) (indent : Nat) (c : Cursor) : Except String (Nat × String × Cursor) := do
  let (deepest, breaks, c) ← blockBreaks indent (c.rest.length + 1) 0 "" c
  let indent := if indent ≠ 0 then indent else max 1 (max deepest (parent + 1).toNat)
  return (indent, breaks, c)

/-- A block scalar being read: its text, the line break after the last line, the
empty lines after that, and whether the last line started with a blank. -/
structure BlockText where
  text : String := ""
  leading : String := ""
  trailing : String := ""
  leadingBlank : Bool := false
  deriving Inhabited

def blockLines (literal : Bool) (indent : Nat) : Nat → BlockText → Cursor → Except String (BlockText × Cursor)
  | 0, b, c => .ok (b, c)
  | n + 1, b, c =>
    if c.mark.column ≠ indent || c.atEnd then .ok (b, c)
    else do
      let blank := c.blankAt 0
      let text :=
        if !literal && b.leading = "\n" && !b.leadingBlank && !blank then
          if b.trailing.isEmpty then b.text.push ' ' else b.text
        else b.text ++ b.leading
      let (line, c) := c.readWhile (fun ch => !isBreak ch)
      let text := text ++ b.trailing ++ line
      let (leading, c) := c.readBreak
      let (_, trailing, c) ← blockBreaks indent (c.rest.length + 1) 0 "" c
      blockLines literal indent n { text, leading, trailing, leadingBlank := blank } c

def blockHeader (c : Cursor) : Except String (Chomping × Nat × Cursor) :=
  let chomping (ch : Char) : Option Chomping :=
    if ch = '+' then some .keep else if ch = '-' then some .strip else none
  let digit (ch : Char) : Option Nat := if ch.isDigit then some (ch.toNat - 48) else none
  match c.at? 0 >>= chomping with
  | some k =>
    match c.at? 1 >>= digit with
    | some 0 => .error "found an indentation indicator equal to 0"
    | some d => .ok (k, d, c.skipN 2)
    | none => .ok (k, 0, c.skip)
  | none =>
    match c.at? 0 >>= digit with
    | some 0 => .error "found an indentation indicator equal to 0"
    | some d =>
      match c.at? 1 >>= chomping with
      | some k => .ok (k, d, c.skipN 2)
      | none => .ok (.clip, d, c.skip)
    | none => .ok (.clip, 0, c)

/-- Read a block scalar, the cursor at its indicator, inside a block collection at
column `parent`: its text and the cursor after it. -/
def blockScalar (literal : Bool) (parent : Int) (c : Cursor) : Except String (String × Cursor) := do
  let (chomping, increment, c) ← blockHeader c.skip
  let c := c.skipBlanks.skipComment
  if !c.lineEndAt 0 then throw "did not find expected comment or line break"
  let c := c.skipLine
  let indent := if increment = 0 then 0 else if 0 ≤ parent then (parent + increment).toNat else increment
  let (indent, trailing, c) ← blockIndentation parent indent c
  let (b, c) ← blockLines literal indent (c.rest.length + 1) { trailing } c
  let text := match chomping with
    | .strip => b.text
    | .clip => b.text ++ b.leading
    | .keep => b.text ++ b.leading ++ b.trailing
  return (text, c)

end Yaml

end ProtoSchema
