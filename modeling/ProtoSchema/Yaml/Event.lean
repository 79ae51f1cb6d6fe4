import ProtoSchema.Yaml.Token.Scan

/-!
The events of a YAML stream, and parsing tokens into them.

A stream holds documents. A document may open with directives and `---`,
and may close with `...`. Its one root node is an alias, a scalar, or a
sequence or mapping given by start and end events around its entries. A
node may carry an anchor and a tag. A tag handle names a prefix: `!` is
`!`, `!!` is `tag:yaml.org,2002:`, and `%TAG` directives add more for their
document. An entry left empty is the empty plain scalar. Inside a block
mapping, a sequence may stand at the same indentation as its key.

Main definitions: `Yaml.Event` and `Event.parse`.
-/

namespace ProtoSchema

namespace Yaml

/-- An event of a YAML stream. A tag is the full tag, as bytes. -/
inductive Event where
  | streamStart
  | streamEnd
  | documentStart
  | documentEnd
  | alias (name : String)
  | scalar (anchor : Option String) (tag : Option (List UInt8)) (text : String) (style : ScalarStyle)
  | sequenceStart (anchor : Option String) (tag : Option (List UInt8))
  | sequenceEnd
  | mappingStart (anchor : Option String) (tag : Option (List UInt8))
  | mappingEnd
  deriving Repr, Inhabited

/-- What the parser expects next. -/
inductive ParseState where
  | streamStart
  | implicitDocumentStart
  | documentStart
  | documentContent
  | documentEnd
  | blockNode
  | blockNodeOrIndentlessSequence
  | flowNode
  | blockSequenceFirstEntry
  | blockSequenceEntry
  | indentlessSequenceEntry
  | blockMappingFirstKey
  | blockMappingKey
  | blockMappingValue
  | flowSequenceFirstEntry
  | flowSequenceEntry
  | flowSequenceEntryMappingKey
  | flowSequenceEntryMappingValue
  | flowSequenceEntryMappingEnd
  | flowMappingFirstKey
  | flowMappingKey
  | flowMappingValue
  | flowMappingEmptyValue
  | finished
  deriving DecidableEq, Repr, Inhabited

def defaultTagHandles : List (String × List UInt8) :=
  [("!", [0x21]), ("!!", "tag:yaml.org,2002:".toUTF8.toList)]

def untilZero (bytes : List UInt8) : List UInt8 := bytes.takeWhile (· ≠ 0)

/-- The state of the parser: the tokens left, what it expects, what it will expect
after the current node, and the tag handles of the current document. -/
structure Parser where
  tokens : List Token
  state : ParseState := .streamStart
  states : List ParseState := []
  handles : List (String × List UInt8) := []
  deriving Inhabited

namespace Parser

def peek (p : Parser) : Token := p.tokens.headD .streamEnd

def next (p : Parser) : Parser := { p with tokens := p.tokens.drop 1 }

def goto (p : Parser) (st : ParseState) : Parser := { p with state := st }

def push (p : Parser) (st : ParseState) : Parser := { p with states := st :: p.states }

def pop (p : Parser) : Parser :=
  { p with state := p.states.headD .finished, states := p.states.drop 1 }

def emptyScalar : Event := .scalar none none "" .plain

def directives (p : Parser) : Except String Parser := go (p.tokens.length + 1) false [] p
where
  /-- At most `n` directives, after `versionSeen` and the handles `hs`. -/
  go : Nat → Bool → List (String × List UInt8) → Parser → Except String Parser
    | n + 1, versionSeen, hs, p =>
      match p.peek with
      | .versionDirective major minor =>
        if versionSeen then .error "found duplicate %YAML directive"
        else if major ≠ 1 || (minor ≠ 1 && minor ≠ 2) then .error "found incompatible YAML document"
        else go n true hs p.next
      | .tagDirective handle uri =>
        if hs.any (·.1 == handle) then .error "found duplicate %TAG directive"
        else go n versionSeen (hs ++ [(handle, uri)]) p.next
      | _ => .ok { p with handles := hs ++ defaultTagHandles.filter fun d => !hs.any (·.1 == d.1) }
    | 0, _, hs, p => .ok { p with handles := hs ++ defaultTagHandles.filter fun d => !hs.any (·.1 == d.1) }

def documentStart (implicit : Bool) (p : Parser) : Except String (Event × Parser) := do
  let p := if implicit then p else skipEnds (p.tokens.length + 1) p
  let opensExplicitly := match p.peek with
    | .versionDirective .. | .tagDirective .. | .documentStart | .streamEnd => true
    | _ => false
  if implicit && !opensExplicitly then
    let p ← directives p
    return (.documentStart, ((p.push .documentEnd).goto .blockNode))
  else match p.peek with
    | .streamEnd => return (.streamEnd, p.next.goto .finished)
    | _ =>
      let p ← directives p
      match p.peek with
      | .documentStart => return (.documentStart, ((p.push .documentEnd).next.goto .documentContent))
      | _ => throw "did not find expected <document start>"
where
  /-- Drop the document end markers at the front. -/
  skipEnds : Nat → Parser → Parser
    | 0, p => p
    | n + 1, p => match p.peek with
      | .documentEnd => skipEnds n p.next
      | _ => p

def documentContent (p : Parser) (node : Parser → Except String (Event × Parser)) :
    Except String (Event × Parser) :=
  match p.peek with
  | .versionDirective .. | .tagDirective .. | .documentStart | .documentEnd | .streamEnd =>
    .ok (emptyScalar, p.pop)
  | _ => node p

def documentEnd (p : Parser) : Event × Parser :=
  let p := match p.peek with
    | .documentEnd => p.next
    | _ => p
  (.documentEnd, { p with handles := [] }.goto .documentStart)

def properties (p : Parser) : Option String × Option (String × List UInt8) × Parser :=
  match p.peek with
  | .anchor a =>
    match p.next.peek with
    | .tag h s => (some a, some (h, s), p.next.next)
    | _ => (some a, none, p.next)
  | .tag h s =>
    match p.next.peek with
    | .anchor a => (some a, some (h, s), p.next.next)
    | _ => (none, some (h, s), p.next)
  | _ => (none, none, p)

def resolveTag (p : Parser) : String × List UInt8 → Except String (List UInt8)
  | (handle, suffix) =>
    if handle.isEmpty then .ok (untilZero suffix)
    else match p.handles.find? (·.1 == handle) with
      | some (_, pre) => .ok (untilZero pre ++ untilZero suffix)
      | none => .error "found undefined tag handle"

def node (block indentless : Bool) (p : Parser) : Except String (Event × Parser) := do
  match p.peek with
  | .alias name => return (.alias name, p.next.pop)
  | _ =>
    let (anchor, tagged, p) := properties p
    let tag ← match tagged with
      | none => pure none
      | some t => some <$> resolveTag p t
    let empty : Except String (Event × Parser) :=
      if anchor.isSome || tag.isSome then .ok (.scalar anchor tag "" .plain, p.pop)
      else .error "did not find expected node content"
    match p.peek with
    | .blockEntry =>
      if indentless then return (.sequenceStart anchor tag, p.goto .indentlessSequenceEntry) else empty
    | .scalar text style => return (.scalar anchor tag text style, p.next.pop)
    | .flowSequenceStart => return (.sequenceStart anchor tag, p.goto .flowSequenceFirstEntry)
    | .flowMappingStart => return (.mappingStart anchor tag, p.goto .flowMappingFirstKey)
    | .blockSequenceStart =>
      if block then return (.sequenceStart anchor tag, p.goto .blockSequenceFirstEntry) else empty
    | .blockMappingStart =>
      if block then return (.mappingStart anchor tag, p.goto .blockMappingFirstKey) else empty
    | _ => empty

def blockSequenceEntry (first : Bool) (p : Parser) : Except String (Event × Parser) :=
  let p := if first then p.next else p
  match p.peek with
  | .blockEntry =>
    let p := p.next
    match p.peek with
    | .blockEntry | .blockEnd => .ok (emptyScalar, p.goto .blockSequenceEntry)
    | _ => node true false (p.push .blockSequenceEntry)
  | .blockEnd => .ok (.sequenceEnd, p.next.pop)
  | _ => .error "did not find expected \x27-\x27 indicator"

def indentlessSequenceEntry (p : Parser) : Except String (Event × Parser) :=
  match p.peek with
  | .blockEntry =>
    let p := p.next
    match p.peek with
    | .blockEntry | .key | .value | .blockEnd => .ok (emptyScalar, p.goto .indentlessSequenceEntry)
    | _ => node true false (p.push .indentlessSequenceEntry)
  | _ => .ok (.sequenceEnd, p.pop)

def blockMappingKey (first : Bool) (p : Parser) : Except String (Event × Parser) :=
  let p := if first then p.next else p
  match p.peek with
  | .key =>
    let p := p.next
    match p.peek with
    | .key | .value | .blockEnd => .ok (emptyScalar, p.goto .blockMappingValue)
    | _ => node true true (p.push .blockMappingValue)
  | .blockEnd => .ok (.mappingEnd, p.next.pop)
  | _ => .error "did not find expected key"

def blockMappingValue (p : Parser) : Except String (Event × Parser) :=
  match p.peek with
  | .value =>
    let p := p.next
    match p.peek with
    | .key | .value | .blockEnd => .ok (emptyScalar, p.goto .blockMappingKey)
    | _ => node true true (p.push .blockMappingKey)
  | _ => .ok (emptyScalar, p.goto .blockMappingKey)

def flowSequenceEntry (first : Bool) (p : Parser) : Except String (Event × Parser) := do
  let p := if first then p.next else p
  match p.peek with
  | .flowSequenceEnd => return (.sequenceEnd, p.next.pop)
  | _ =>
    let p ← if first then pure p
      else match p.peek with
        | .flowEntry => pure p.next
        | _ => throw "did not find expected \x27,\x27 or \x27]\x27"
    match p.peek with
    | .key => return (.mappingStart none none, p.next.goto .flowSequenceEntryMappingKey)
    | .flowSequenceEnd => return (.sequenceEnd, p.next.pop)
    | _ => node false false (p.push .flowSequenceEntry)

def flowSequenceEntryMappingKey (p : Parser) : Except String (Event × Parser) :=
  match p.peek with
  | .value | .flowEntry | .flowSequenceEnd => .ok (emptyScalar, p.goto .flowSequenceEntryMappingValue)
  | _ => node false false (p.push .flowSequenceEntryMappingValue)

def flowSequenceEntryMappingValue (p : Parser) : Except String (Event × Parser) :=
  match p.peek with
  | .value =>
    let p := p.next
    match p.peek with
    | .flowEntry | .flowSequenceEnd => .ok (emptyScalar, p.goto .flowSequenceEntryMappingEnd)
    | _ => node false false (p.push .flowSequenceEntryMappingEnd)
  | _ => .ok (emptyScalar, p.goto .flowSequenceEntryMappingEnd)

def flowMappingKey (first : Bool) (p : Parser) : Except String (Event × Parser) := do
  let p := if first then p.next else p
  match p.peek with
  | .flowMappingEnd => return (.mappingEnd, p.next.pop)
  | _ =>
    let p ← if first then pure p
      else match p.peek with
        | .flowEntry => pure p.next
        | _ => throw "did not find expected \x27,\x27 or \x27\x7d\x27"
    match p.peek with
    | .key =>
      let p := p.next
      match p.peek with
      | .value | .flowEntry | .flowMappingEnd => return (emptyScalar, p.goto .flowMappingValue)
      | _ => node false false (p.push .flowMappingValue)
    | .flowMappingEnd => return (.mappingEnd, p.next.pop)
    | _ => node false false (p.push .flowMappingEmptyValue)

def flowMappingValue (empty : Bool) (p : Parser) : Except String (Event × Parser) :=
  if empty then .ok (emptyScalar, p.goto .flowMappingKey)
  else match p.peek with
    | .value =>
      let p := p.next
      match p.peek with
      | .flowEntry | .flowMappingEnd => .ok (emptyScalar, p.goto .flowMappingKey)
      | _ => node false false (p.push .flowMappingKey)
    | _ => .ok (emptyScalar, p.goto .flowMappingKey)

def step (p : Parser) : Except String (Event × Parser) :=
  match p.state with
  | .streamStart =>
    match p.peek with
    | .streamStart => .ok (.streamStart, p.next.goto .implicitDocumentStart)
    | _ => .error "did not find expected <stream-start>"
  | .implicitDocumentStart => documentStart true p
  | .documentStart => documentStart false p
  | .documentContent => documentContent p (node true false)
  | .documentEnd => .ok (documentEnd p)
  | .blockNode => node true false p
  | .blockNodeOrIndentlessSequence => node true true p
  | .flowNode => node false false p
  | .blockSequenceFirstEntry => blockSequenceEntry true p
  | .blockSequenceEntry => blockSequenceEntry false p
  | .indentlessSequenceEntry => indentlessSequenceEntry p
  | .blockMappingFirstKey => blockMappingKey true p
  | .blockMappingKey => blockMappingKey false p
  | .blockMappingValue => blockMappingValue p
  | .flowSequenceFirstEntry => flowSequenceEntry true p
  | .flowSequenceEntry => flowSequenceEntry false p
  | .flowSequenceEntryMappingKey => flowSequenceEntryMappingKey p
  | .flowSequenceEntryMappingValue => flowSequenceEntryMappingValue p
  | .flowSequenceEntryMappingEnd => .ok (.mappingEnd, p.goto .flowSequenceEntry)
  | .flowMappingFirstKey => flowMappingKey true p
  | .flowMappingKey => flowMappingKey false p
  | .flowMappingValue => flowMappingValue false p
  | .flowMappingEmptyValue => flowMappingValue true p
  | .finished => .error "the stream has ended"

def run : Nat → Parser → Array Event → Except String (Array Event)
  | 0, _, _ => .error "too many events"
  | n + 1, p, acc =>
    if p.state = .finished then .ok acc
    else do
      let (e, p) ← p.step
      run n p (acc.push e)

end Parser

/-- The events of a token stream. -/
def Event.parse (tokens : Array Token) : Except String (Array Event) :=
  Parser.run (8 * tokens.size + 16) { tokens := tokens.toList } #[]

end Yaml

end ProtoSchema
