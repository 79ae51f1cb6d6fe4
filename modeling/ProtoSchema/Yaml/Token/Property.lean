import ProtoSchema.Yaml.Token

/-!
Reading node properties and directives: anchor and alias names, tags, and
the `%YAML` and `%TAG` directives.

An anchor or alias name is a run of word characters, ended by a gap or by
one of `?:,]}%@` and the backquote. A tag is written `!<uri>` (verbatim),
`!handle!suffix`, or `!suffix` for the primary handle `!`; a lone `!` is the
non-specific tag. A tag character is a word character or one of
`;/?:@&=+$.%!~*'()`. A verbatim tag and a directive's tag also allow `,`, `[`
and `]`. A `%` with two hexadecimal digits stands for a byte, and these bytes
must form UTF-8 sequences by their lead and trailing bits. A `%YAML`
version has two numbers of at most nine digits each.

Main definitions: `Yaml.anchorName`, `Yaml.tagProperty` and `Yaml.directive`.
-/

namespace ProtoSchema

namespace Yaml

/-- Read an anchor or alias name after its `&` or `*`. -/
def anchorName (c : Cursor) : Except String (String × Cursor) :=
  let (name, c) := c.readWhile isWord
  let endsWell := c.gapAt 0 || c.test 0 fun ch =>
    ch = '?' || ch = ':' || ch = ',' || ch = ']' || ch = '\x7d' || ch = '%' || ch = '@' || ch = '\x60'
  if name.isEmpty || !endsWell then .error "did not find expected alphabetic or numeric character"
  else .ok (name, c)

def tagHandle (directive : Bool) (c : Cursor) : Except String (String × Cursor) :=
  if !c.check 0 '!' then .error "did not find expected \x27!\x27"
  else
    let (name, c) := c.skip.readWhile isWord
    let handle := "!" ++ name
    if c.check 0 '!' then .ok (handle ++ "!", c.skip)
    else if directive && handle ≠ "!" then .error "did not find expected \x27!\x27"
    else .ok (handle, c)

def isTagChar (flow : Bool) (ch : Char) : Bool :=
  isWord ch || ";/?:@&=+$.%!~*\x27()".contains ch || (flow && (ch = ',' || ch = '[' || ch = ']'))

def escapedOctet (c : Cursor) : Except String (UInt8 × Cursor) :=
  match c.at? 0, c.at? 1 >>= hexValue?, c.at? 2 >>= hexValue? with
  | some '%', some hi, some lo => .ok ((hi * 16 + lo).toUInt8, c.skipN 3)
  | _, _, _ => .error "did not find URI escaped octet"

def utf8Width (lead : UInt8) : Nat :=
  if lead &&& 0x80 = 0 then 1
  else if lead &&& 0xe0 = 0xc0 then 2
  else if lead &&& 0xf0 = 0xe0 then 3
  else if lead &&& 0xf8 = 0xf0 then 4
  else 0

def trailingOctets : Nat → List UInt8 → Cursor → Except String (List UInt8 × Cursor)
  | 0, acc, c => .ok (acc, c)
  | n + 1, acc, c => do
    let (o, c) ← escapedOctet c
    if o &&& 0xc0 ≠ 0x80 then throw "found an incorrect trailing UTF-8 octet"
    trailingOctets n (acc ++ [o]) c

def escapedSequence (c : Cursor) : Except String (List UInt8 × Cursor) := do
  let (lead, c) ← escapedOctet c
  let width := utf8Width lead
  if width = 0 then throw "found an incorrect leading UTF-8 octet"
  trailingOctets (width - 1) [lead] c

def tagChars (flow : Bool) : Nat → Nat → List UInt8 → Cursor → Except String (Nat × List UInt8 × Cursor)
  | 0, count, acc, c => .ok (count, acc, c)
  | n + 1, count, acc, c =>
    match c.at? 0 with
    | some ch =>
      if !isTagChar flow ch then .ok (count, acc, c)
      else if ch = '%' then do
        let (bytes, c) ← escapedSequence c
        tagChars flow n (count + 1) (acc ++ bytes) c
      else tagChars flow n (count + 1) (acc ++ ch.toString.toUTF8.toList) c.skip
    | none => .ok (count, acc, c)

def tagText (flow : Bool) (head : String) (c : Cursor) : Except String (List UInt8 × Cursor) := do
  let start := (head.drop 1).toString.toUTF8.toList
  let (count, bytes, c) ← tagChars flow (c.rest.length + 1) head.length start c
  if count = 0 then throw "did not find expected tag URI"
  return (bytes, c)

/-- Read a tag at its `!`: the handle and the suffix. Inside a flow collection it
may be followed by `,`; elsewhere only by a gap. -/
def tagProperty (inFlow : Bool) (c : Cursor) : Except String (String × List UInt8 × Cursor) := do
  let (handle, suffix, c) ← if c.check 1 '<' then do
      let (suffix, c) ← tagText true "" (c.skipN 2)
      if !c.check 0 '>' then throw "did not find the expected \x27>\x27"
      pure ("", suffix, c.skip)
    else do
      let (handle, c) ← tagHandle false c
      if handle.length > 1 && handle.endsWith "!" then
        let (suffix, c) ← tagText false "" c
        pure (handle, suffix, c)
      else
        let (suffix, c) ← tagText false handle c
        if suffix.isEmpty then pure ("", [0x21], c) else pure ("!", suffix, c)
  if !c.gapAt 0 && !(inFlow && c.check 0 ',') then throw "did not find expected whitespace or line break"
  return (handle, suffix, c)

def versionNumber (c : Cursor) : Except String (Nat × Cursor) :=
  let (digits, c) := c.readWhile Char.isDigit
  if digits.isEmpty then .error "did not find expected version number"
  else if digits.length > 9 then .error "found extremely long version number"
  else .ok (digits.foldl (fun n d => 10 * n + (d.toNat - 48)) 0, c)

def versionValue (c : Cursor) : Except String (Token × Cursor) := do
  let (major, c) ← versionNumber c.skipBlanks
  if !c.check 0 '.' then throw "did not find expected digit or \x27.\x27 character"
  let (minor, c) ← versionNumber c.skip
  return (.versionDirective major minor, c)

def tagDirectiveValue (c : Cursor) : Except String (Token × Cursor) := do
  let (handle, c) ← tagHandle true c.skipBlanks
  if !c.blankAt 0 then throw "did not find expected whitespace"
  let (uri, c) ← tagText true "" c.skipBlanks
  if !c.gapAt 0 then throw "did not find expected whitespace or line break"
  return (.tagDirective handle uri, c)

/-- Read a directive at its `%`, up to and including the end of its line. -/
def directive (c : Cursor) : Except String (Token × Cursor) := do
  let (name, c) := c.skip.readWhile isWord
  if name.isEmpty then throw "could not find expected directive name"
  if !c.gapAt 0 then throw "found unexpected non-alphabetical character"
  let (t, c) ← if name = "YAML" then versionValue c
    else if name = "TAG" then tagDirectiveValue c
    else throw "found unknown directive name"
  let c := c.skipBlanks.skipComment
  if !c.lineEndAt 0 then throw "did not find expected comment or line break"
  return (t, c.skipLine)

end Yaml

end ProtoSchema
