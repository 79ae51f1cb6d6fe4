import ProtoSchema.Source.Parser.Options

/-!
Messages, groups, oneofs, extend blocks and enums. A message body holds
fields, map fields, groups, oneofs, nested messages and enums, extend blocks,
`extensions`, `reserved` and options; which one a statement is follows from
its first tokens. Version rules are checked as the text is read: proto2
fields need a label, proto3 has no `required`, groups, extension ranges or
explicit defaults, and oneof members take no label.

The nested definitions carry a fuel argument: every step consumes a token
or descends into a block it has opened, so fuel proportional to the number
of tokens never runs out.

Main definitions: `Parser.message`, `Parser.extend`, `Parser.enum`.
-/

namespace ProtoSchema

namespace Parser

/-- Where a field is declared; it decides which labels and forms are allowed. -/
inductive FieldSite where
  | message
  | oneof
  | extend
  deriving DecidableEq, Repr

def label : Parser (Option (Spanned LabelKind)) := do
  let some tok ← peek | return none
  let kind? : Option LabelKind := match tok.kind with
    | .ident "optional" => some .optional
    | .ident "required" => some .required
    | .ident "repeated" => some .repeated
    | _ => none
  match kind? with
  | none => return none
  | some kind =>
    if ← isSymbolAt 1 '=' then return none
    else
      bump
      return some ⟨kind, tok.span⟩

def numberRange (signed : Bool) : Parser NumberRange := do
  let start ← if signed then signedInt "field number range" else unsignedInt "field number range"
  if ← isKeyword "to" then
    bump
    if ← isKeyword "max" then
      let m ← next
      return ⟨start, some ⟨none, m.span⟩, start.span.join m.span⟩
    else
      let e ← if signed then signedInt "integer" else unsignedInt "integer"
      return ⟨start, some ⟨some e.value, e.span⟩, start.span.join e.span⟩
  else return ⟨start, none, start.span⟩

def moreRanges (signed : Bool) : Nat → List NumberRange → Parser (List NumberRange)
  | 0, _ => outOfFuel
  | fuel + 1, acc => do
    if ← eatSymbol ',' then moreRanges signed fuel ((← numberRange signed) :: acc)
    else return acc.reverse

def rangeList (signed : Bool) : Parser (List NumberRange) := do
  let first ← numberRange signed
  moreRanges signed ((← remaining) + 1) [first]

def moreNames : Nat → List (Spanned String) → Parser (List (Spanned String))
  | 0, _ => outOfFuel
  | fuel + 1, acc => do
    if ← eatSymbol ',' then moreNames fuel ((← utf8String "field name") :: acc)
    else return acc.reverse

/-- A `reserved` statement: quoted names, or ranges (signed inside enums). -/
def reserved (inEnum : Bool) : Parser Reserved := do
  let start ← pos
  let _ ← expectKeyword "reserved"
  let isStr ← match ← peek with
    | some ⟨.str _, _, _, _, _, _⟩ => pure true
    | _ => pure false
  let kind ← if isStr then do
      let first ← utf8String "field name"
      pure (ReservedKind.names (← moreNames ((← remaining) + 1) [first]))
    else pure (ReservedKind.ranges (← rangeList inEnum))
  let _ ← expectSymbol ';'
  return ⟨kind, ← decl start⟩

def extensionRanges : Parser ExtensionRanges := do
  let start ← pos
  let kw ← expectKeyword "extensions"
  if (← dialect) = .proto3 then failAt kw.span "Extension ranges are not allowed in proto3."
  let ranges ← rangeList false
  let options ← compactOptions
  let _ ← expectSymbol ';'
  return ⟨ranges, options, ← decl start⟩

def enumBody : Nat → List EnumElement → Parser (List EnumElement)
  | 0, _ => outOfFuel
  | fuel + 1, acc => do
    if ← eatSymbol '\x7d' then return acc.reverse
    if (← peek).isNone then
      failHere "Reached end of input in enum definition (missing \x27\x7d\x27)."
    if ← eatSymbol ';' then return ← enumBody fuel acc
    if (← isKeyword "option") && !(← isSymbolAt 1 '=') then
      return ← enumBody fuel (.option (← optionStatement) :: acc)
    if (← isKeyword "reserved") && !(← isSymbolAt 1 '=') then
      return ← enumBody fuel (.reserved (← reserved true) :: acc)
    let start ← pos
    let name ← ident "enum constant name"
    let _ ← expectSymbol '='
    let number ← signedInt "integer"
    let options ← compactOptions
    let _ ← expectSymbol ';'
    enumBody fuel (.value ⟨name, number, options, ← decl start⟩ :: acc)

/-- An enum. -/
def enum : Parser Enum := do
  let start ← pos
  let _ ← expectKeyword "enum"
  let name ← ident "enum name"
  let _ ← expectSymbol '\x7b'
  let body ← enumBody ((← remaining) + 1) []
  return ⟨name, body, ← decl start⟩

def mapField : Parser MapField := do
  let start ← pos
  let kw ← expectKeyword "map"
  let _ ← expectSymbol '<'
  let keyType ← typeName
  let _ ← expectSymbol ','
  let valueType ← typeName
  let close ← expectSymbol '>'
  let name ← ident "field name"
  let _ ← expectSymbol '='
  let number ← unsignedInt "field number"
  let options ← compactOptions
  let _ ← expectSymbol ';'
  return ⟨keyType, valueType, kw.span.join close.span, name, number, options, ← decl start⟩

def defaultOption? (options : List OptionDecl) : Option OptionDecl :=
  options.find? (·.simpleName? == some "default")

def plainField (start : Nat) (lbl : Option (Spanned LabelKind)) : Parser Field := do
  let ty ← typeName
  let name ← ident "field name"
  let _ ← expectSymbol '='
  let number ← unsignedInt "field number"
  let options ← compactOptions
  if (← dialect) = .proto3 then
    if let some d := defaultOption? options then
      failAt d.nameSpan "Explicit default values are not allowed in proto3."
  let _ ← expectSymbol ';'
  return ⟨lbl, ty, name, number, options, ← decl start⟩

def checkLabel (site : FieldSite) (lbl : Option (Spanned LabelKind)) : Parser Unit := do
  match lbl with
  | some l =>
    if site = .oneof then
      failAt l.span "Fields in oneofs must not have labels (required / optional / repeated)."
    if (← dialect) = .proto3 ∧ l.value = .required then
      failAt l.span "Required fields are not allowed in proto3."
  | none => pure ()

def misplacedMapMessage : FieldSite → String
  | .oneof => "Map fields are not allowed in oneofs."
  | .extend => "Map fields are not allowed to be extensions."
  | .message => "Field labels (required/optional/repeated) are not allowed on map fields."

def missingLabelMessage : String := "Expected \"required\", \"optional\", or \"repeated\"."

mutual

def messageBlock : Nat → Parser (List MessageElement)
  | 0 => outOfFuel
  | fuel + 1 => do
    let _ ← expectSymbol '\x7b'
    messageBody fuel []

def messageBody : Nat → List MessageElement → Parser (List MessageElement)
  | 0, _ => outOfFuel
  | fuel + 1, acc => do
    if ← eatSymbol '\x7d' then return acc.reverse
    if (← peek).isNone then
      failHere "Reached end of input in message definition (missing \x27\x7d\x27)."
    if ← eatSymbol ';' then return ← messageBody fuel acc
    let el ← messageElement fuel
    messageBody fuel (el :: acc)

def messageElement : Nat → Parser MessageElement
  | 0 => outOfFuel
  | fuel + 1 => do
    let notAssign := !(← isSymbolAt 1 '=')
    if (← isKeyword "message") && (← isIdentAt 1) then return .message (← message fuel)
    if (← isKeyword "enum") && (← isIdentAt 1) then return .enum (← enum)
    if (← isKeyword "extend") && notAssign then return .extend (← extend fuel)
    if (← isKeyword "extensions") && notAssign then return .extensions (← extensionRanges)
    if (← isKeyword "reserved") && notAssign then return .reserved (← reserved false)
    if (← isKeyword "option") && notAssign then return .option (← optionStatement)
    if (← isKeyword "oneof") && (← isIdentAt 1) && (← isSymbolAt 2 '\x7b') then
      return .oneof (← oneof fuel)
    if (← isKeyword "map") && (← isSymbolAt 1 '<') then return .map (← mapField)
    match ← fieldOrGroup fuel .message with
    | .field f => return .field f
    | .group g => return .group g

/-- A message. -/
def message : Nat → Parser Message
  | 0 => outOfFuel
  | fuel + 1 => do
    let start ← pos
    let _ ← expectKeyword "message"
    let name ← ident "message name"
    let body ← messageBlock fuel
    return .mk name body (← decl start)

def fieldOrGroup : Nat → FieldSite → Parser ExtendElement
  | 0, _ => outOfFuel
  | fuel + 1, site => do
    let start ← pos
    let lbl ← label
    checkLabel site lbl
    if (← isKeyword "map") && (← isSymbolAt 1 '<') then failHere (misplacedMapMessage site)
    if (← isKeyword "group") && (← isIdentAt 1) && (← isSymbolAt 2 '=') then
      return .group (← group fuel start lbl site)
    if lbl.isNone ∧ site ≠ .oneof ∧ (← dialect) = .proto2 then failHere missingLabelMessage
    return .field (← plainField start lbl)

def group : Nat → Nat → Option (Spanned LabelKind) → FieldSite → Parser Group
  | 0, _, _, _ => outOfFuel
  | fuel + 1, start, lbl, site => do
    let kw ← expectKeyword "group"
    if (← dialect) = .proto3 then failAt kw.span "Groups are not supported in proto3 syntax."
    if lbl.isNone ∧ site ≠ .oneof then failAt kw.span missingLabelMessage
    let name ← ident "group name"
    if !(name.value.toList.head?.map Char.isUpper).getD false then
      failAt name.span "Group names must start with a capital letter."
    let _ ← expectSymbol '='
    let number ← unsignedInt "field number"
    let options ← compactOptions
    let body ← messageBlock fuel
    return .mk lbl kw.span name number options body (← decl start)

def oneofBody : Nat → List OneofElement → Parser (List OneofElement)
  | 0, _ => outOfFuel
  | fuel + 1, acc => do
    if ← eatSymbol '\x7d' then return acc.reverse
    if (← peek).isNone then
      failHere "Reached end of input in oneof definition (missing \x27\x7d\x27)."
    if ← eatSymbol ';' then return ← oneofBody fuel acc
    if (← isKeyword "option") && !(← isSymbolAt 1 '=') then
      return ← oneofBody fuel (.option (← optionStatement) :: acc)
    match ← fieldOrGroup fuel .oneof with
    | .field f => oneofBody fuel (.field f :: acc)
    | .group g => oneofBody fuel (.group g :: acc)

def oneof : Nat → Parser Oneof
  | 0 => outOfFuel
  | fuel + 1 => do
    let start ← pos
    let _ ← expectKeyword "oneof"
    let name ← ident "oneof name"
    let _ ← expectSymbol '\x7b'
    let body ← oneofBody fuel []
    return .mk name body (← decl start)

def extendBody : Nat → List ExtendElement → Parser (List ExtendElement)
  | 0, _ => outOfFuel
  | fuel + 1, acc => do
    if ← eatSymbol '\x7d' then return acc.reverse
    if (← peek).isNone then
      failHere "Reached end of input in extend definition (missing \x27\x7d\x27)."
    if ← eatSymbol ';' then return ← extendBody fuel acc
    let el ← fieldOrGroup fuel .extend
    extendBody fuel (el :: acc)

/-- An extend block. -/
def extend : Nat → Parser Extend
  | 0 => outOfFuel
  | fuel + 1 => do
    let start ← pos
    let _ ← expectKeyword "extend"
    let extendee ← typeName
    let _ ← expectSymbol '\x7b'
    let body ← extendBody fuel []
    return .mk extendee body (← decl start)

end

def fuelForRest : Parser Nat := do
  return 4 * (← remaining) + 16

end Parser

end ProtoSchema
