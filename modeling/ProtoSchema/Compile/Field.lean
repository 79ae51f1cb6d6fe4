import ProtoSchema.Compile.Options
import ProtoSchema.Compile.DefaultValue
import ProtoSchema.SymbolTable.Basic

/-!
Fields: their number (positive, at most `2 ^ 29 - 1`, and outside the range
kept for the implementation unless an extension), label, JSON name, type and
options, including the two pseudo-options `default` and `json_name`. A map
field is a repeated field of a generated entry message with a key and a value
field; its key may not be a floating, bytes, message or enum type.

Main definitions: `FieldSite`, `CompileM.plainField`, `CompileM.mapField`,
`CompileM.fieldShell` and `CompileM.fieldOptionsOf`.
-/

namespace ProtoSchema

def maxFieldNumber : Int := 536870911

/-- Where a field is declared. -/
inductive FieldSite where
  | message
  | oneof (index : Int)
  | extension
  deriving DecidableEq, Repr, Inhabited

def FieldSite.isExtension : FieldSite → Bool
  | .extension => true
  | _ => false

def clampInt32 (n : Int) : Int := max (-(Int.pow 2 31)) (min n (Int.pow 2 31 - 1))

def OptionDecl.isPseudo (d : OptionDecl) : Bool :=
  d.simpleName? = some "default" || d.simpleName? = some "json_name"

def LabelKind.toFieldLabel : LabelKind → FieldLabel
  | .optional => .optional
  | .required => .required
  | .repeated => .repeated

namespace CompileM

def fieldNumber (number : Spanned Int) (site : FieldSite) : CompileM Int := do
  let n := number.value
  if n ≤ 0 then report number.span "Field numbers must be positive integers."
  else if n > maxFieldNumber then
    report number.span ("Field numbers cannot be greater than " ++ toString maxFieldNumber ++ ".")
  else if !site.isExtension && 19000 ≤ n && n ≤ 19999 then
    report number.span ("Field numbers 19000 through 19999 are reserved for the protocol buffer " ++
      "library implementation.")
  return clampInt32 n

/-- The name, number, label, JSON name and site of a field; the type is the caller's. -/
def fieldShell (path : List Int) (label : Option (Spanned LabelKind)) (name : String)
    (nameSpan : Span) (number : Spanned Int) (decl : Declaration) (site : FieldSite) :
    CompileM FieldDescriptor := do
  locateDecl path decl
  let n ← fieldNumber number site
  let labelKind ← match label with
    | some l =>
      locate (path ++ [4]) l.span
      pure l.value.toFieldLabel
    | none => pure FieldLabel.optional
  let proto3 := (← read).proto3
  let optional3 := proto3 && label.map (·.value) == some LabelKind.optional && !site.isExtension
  let oneofIndex := match site with
    | .oneof i => some i
    | _ => none
  locate (path ++ [1]) nameSpan
  locate (path ++ [3]) number.span
  return { name := some name, number := some n, jsonName := some (jsonName name),
           label := some labelKind.number, proto3Optional := if optional3 then some true else none,
           oneofIndex }

def defaultOption (path : List Int) (fd : FieldDescriptor) (resolved : Option ResolvedType)
    (decl : OptionDecl) : CompileM FieldDescriptor := do
  locate (path ++ [7]) decl.value.span
  if fd.label = some FieldLabel.repeated.number then
    report decl.nameSpan "Repeated fields can\x27t have default values."
    return fd
  match resolved with
  | none => return fd
  | some ft =>
    let enumValues := match ft.symbol.map (·.info) with
      | some (.enum values) => some values
      | _ => none
    match defaultValueText ft.type decl.value.value enumValues with
    | .ok v => return { fd with defaultValue := some v }
    | .error message =>
      report decl.value.span message
      return fd

def jsonNameOption (path : List Int) (fd : FieldDescriptor) (decl : OptionDecl) :
    CompileM FieldDescriptor := do
  locate (path ++ [10]) decl.value.span
  match decl.value.value with
  | .str bs => return { fd with jsonName := some (Utf8.decodeLossy bs) }
  | _ =>
    report decl.value.span "Expected string for JSON name."
    return fd

def pseudoOptions (path : List Int) (resolved : Option ResolvedType) (site : FieldSite) :
    List OptionDecl → FieldDescriptor × Bool × Bool → CompileM (FieldDescriptor × Bool × Bool)
  | [], acc => return acc
  | d :: rest, (fd, defaultSeen, jsonSeen) => do
    if d.simpleName? = some "default" then
      if defaultSeen then
        report d.nameSpan "Already set option \"default\"."
        pseudoOptions path resolved site rest (fd, defaultSeen, jsonSeen)
      else
        let fd ← defaultOption path fd resolved d
        pseudoOptions path resolved site rest (fd, true, jsonSeen)
    else if d.simpleName? = some "json_name" then
      if jsonSeen then
        report d.nameSpan "Already set option \"json_name\"."
        pseudoOptions path resolved site rest (fd, defaultSeen, jsonSeen)
      else if site.isExtension then
        report d.nameSpan "option json_name is not allowed on extension fields."
        pseudoOptions path resolved site rest (fd, defaultSeen, true)
      else
        let fd ← jsonNameOption path fd d
        pseudoOptions path resolved site rest (fd, defaultSeen, true)
    else pseudoOptions path resolved site rest (fd, defaultSeen, jsonSeen)

/-- The options of a field: the pseudo-options, then the standard and custom ones;
`packed` is only for repeated fields of a scalar type other than string and bytes. -/
def fieldOptionsOf (path : List Int) (fd : FieldDescriptor) (fieldFull : String)
    (decls : List OptionDecl) (resolved : Option ResolvedType) (site : FieldSite) :
    CompileM FieldDescriptor := do
  let (fd, _, _) ← pseudoOptions path resolved site (decls.filter OptionDecl.isPseudo) (fd, false, false)
  let options ← interpretOptions fieldOptions (path ++ [8]) fieldFull (decls.filter (!·.isPseudo))
  if let some o := options then
    if o.packed.isSome then
      let packable := fd.label = some FieldLabel.repeated.number &&
        resolved.any fun ft => !(ft.type = .string || ft.type = .bytes || ft.type = .message ||
          ft.type = .group)
      if !packable then
        let span := ((decls.find? (·.simpleName? = some "packed")).map (·.nameSpan)).getD {}
        report span "[packed = true] can only be specified for repeated primitive fields."
  return { fd with options }

/-- A field of a message, oneof or extend block in the scope `scope`. -/
def plainField (path : List Int) (scope : String) (field : Field) (site : FieldSite) :
    CompileM FieldDescriptor := do
  let fd ← fieldShell path field.label field.name.value field.name.span field.number field.decl site
  let fieldFull := qualify scope field.name.value
  locate (path ++ [if isScalarTypeName field.typeName.value then 5 else 6]) field.typeName.span
  let resolved ← fieldType field.typeName fieldFull
  let fd ← match resolved with
    | none => pure fd
    | some ft => do
      if ft.type = .enum && (← read).proto3 && !site.isExtension then
        if let some s := ft.symbol then
          let files := (← read).files
          if (files[s.file]?.map (·.schema.dialect)) = some Dialect.proto2 then
            let shown := String.ofList ((ft.typeName.getD "").toList.dropWhile (· = '.'))
            report field.typeName.span ("Enum type \"" ++ shown ++ "\" is not a proto3 enum, but is used in \"" ++
              scope ++ "\" which is a proto3 message type.")
      pure { fd with type := some ft.type.number, typeName := ft.typeName }
  fieldOptionsOf path fd fieldFull field.options resolved site

def entryField (name : String) (number : Int) (type : Option FieldType) (typeName : Option String) :
    FieldDescriptor :=
  { name := some name, number := some number, label := some FieldLabel.optional.number,
    type := type.map FieldType.number, typeName, jsonName := some name }

/-- A map field and its entry message, declared in the message `scope`. -/
def mapField (fieldPath entryPath : List Int) (scope : String) (m : MapField) :
    CompileM (FieldDescriptor × MessageDescriptor) := do
  let fd ← fieldShell fieldPath none m.name.value m.name.span m.number m.decl .message
  let fieldFull := qualify scope m.name.value
  let entryName := mapEntryName m.name.value
  let fd := { fd with label := some FieldLabel.repeated.number, type := some FieldType.message.number,
                      typeName := some ("." ++ qualify scope entryName) }
  locate (fieldPath ++ [6]) m.typeSpan
  let keyType ← match ← fieldType m.keyType fieldFull with
    | some ft => do
      match ft.type with
      | .float | .double | .bytes | .message | .group =>
        report m.keyType.span "Key in map fields cannot be float/double, bytes or message types."
      | .enum => report m.keyType.span "Key in map fields cannot be enum types."
      | _ => pure ()
      pure (some ft.type)
    | none => pure none
  let valueType ← fieldType m.valueType fieldFull
  let entry : MessageDescriptor := .mk (some entryName)
    [entryField "key" 1 keyType none,
     entryField "value" 2 (valueType.map (·.type)) (valueType.bind (·.typeName))]
    [] [] [] [] (some { mapEntry := some true }) [] [] []
  locate entryPath m.decl.span
  let fd ← fieldOptionsOf fieldPath fd fieldFull m.options none .message
  return (fd, entry)

def rangeLocations (path : List Int) (r : NumberRange) : CompileM Unit := do
  locate path r.span
  locate (path ++ [1]) r.start.span
  locate (path ++ [2]) ((r.stop.map (·.span)).getD r.start.span)

def checkRange (r : NumberRange) (start stop limit : Int) (what : String) : CompileM Unit := do
  if start ≤ 0 then report r.start.span (what ++ " numbers must be positive integers.")
  else if stop > limit then
    report ((r.stop.map (·.span)).getD r.start.span)
      (what ++ " numbers cannot be greater than " ++ toString (limit - 1) ++ ".")
  else if stop ≤ start then
    report r.span (what ++ " range end number must be greater than start number.")

end CompileM

end ProtoSchema
