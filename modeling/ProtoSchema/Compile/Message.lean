import ProtoSchema.Compile.Enum
import ProtoSchema.SymbolTable.Collect

/-!
Messages: fields, map fields with their entry messages, groups with their
messages, oneofs, nested messages and enums, extend blocks, extension and
reserved ranges, reserved names and options, each in the order written. A
proto3 `optional` field gets a oneof of its own, named after it, after every
written oneof. A message is checked for field numbers used twice or inside a
reserved or extension range, reserved field names, and in proto3 for two
fields with the same JSON name up to case.

Main definitions: `CompileM.message` and `CompileM.extendBlock`.
-/

namespace ProtoSchema

def optionsMessageNames : List String :=
  ["google.protobuf.FileOptions", "google.protobuf.MessageOptions", "google.protobuf.FieldOptions",
   "google.protobuf.OneofOptions", "google.protobuf.ExtensionRangeOptions",
   "google.protobuf.EnumOptions", "google.protobuf.EnumValueOptions",
   "google.protobuf.ServiceOptions", "google.protobuf.MethodOptions"]

namespace CompileM

/-- What a message body builds, with what checking the message needs. -/
structure MessageBuild where
  fields : Array FieldDescriptor := #[]
  nested : Array MessageDescriptor := #[]
  enums : Array EnumDescriptor := #[]
  ranges : Array ExtensionRange := #[]
  extensions : Array FieldDescriptor := #[]
  oneofs : Array OneofDescriptor := #[]
  reservedRanges : Array ReservedRange := #[]
  reservedNames : Array String := #[]
  /-- Number, name and number span of every field that is not an extension. -/
  numbered : Array (Int × String × Span) := #[]
  /-- Indices of the proto3 `optional` fields written directly in the message. -/
  proto3Optional : Array Nat := #[]
  optionDecls : Array OptionDecl := #[]
  deriving Inhabited

def freshName (taken : List String) : Nat → String → String
  | 0, name => name
  | fuel + 1, name => if taken.contains name then freshName taken fuel ("X" ++ name) else name

def syntheticOneofs (fields : Array FieldDescriptor) (oneofs : Array OneofDescriptor)
    (indices : List Nat) : Array FieldDescriptor × Array OneofDescriptor :=
  let taken := fields.toList.filterMap (·.name) ++ oneofs.toList.filterMap (·.name)
  let (fields, oneofs, _) := indices.foldl (fun (fields, oneofs, taken) i =>
    let fieldName := (fields[i]?.bind (·.name)).getD ""
    let base := if fieldName.startsWith "_" then fieldName else "_" ++ fieldName
    let name := freshName taken (taken.length + 1) base
    let fields := fields.modify i fun f => { f with oneofIndex := some oneofs.size }
    (fields, oneofs.push { name := some name }, name :: taken)) (fields, oneofs, taken)
  (fields, oneofs)

def validateMessage (full : String) (fields : List FieldDescriptor) (reserved : List ReservedRange)
    (reservedNames : List String) (ranges : List ExtensionRange) (numbered : List (Int × String × Span)) :
    CompileM Unit := do
  let _ ← numbered.foldlM (fun (byNumber : List (Int × String)) (number, name, span) => do
    let byNumber ← match byNumber.find? (·.1 = number) with
      | some (_, previous) => do
        report span ("Field number " ++ toString number ++ " has already been used in \"" ++ full ++
          "\" by field \"" ++ previous ++ "\".")
        pure byNumber
      | none => pure (byNumber ++ [(number, name)])
    for r in reserved do
      if r.start.getD 0 ≤ number && number < r.stop.getD 0 then
        report span ("Field \"" ++ name ++ "\" uses reserved number " ++ toString number ++ ".")
    if reservedNames.contains name then
      report span ("Field name \"" ++ name ++ "\" is reserved.")
    for r in ranges do
      let start := r.start.getD 0
      let stop := r.stop.getD 0
      if start ≤ number && number < stop then
        report span ("Extension range " ++ toString start ++ " to " ++ toString (stop - 1) ++
          " includes field \"" ++ name ++ "\" (" ++ toString number ++ ").")
    return byNumber) []
  if (← read).proto3 then
    let _ ← fields.foldlM (fun (byJson : List (String × String)) f => do
      let name := f.name.getD ""
      let key := String.map asciiLower (jsonName name)
      match byJson.find? (·.1 = key) with
      | some (_, previous) =>
        let span := ((numbered.find? (·.2.1 = name)).map (·.2.2)).getD {}
        report span ("The JSON camel-case name of field \"" ++ name ++ "\" conflicts with field \"" ++
          previous ++ "\". This is not allowed in proto3.")
        return byJson
      | none => return byJson ++ [(key, name)]) []

def startMessage (path : List Int) (decl : Declaration) (name : Spanned String) : CompileM Unit := do
  locateDecl path decl
  locate (path ++ [1]) name.span

def finishMessage (path : List Int) (full : String) (name : Spanned String) (b : MessageBuild) :
    CompileM MessageDescriptor := do
  let options ← interpretOptions messageOptions (path ++ [7]) full b.optionDecls.toList
  let (fields, oneofs) := if b.proto3Optional.isEmpty then (b.fields, b.oneofs)
    else syntheticOneofs b.fields b.oneofs b.proto3Optional.toList
  validateMessage full fields.toList b.reservedRanges.toList b.reservedNames.toList b.ranges.toList
    b.numbered.toList
  return .mk (some name.value) fields.toList b.nested.toList b.enums.toList b.ranges.toList
    b.extensions.toList options oneofs.toList b.reservedRanges.toList b.reservedNames.toList

def startExtend (path : List Int) (scope : String) (extendee : Spanned String) (decl : Declaration) :
    CompileM (Option (String × Symbol)) := do
  locateDecl path decl
  let resolved ← resolveMessage extendee (qualify scope "extend")
  if let some (full, _) := resolved then
    if (← read).proto3 && !optionsMessageNames.contains full then
      report extendee.span "Extensions in proto3 are only allowed for defining options."
  return resolved

def finishExtension (path : List Int) (extendeeSpan : Span) (extendee : Option (String × Symbol))
    (fd : FieldDescriptor) (number : Spanned Int) : CompileM FieldDescriptor := do
  locate (path ++ [2]) extendeeSpan
  match extendee with
  | none => return fd
  | some (full, s) =>
    if let .message ranges := s.info then
      if !ranges.any fun (start, stop) => start ≤ number.value && number.value < stop then
        report number.span ("\"" ++ full ++ "\" does not declare " ++ toString number.value ++
          " as an extension number.")
    return { fd with extendee := some ("." ++ full) }

def extensionRanges (path : List Int) (full : String) (r : ExtensionRanges) (b : MessageBuild) :
    CompileM MessageBuild := do
  locateDecl (path ++ [5]) r.decl
  let first := b.ranges.size
  let b ← r.ranges.foldlM (fun b range => do
    rangeLocations (path ++ [5, (b.ranges.size : Int)]) range
    let (start, stop) := range.bounds
    checkRange range start stop (maxFieldNumber + 1) "Extension"
    let er : ExtensionRange := { start := some (wrapInt32 start), stop := some (wrapInt32 stop) }
    return { b with ranges := b.ranges.push er }) b
  if r.options.isEmpty then return b
  (List.range (b.ranges.size - first)).foldlM (fun b k => do
    let index := first + k
    let options ← interpretOptions extensionRangeOptions (path ++ [5, (index : Int), 3]) full r.options
    return { b with ranges := b.ranges.modify index fun x => { x with options } }) b

def reservedOf (path : List Int) (r : Reserved) (b : MessageBuild) : CompileM MessageBuild := do
  match r.kind with
  | .ranges rs =>
    locateDecl (path ++ [9]) r.decl
    rs.foldlM (fun b range => do
      rangeLocations (path ++ [9, (b.reservedRanges.size : Int)]) range
      let (start, stop) := range.bounds
      checkRange range start stop (maxFieldNumber + 1) "Reserved"
      let rr : ReservedRange := { start := some (wrapInt32 start), stop := some (wrapInt32 stop) }
      return { b with reservedRanges := b.reservedRanges.push rr }) b
  | .names ns =>
    locateDecl (path ++ [10]) r.decl
    ns.foldlM (fun b n => do
      locate (path ++ [10, (b.reservedNames.size : Int)]) n.span
      return { b with reservedNames := b.reservedNames.push n.value }) b

mutual

def elements (path : List Int) (full : String) : List MessageElement → MessageBuild → CompileM MessageBuild
  | [], b => return b
  | e :: rest, b => do
    let b ← element path full e b
    elements path full rest b

def element (path : List Int) (full : String) : MessageElement → MessageBuild → CompileM MessageBuild
  | .field f, b => do
    let index := b.fields.size
    let fd ← plainField (path ++ [2, (index : Int)]) full f .message
    let b := if fd.proto3Optional = some true then { b with proto3Optional := b.proto3Optional.push index }
      else b
    return { b with fields := b.fields.push fd,
                    numbered := b.numbered.push (f.number.value, f.name.value, f.number.span) }
  | .map m, b => do
    let (fd, entry) ← mapField (path ++ [2, (b.fields.size : Int)]) (path ++ [3, (b.nested.size : Int)]) full m
    return { b with fields := b.fields.push fd, nested := b.nested.push entry,
                    numbered := b.numbered.push (m.number.value, m.name.value, m.number.span) }
  | .group g, b => do
    let (fd, nested) ← group (path ++ [2, (b.fields.size : Int)]) (path ++ [3, (b.nested.size : Int)]) full
      .message g
    return { b with fields := b.fields.push fd, nested := b.nested.push nested,
                    numbered := b.numbered.push (g.number.value, groupFieldName g.name.value, g.number.span) }
  | .oneof (.mk name body decl), b => do
    let index := b.oneofs.size
    let opath := path ++ [8, (index : Int)]
    locateDecl opath decl
    locate (opath ++ [1]) name.span
    let decls := body.filterMap fun
      | .option o => some o
      | _ => none
    let options ← interpretOptions oneofOptions (opath ++ [2]) (qualify full name.value) decls
    let b := { b with oneofs := b.oneofs.push { name := some name.value, options } }
    let (b, members) ← oneofMembers path full index body (b, 0)
    if members = 0 then report name.span "Oneof must have at least one field."
    return b
  | .message (.mk name body decl), b => do
    let mpath := path ++ [3, (b.nested.size : Int)]
    let mfull := qualify full name.value
    startMessage mpath decl name
    let mb ← elements mpath mfull body {}
    let m ← finishMessage mpath mfull name mb
    return { b with nested := b.nested.push m }
  | .enum e, b => do
    let d ← enumeration (path ++ [4, (b.enums.size : Int)]) full e
    return { b with enums := b.enums.push d }
  | .extend (.mk extendee body decl), b => do
    let resolved ← startExtend (path ++ [6]) full extendee decl
    let (exts, types) ← extendMembers (path ++ [6]) (path ++ [3]) full extendee.span resolved body
      (b.extensions, b.nested)
    return { b with extensions := exts, nested := types }
  | .extensions r, b => extensionRanges path full r b
  | .reserved r, b => reservedOf path r b
  | .option o, b => return { b with optionDecls := b.optionDecls.push o }

def group (fieldPath typePath : List Int) (scope : String) (site : FieldSite) :
    Group → CompileM (FieldDescriptor × MessageDescriptor)
  | .mk label keywordSpan name number options body decl => do
    let fieldName := groupFieldName name.value
    let fd ← fieldShell fieldPath label fieldName name.span number decl site
    let typeName := "." ++ qualify scope name.value
    let fd := { fd with type := some FieldType.group.number, typeName := some typeName }
    locate (fieldPath ++ [5]) keywordSpan
    locate (fieldPath ++ [6]) name.span
    let fd ← fieldOptionsOf fieldPath fd (qualify scope fieldName) options
      (some ⟨.group, some typeName, none⟩) site
    let mfull := qualify scope name.value
    startMessage typePath decl name
    let mb ← elements typePath mfull body {}
    let m ← finishMessage typePath mfull name mb
    return (fd, m)

def oneofMembers (path : List Int) (full : String) (index : Nat) :
    List OneofElement → MessageBuild × Nat → CompileM (MessageBuild × Nat)
  | [], acc => return acc
  | .field f :: rest, (b, n) => do
    let fd ← plainField (path ++ [2, (b.fields.size : Int)]) full f (.oneof index)
    let b := { b with fields := b.fields.push fd,
                      numbered := b.numbered.push (f.number.value, f.name.value, f.number.span) }
    oneofMembers path full index rest (b, n + 1)
  | .group g :: rest, (b, n) => do
    let (fd, nested) ← group (path ++ [2, (b.fields.size : Int)]) (path ++ [3, (b.nested.size : Int)]) full
      (.oneof index) g
    let b := { b with fields := b.fields.push fd, nested := b.nested.push nested,
                      numbered := b.numbered.push (g.number.value, groupFieldName g.name.value, g.number.span) }
    oneofMembers path full index rest (b, n + 1)
  | .option _ :: rest, acc => oneofMembers path full index rest acc

def extendMembers (extBase typeBase : List Int) (scope : String) (extendeeSpan : Span)
    (extendee : Option (String × Symbol)) :
    List ExtendElement → Array FieldDescriptor × Array MessageDescriptor →
      CompileM (Array FieldDescriptor × Array MessageDescriptor)
  | [], acc => return acc
  | .field f :: rest, (exts, types) => do
    let epath := extBase ++ [(exts.size : Int)]
    let fd ← plainField epath scope f .extension
    let fd ← finishExtension epath extendeeSpan extendee fd f.number
    extendMembers extBase typeBase scope extendeeSpan extendee rest (exts.push fd, types)
  | .group g :: rest, (exts, types) => do
    let epath := extBase ++ [(exts.size : Int)]
    let (fd, nested) ← group epath (typeBase ++ [(types.size : Int)]) scope .extension g
    let fd ← finishExtension epath extendeeSpan extendee fd g.number
    extendMembers extBase typeBase scope extendeeSpan extendee rest (exts.push fd, types.push nested)

end

/-- A top-level message at `path` in the package `scope`. -/
def message (path : List Int) (scope : String) : Message → CompileM MessageDescriptor
  | .mk name body decl => do
    let full := qualify scope name.value
    startMessage path decl name
    let b ← elements path full body {}
    finishMessage path full name b

/-- A top-level extend block in the package `scope`: extensions at `extBase` and group
messages at `typeBase`, added to `acc`. -/
def extendBlock (extBase typeBase : List Int) (scope : String) (x : Extend)
    (acc : Array FieldDescriptor × Array MessageDescriptor) :
    CompileM (Array FieldDescriptor × Array MessageDescriptor) :=
  match x with
  | .mk extendee body decl => do
    let resolved ← startExtend extBase scope extendee decl
    extendMembers extBase typeBase scope extendee.span resolved body acc

end CompileM

end ProtoSchema
