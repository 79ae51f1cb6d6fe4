import ProtoSchema.Descriptor.Basic
import ProtoSchema.Wire.Field

/-!
Reading descriptors from their binary form. Fields are read in the order
they come: a singular scalar keeps its last value, a repeated field gathers
its values (packed or not), and an embedded message read twice merges the
second into the first. Fields of unknown number are skipped. Messages nest
at most `decodeBudget` levels deep.

Main definitions: `FileDescriptor.merge` and the `merge` of every
other descriptor message.
-/

namespace ProtoSchema

open Wire

/-- How many levels of embedded messages a decode may enter. -/
def decodeBudget : Nat := 100

def mergeFields {α : Type} (step : α → Nat → WireType → Input → Except WireError (α × Input)) :
    Nat → α → Input → Except WireError α
  | 0, acc, _ => .ok acc
  | fuel + 1, acc, bs =>
    if bs.isEmpty then .ok acc
    else do
      let ((tag, wt), rest) ← readKey bs
      let (acc', rest') ← step acc tag wt rest
      mergeFields step fuel acc' rest'

def skipping {α : Type} (budget : Nat) (acc : α) (tag : Nat) (wt : WireType) (bs : Input) :
    Except WireError (α × Input) := do
  return (acc, ← skip budget tag wt bs)

def embedded {β : Type} (budget : Nat) (merge : Nat → β → Input → Except WireError β)
    (init : β) (wt : WireType) (bs : Input) : Except WireError (β × Input) := do
  expect .len wt
  if budget = 0 then throw .tooDeep
  let (payload, rest) ← readLen bs
  return (← merge (budget - 1) init payload, rest)

def mergeAll {α : Type} (step : α → Nat → WireType → Input → Except WireError (α × Input))
    (init : α) (bs : Input) : Except WireError α :=
  mergeFields step (bs.length + 1) init bs

/-- Read a name part. -/
def NamePart.merge (budget : Nat) (init : NamePart) (bs : Input) : Except WireError NamePart :=
  mergeAll (fun p tag wt rest => match tag with
    | 1 => do let (v, r) ← readString wt rest; return ({ p with namePart := v }, r)
    | 2 => do let (v, r) ← readBool wt rest; return ({ p with isExtension := v }, r)
    | _ => skipping budget p tag wt rest) init bs

/-- Read an uninterpreted option. -/
def UninterpretedOption.merge (budget : Nat) (init : UninterpretedOption) (bs : Input) :
    Except WireError UninterpretedOption :=
  mergeAll (fun o tag wt rest => match tag with
    | 2 => do
      let (v, r) ← embedded budget NamePart.merge {} wt rest
      return ({ o with name := o.name ++ [v] }, r)
    | 3 => do let (v, r) ← readString wt rest; return ({ o with identifierValue := some v }, r)
    | 4 => do let (v, r) ← readUInt64 wt rest; return ({ o with positiveIntValue := some v }, r)
    | 5 => do let (v, r) ← readInt64 wt rest; return ({ o with negativeIntValue := some v }, r)
    | 6 => do let (v, r) ← readDouble wt rest; return ({ o with doubleValue := some v }, r)
    | 7 => do let (v, r) ← readBytes wt rest; return ({ o with stringValue := some v }, r)
    | 8 => do let (v, r) ← readString wt rest; return ({ o with aggregateValue := some v }, r)
    | _ => skipping budget o tag wt rest) init bs

def addUninterpreted (budget : Nat) (os : List UninterpretedOption) (wt : WireType) (bs : Input) :
    Except WireError (List UninterpretedOption × Input) := do
  let (v, r) ← embedded budget UninterpretedOption.merge {} wt bs
  return (os ++ [v], r)

/-- Read file options. -/
def FileOptions.merge (budget : Nat) (init : FileOptions) (bs : Input) :
    Except WireError FileOptions :=
  let str (wt : WireType) (rest : Input) (set : String → FileOptions) := do
    let (v, r) ← readString wt rest
    return (set v, r)
  let bool (wt : WireType) (rest : Input) (set : Bool → FileOptions) := do
    let (v, r) ← readBool wt rest
    return (set v, r)
  mergeAll (fun o tag wt rest => match tag with
    | 1 => str wt rest fun v => { o with javaPackage := some v }
    | 8 => str wt rest fun v => { o with javaOuterClassname := some v }
    | 9 => do let (v, r) ← readInt32 wt rest; return ({ o with optimizeFor := some v }, r)
    | 10 => bool wt rest fun v => { o with javaMultipleFiles := some v }
    | 11 => str wt rest fun v => { o with goPackage := some v }
    | 16 => bool wt rest fun v => { o with ccGenericServices := some v }
    | 17 => bool wt rest fun v => { o with javaGenericServices := some v }
    | 18 => bool wt rest fun v => { o with pyGenericServices := some v }
    | 20 => bool wt rest fun v => { o with javaGenerateEqualsAndHash := some v }
    | 23 => bool wt rest fun v => { o with deprecated := some v }
    | 27 => bool wt rest fun v => { o with javaStringCheckUtf8 := some v }
    | 31 => bool wt rest fun v => { o with ccEnableArenas := some v }
    | 36 => str wt rest fun v => { o with objcClassPrefix := some v }
    | 37 => str wt rest fun v => { o with csharpNamespace := some v }
    | 39 => str wt rest fun v => { o with swiftPrefix := some v }
    | 40 => str wt rest fun v => { o with phpClassPrefix := some v }
    | 41 => str wt rest fun v => { o with phpNamespace := some v }
    | 42 => bool wt rest fun v => { o with phpGenericServices := some v }
    | 44 => str wt rest fun v => { o with phpMetadataNamespace := some v }
    | 45 => str wt rest fun v => { o with rubyPackage := some v }
    | 999 => do
      let (v, r) ← addUninterpreted budget o.uninterpretedOption wt rest
      return ({ o with uninterpretedOption := v }, r)
    | _ => skipping budget o tag wt rest) init bs

/-- Read message options. -/
def MessageOptions.merge (budget : Nat) (init : MessageOptions) (bs : Input) :
    Except WireError MessageOptions :=
  let bool (wt : WireType) (rest : Input) (set : Bool → MessageOptions) := do
    let (v, r) ← readBool wt rest
    return (set v, r)
  mergeAll (fun o tag wt rest => match tag with
    | 1 => bool wt rest fun v => { o with messageSetWireFormat := some v }
    | 2 => bool wt rest fun v => { o with noStandardDescriptorAccessor := some v }
    | 3 => bool wt rest fun v => { o with deprecated := some v }
    | 7 => bool wt rest fun v => { o with mapEntry := some v }
    | 999 => do
      let (v, r) ← addUninterpreted budget o.uninterpretedOption wt rest
      return ({ o with uninterpretedOption := v }, r)
    | _ => skipping budget o tag wt rest) init bs

/-- Read field options. -/
def FieldOptions.merge (budget : Nat) (init : FieldOptions) (bs : Input) :
    Except WireError FieldOptions :=
  let bool (wt : WireType) (rest : Input) (set : Bool → FieldOptions) := do
    let (v, r) ← readBool wt rest
    return (set v, r)
  mergeAll (fun o tag wt rest => match tag with
    | 1 => do let (v, r) ← readInt32 wt rest; return ({ o with ctype := some v }, r)
    | 2 => bool wt rest fun v => { o with packed := some v }
    | 3 => bool wt rest fun v => { o with deprecated := some v }
    | 5 => bool wt rest fun v => { o with lazy := some v }
    | 6 => do let (v, r) ← readInt32 wt rest; return ({ o with jstype := some v }, r)
    | 10 => bool wt rest fun v => { o with weak := some v }
    | 999 => do
      let (v, r) ← addUninterpreted budget o.uninterpretedOption wt rest
      return ({ o with uninterpretedOption := v }, r)
    | _ => skipping budget o tag wt rest) init bs

/-- Read options that hold custom options only. -/
def PlainOptions.merge (budget : Nat) (init : PlainOptions) (bs : Input) :
    Except WireError PlainOptions :=
  mergeAll (fun o tag wt rest => match tag with
    | 999 => do
      let (v, r) ← addUninterpreted budget o.uninterpretedOption wt rest
      return ({ o with uninterpretedOption := v }, r)
    | _ => skipping budget o tag wt rest) init bs

/-- Read enum options. -/
def EnumOptions.merge (budget : Nat) (init : EnumOptions) (bs : Input) :
    Except WireError EnumOptions :=
  mergeAll (fun o tag wt rest => match tag with
    | 2 => do let (v, r) ← readBool wt rest; return ({ o with allowAlias := some v }, r)
    | 3 => do let (v, r) ← readBool wt rest; return ({ o with deprecated := some v }, r)
    | 999 => do
      let (v, r) ← addUninterpreted budget o.uninterpretedOption wt rest
      return ({ o with uninterpretedOption := v }, r)
    | _ => skipping budget o tag wt rest) init bs

/-- Read enum value options. -/
def EnumValueOptions.merge (budget : Nat) (init : EnumValueOptions) (bs : Input) :
    Except WireError EnumValueOptions :=
  mergeAll (fun o tag wt rest => match tag with
    | 1 => do let (v, r) ← readBool wt rest; return ({ o with deprecated := some v }, r)
    | 999 => do
      let (v, r) ← addUninterpreted budget o.uninterpretedOption wt rest
      return ({ o with uninterpretedOption := v }, r)
    | _ => skipping budget o tag wt rest) init bs

/-- Read service options. -/
def ServiceOptions.merge (budget : Nat) (init : ServiceOptions) (bs : Input) :
    Except WireError ServiceOptions :=
  mergeAll (fun o tag wt rest => match tag with
    | 33 => do let (v, r) ← readBool wt rest; return ({ o with deprecated := some v }, r)
    | 999 => do
      let (v, r) ← addUninterpreted budget o.uninterpretedOption wt rest
      return ({ o with uninterpretedOption := v }, r)
    | _ => skipping budget o tag wt rest) init bs

/-- Read method options. -/
def MethodOptions.merge (budget : Nat) (init : MethodOptions) (bs : Input) :
    Except WireError MethodOptions :=
  mergeAll (fun o tag wt rest => match tag with
    | 33 => do let (v, r) ← readBool wt rest; return ({ o with deprecated := some v }, r)
    | 34 => do let (v, r) ← readInt32 wt rest; return ({ o with idempotencyLevel := some v }, r)
    | 999 => do
      let (v, r) ← addUninterpreted budget o.uninterpretedOption wt rest
      return ({ o with uninterpretedOption := v }, r)
    | _ => skipping budget o tag wt rest) init bs

/-- Read a field descriptor. -/
def FieldDescriptor.merge (budget : Nat) (init : FieldDescriptor) (bs : Input) :
    Except WireError FieldDescriptor :=
  let str (wt : WireType) (rest : Input) (set : String → FieldDescriptor) := do
    let (v, r) ← readString wt rest
    return (set v, r)
  let int (wt : WireType) (rest : Input) (set : Int → FieldDescriptor) := do
    let (v, r) ← readInt32 wt rest
    return (set v, r)
  mergeAll (fun f tag wt rest => match tag with
    | 1 => str wt rest fun v => { f with name := some v }
    | 2 => str wt rest fun v => { f with extendee := some v }
    | 3 => int wt rest fun v => { f with number := some v }
    | 4 => int wt rest fun v => { f with label := some v }
    | 5 => int wt rest fun v => { f with type := some v }
    | 6 => str wt rest fun v => { f with typeName := some v }
    | 7 => str wt rest fun v => { f with defaultValue := some v }
    | 8 => do
      let (v, r) ← embedded budget FieldOptions.merge (f.options.getD {}) wt rest
      return ({ f with options := some v }, r)
    | 9 => int wt rest fun v => { f with oneofIndex := some v }
    | 10 => str wt rest fun v => { f with jsonName := some v }
    | 17 => do let (v, r) ← readBool wt rest; return ({ f with proto3Optional := some v }, r)
    | _ => skipping budget f tag wt rest) init bs

/-- Read a oneof descriptor. -/
def OneofDescriptor.merge (budget : Nat) (init : OneofDescriptor) (bs : Input) :
    Except WireError OneofDescriptor :=
  mergeAll (fun o tag wt rest => match tag with
    | 1 => do let (v, r) ← readString wt rest; return ({ o with name := some v }, r)
    | 2 => do
      let (v, r) ← embedded budget PlainOptions.merge (o.options.getD {}) wt rest
      return ({ o with options := some v }, r)
    | _ => skipping budget o tag wt rest) init bs

/-- Read an extension range. -/
def ExtensionRange.merge (budget : Nat) (init : ExtensionRange) (bs : Input) :
    Except WireError ExtensionRange :=
  mergeAll (fun x tag wt rest => match tag with
    | 1 => do let (v, r) ← readInt32 wt rest; return ({ x with start := some v }, r)
    | 2 => do let (v, r) ← readInt32 wt rest; return ({ x with stop := some v }, r)
    | 3 => do
      let (v, r) ← embedded budget PlainOptions.merge (x.options.getD {}) wt rest
      return ({ x with options := some v }, r)
    | _ => skipping budget x tag wt rest) init bs

/-- Read a reserved range. -/
def ReservedRange.merge (budget : Nat) (init : ReservedRange) (bs : Input) :
    Except WireError ReservedRange :=
  mergeAll (fun x tag wt rest => match tag with
    | 1 => do let (v, r) ← readInt32 wt rest; return ({ x with start := some v }, r)
    | 2 => do let (v, r) ← readInt32 wt rest; return ({ x with stop := some v }, r)
    | _ => skipping budget x tag wt rest) init bs

/-- Read an enum value descriptor. -/
def EnumValueDescriptor.merge (budget : Nat) (init : EnumValueDescriptor) (bs : Input) :
    Except WireError EnumValueDescriptor :=
  mergeAll (fun x tag wt rest => match tag with
    | 1 => do let (v, r) ← readString wt rest; return ({ x with name := some v }, r)
    | 2 => do let (v, r) ← readInt32 wt rest; return ({ x with number := some v }, r)
    | 3 => do
      let (v, r) ← embedded budget EnumValueOptions.merge (x.options.getD {}) wt rest
      return ({ x with options := some v }, r)
    | _ => skipping budget x tag wt rest) init bs

/-- Read an enum descriptor. -/
def EnumDescriptor.merge (budget : Nat) (init : EnumDescriptor) (bs : Input) :
    Except WireError EnumDescriptor :=
  mergeAll (fun e tag wt rest => match tag with
    | 1 => do let (v, r) ← readString wt rest; return ({ e with name := some v }, r)
    | 2 => do
      let (v, r) ← embedded budget EnumValueDescriptor.merge {} wt rest
      return ({ e with value := e.value ++ [v] }, r)
    | 3 => do
      let (v, r) ← embedded budget EnumOptions.merge (e.options.getD {}) wt rest
      return ({ e with options := some v }, r)
    | 4 => do
      let (v, r) ← embedded budget ReservedRange.merge {} wt rest
      return ({ e with reservedRange := e.reservedRange ++ [v] }, r)
    | 5 => do
      let (v, r) ← readString wt rest
      return ({ e with reservedName := e.reservedName ++ [v] }, r)
    | _ => skipping budget e tag wt rest) init bs

/-- Read a method descriptor. -/
def MethodDescriptor.merge (budget : Nat) (init : MethodDescriptor) (bs : Input) :
    Except WireError MethodDescriptor :=
  mergeAll (fun m tag wt rest => match tag with
    | 1 => do let (v, r) ← readString wt rest; return ({ m with name := some v }, r)
    | 2 => do let (v, r) ← readString wt rest; return ({ m with inputType := some v }, r)
    | 3 => do let (v, r) ← readString wt rest; return ({ m with outputType := some v }, r)
    | 4 => do
      let (v, r) ← embedded budget MethodOptions.merge (m.options.getD {}) wt rest
      return ({ m with options := some v }, r)
    | 5 => do let (v, r) ← readBool wt rest; return ({ m with clientStreaming := some v }, r)
    | 6 => do let (v, r) ← readBool wt rest; return ({ m with serverStreaming := some v }, r)
    | _ => skipping budget m tag wt rest) init bs

/-- Read a service descriptor. -/
def ServiceDescriptor.merge (budget : Nat) (init : ServiceDescriptor) (bs : Input) :
    Except WireError ServiceDescriptor :=
  mergeAll (fun s tag wt rest => match tag with
    | 1 => do let (v, r) ← readString wt rest; return ({ s with name := some v }, r)
    | 2 => do
      let (v, r) ← embedded budget MethodDescriptor.merge {} wt rest
      return ({ s with method := s.method ++ [v] }, r)
    | 3 => do
      let (v, r) ← embedded budget ServiceOptions.merge (s.options.getD {}) wt rest
      return ({ s with options := some v }, r)
    | _ => skipping budget s tag wt rest) init bs

namespace MessageDescriptor

def mergeField (nested : MessageDescriptor → Input → Except WireError MessageDescriptor)
    (budget : Nat) (m : MessageDescriptor) (tag : Nat) (wt : WireType) (rest : Input) :
    Except WireError (MessageDescriptor × Input) :=
  match m with
  | .mk name field nestedType enums ranges ext options oneofs reserved names =>
    match tag with
    | 1 => do
      let (v, r) ← readString wt rest
      return (.mk (some v) field nestedType enums ranges ext options oneofs reserved names, r)
    | 2 => do
      let (v, r) ← embedded budget FieldDescriptor.merge {} wt rest
      return (.mk name (field ++ [v]) nestedType enums ranges ext options oneofs reserved names, r)
    | 3 => do
      let (v, r) ← embedded budget (fun _ init bs => nested init bs) empty wt rest
      return (.mk name field (nestedType ++ [v]) enums ranges ext options oneofs reserved names, r)
    | 4 => do
      let (v, r) ← embedded budget EnumDescriptor.merge {} wt rest
      return (.mk name field nestedType (enums ++ [v]) ranges ext options oneofs reserved names, r)
    | 5 => do
      let (v, r) ← embedded budget ExtensionRange.merge {} wt rest
      return (.mk name field nestedType enums (ranges ++ [v]) ext options oneofs reserved names, r)
    | 6 => do
      let (v, r) ← embedded budget FieldDescriptor.merge {} wt rest
      return (.mk name field nestedType enums ranges (ext ++ [v]) options oneofs reserved names, r)
    | 7 => do
      let (v, r) ← embedded budget MessageOptions.merge (options.getD {}) wt rest
      return (.mk name field nestedType enums ranges ext (some v) oneofs reserved names, r)
    | 8 => do
      let (v, r) ← embedded budget OneofDescriptor.merge {} wt rest
      return (.mk name field nestedType enums ranges ext options (oneofs ++ [v]) reserved names, r)
    | 9 => do
      let (v, r) ← embedded budget ReservedRange.merge {} wt rest
      return (.mk name field nestedType enums ranges ext options oneofs (reserved ++ [v]) names, r)
    | 10 => do
      let (v, r) ← readString wt rest
      return (.mk name field nestedType enums ranges ext options oneofs reserved (names ++ [v]), r)
    | _ => skipping budget m tag wt rest

/-- Read a message descriptor whose own fields sit at depth `budget`. -/
def merge : Nat → MessageDescriptor → Input → Except WireError MessageDescriptor
  | 0, init, bs => mergeAll (mergeField (fun _ _ => .error .tooDeep) 0) init bs
  | b + 1, init, bs => mergeAll (mergeField (merge b) (b + 1)) init bs

end MessageDescriptor

/-- Read a source location. -/
def SourceLocation.merge (budget : Nat) (init : SourceLocation) (bs : Input) :
    Except WireError SourceLocation :=
  mergeAll (fun l tag wt rest => match tag with
    | 1 => do let (v, r) ← readRepeatedInt32 wt rest; return ({ l with path := l.path ++ v }, r)
    | 2 => do let (v, r) ← readRepeatedInt32 wt rest; return ({ l with span := l.span ++ v }, r)
    | 3 => do let (v, r) ← readString wt rest; return ({ l with leadingComments := some v }, r)
    | 4 => do let (v, r) ← readString wt rest; return ({ l with trailingComments := some v }, r)
    | 6 => do
      let (v, r) ← readString wt rest
      return ({ l with leadingDetachedComments := l.leadingDetachedComments ++ [v] }, r)
    | _ => skipping budget l tag wt rest) init bs

def mergeSourceInfo (budget : Nat) (init : List SourceLocation) (bs : Input) :
    Except WireError (List SourceLocation) :=
  mergeAll (fun ls tag wt rest => match tag with
    | 1 => do
      let (v, r) ← embedded budget SourceLocation.merge {} wt rest
      return (ls ++ [v], r)
    | _ => skipping budget ls tag wt rest) init bs

/-- Read a file descriptor. -/
def FileDescriptor.merge (budget : Nat) (init : FileDescriptor) (bs : Input) :
    Except WireError FileDescriptor :=
  mergeAll (fun f tag wt rest => match tag with
    | 1 => do let (v, r) ← readString wt rest; return ({ f with name := some v }, r)
    | 2 => do let (v, r) ← readString wt rest; return ({ f with package := some v }, r)
    | 3 => do
      let (v, r) ← readString wt rest
      return ({ f with dependency := f.dependency ++ [v] }, r)
    | 4 => do
      let (v, r) ← embedded budget MessageDescriptor.merge MessageDescriptor.empty wt rest
      return ({ f with messageType := f.messageType ++ [v] }, r)
    | 5 => do
      let (v, r) ← embedded budget EnumDescriptor.merge {} wt rest
      return ({ f with enumType := f.enumType ++ [v] }, r)
    | 6 => do
      let (v, r) ← embedded budget ServiceDescriptor.merge {} wt rest
      return ({ f with service := f.service ++ [v] }, r)
    | 7 => do
      let (v, r) ← embedded budget FieldDescriptor.merge {} wt rest
      return ({ f with extension := f.extension ++ [v] }, r)
    | 8 => do
      let (v, r) ← embedded budget FileOptions.merge (f.options.getD {}) wt rest
      return ({ f with options := some v }, r)
    | 9 => do
      let (v, r) ← embedded budget mergeSourceInfo (f.sourceCodeInfo.getD []) wt rest
      return ({ f with sourceCodeInfo := some v }, r)
    | 10 => do
      let (v, r) ← readRepeatedInt32 wt rest
      return ({ f with publicDependency := f.publicDependency ++ v }, r)
    | 11 => do
      let (v, r) ← readRepeatedInt32 wt rest
      return ({ f with weakDependency := f.weakDependency ++ v }, r)
    | 12 => do let (v, r) ← readString wt rest; return ({ f with dialect := some v }, r)
    | _ => skipping budget f tag wt rest) init bs

end ProtoSchema
