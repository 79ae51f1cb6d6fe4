import ProtoSchema.Number.Binary64

/-!
Descriptors: the compiled form of a schema file, as the standard
`descriptor.proto` messages. Every optional field is an `Option`, present
exactly when it was set, and every repeated field a list in order, because
the binary form writes what is present and nothing else.

Main definitions: `FileDescriptor`, `MessageDescriptor`, `FieldDescriptor`,
`EnumDescriptor`, `ServiceDescriptor`, the option messages and
`SourceLocation`.
-/

namespace ProtoSchema

/-- One part of the name of an option that was kept uninterpreted. -/
structure NamePart where
  namePart : String := ""
  isExtension : Bool := false
  deriving DecidableEq, Repr, Inhabited

/-- An option kept as written: its name and exactly one kind of value. -/
structure UninterpretedOption where
  name : List NamePart := []
  identifierValue : Option String := none
  positiveIntValue : Option Nat := none
  negativeIntValue : Option Int := none
  doubleValue : Option Binary64 := none
  stringValue : Option (List UInt8) := none
  aggregateValue : Option String := none
  deriving DecidableEq, Repr, Inhabited

/-- File options. -/
structure FileOptions where
  javaPackage : Option String := none
  javaOuterClassname : Option String := none
  optimizeFor : Option Int := none
  javaMultipleFiles : Option Bool := none
  goPackage : Option String := none
  ccGenericServices : Option Bool := none
  javaGenericServices : Option Bool := none
  pyGenericServices : Option Bool := none
  javaGenerateEqualsAndHash : Option Bool := none
  deprecated : Option Bool := none
  javaStringCheckUtf8 : Option Bool := none
  ccEnableArenas : Option Bool := none
  objcClassPrefix : Option String := none
  csharpNamespace : Option String := none
  swiftPrefix : Option String := none
  phpClassPrefix : Option String := none
  phpNamespace : Option String := none
  phpGenericServices : Option Bool := none
  phpMetadataNamespace : Option String := none
  rubyPackage : Option String := none
  uninterpretedOption : List UninterpretedOption := []
  deriving DecidableEq, Repr, Inhabited

/-- Message options. -/
structure MessageOptions where
  messageSetWireFormat : Option Bool := none
  noStandardDescriptorAccessor : Option Bool := none
  deprecated : Option Bool := none
  mapEntry : Option Bool := none
  uninterpretedOption : List UninterpretedOption := []
  deriving DecidableEq, Repr, Inhabited

/-- Field options. -/
structure FieldOptions where
  ctype : Option Int := none
  packed : Option Bool := none
  deprecated : Option Bool := none
  lazy : Option Bool := none
  jstype : Option Int := none
  weak : Option Bool := none
  uninterpretedOption : List UninterpretedOption := []
  deriving DecidableEq, Repr, Inhabited

/-- Options of oneofs and of extension ranges: custom options only. -/
structure PlainOptions where
  uninterpretedOption : List UninterpretedOption := []
  deriving DecidableEq, Repr, Inhabited

/-- Enum options. -/
structure EnumOptions where
  allowAlias : Option Bool := none
  deprecated : Option Bool := none
  uninterpretedOption : List UninterpretedOption := []
  deriving DecidableEq, Repr, Inhabited

/-- Options of enum values. -/
structure EnumValueOptions where
  deprecated : Option Bool := none
  uninterpretedOption : List UninterpretedOption := []
  deriving DecidableEq, Repr, Inhabited

/-- Options of services. -/
structure ServiceOptions where
  deprecated : Option Bool := none
  uninterpretedOption : List UninterpretedOption := []
  deriving DecidableEq, Repr, Inhabited

/-- Options of methods. -/
structure MethodOptions where
  deprecated : Option Bool := none
  idempotencyLevel : Option Int := none
  uninterpretedOption : List UninterpretedOption := []
  deriving DecidableEq, Repr, Inhabited

/-- A field, of a message or as an extension. -/
structure FieldDescriptor where
  name : Option String := none
  extendee : Option String := none
  number : Option Int := none
  label : Option Int := none
  type : Option Int := none
  typeName : Option String := none
  defaultValue : Option String := none
  options : Option FieldOptions := none
  oneofIndex : Option Int := none
  jsonName : Option String := none
  proto3Optional : Option Bool := none
  deriving DecidableEq, Repr, Inhabited

/-- A oneof of a message. -/
structure OneofDescriptor where
  name : Option String := none
  options : Option PlainOptions := none
  deriving DecidableEq, Repr, Inhabited

/-- A range of extension numbers, start inclusive and end exclusive. -/
structure ExtensionRange where
  start : Option Int := none
  stop : Option Int := none
  options : Option PlainOptions := none
  deriving DecidableEq, Repr, Inhabited

/-- A range of reserved numbers; exclusive end for messages, inclusive for enums. -/
structure ReservedRange where
  start : Option Int := none
  stop : Option Int := none
  deriving DecidableEq, Repr, Inhabited

/-- A value of an enum. -/
structure EnumValueDescriptor where
  name : Option String := none
  number : Option Int := none
  options : Option EnumValueOptions := none
  deriving DecidableEq, Repr, Inhabited

/-- An enum. -/
structure EnumDescriptor where
  name : Option String := none
  value : List EnumValueDescriptor := []
  options : Option EnumOptions := none
  reservedRange : List ReservedRange := []
  reservedName : List String := []
  deriving DecidableEq, Repr, Inhabited

/-- A method of a service. -/
structure MethodDescriptor where
  name : Option String := none
  inputType : Option String := none
  outputType : Option String := none
  options : Option MethodOptions := none
  clientStreaming : Option Bool := none
  serverStreaming : Option Bool := none
  deriving DecidableEq, Repr, Inhabited

/-- A service. -/
structure ServiceDescriptor where
  name : Option String := none
  method : List MethodDescriptor := []
  options : Option ServiceOptions := none
  deriving DecidableEq, Repr, Inhabited

/-- A message, with the messages nested in it. -/
inductive MessageDescriptor where
  | mk (name : Option String) (field : List FieldDescriptor) (nestedType : List MessageDescriptor)
      (enumType : List EnumDescriptor) (extensionRange : List ExtensionRange)
      (extension : List FieldDescriptor) (options : Option MessageOptions)
      (oneofDecl : List OneofDescriptor) (reservedRange : List ReservedRange)
      (reservedName : List String)
  deriving Repr

namespace MessageDescriptor

def empty : MessageDescriptor := .mk none [] [] [] [] [] none [] [] []

instance : Inhabited MessageDescriptor := ⟨empty⟩

def name : MessageDescriptor → Option String | .mk n _ _ _ _ _ _ _ _ _ => n
def field : MessageDescriptor → List FieldDescriptor | .mk _ f _ _ _ _ _ _ _ _ => f
def nestedType : MessageDescriptor → List MessageDescriptor | .mk _ _ t _ _ _ _ _ _ _ => t
def enumType : MessageDescriptor → List EnumDescriptor | .mk _ _ _ e _ _ _ _ _ _ => e
def extensionRange : MessageDescriptor → List ExtensionRange | .mk _ _ _ _ r _ _ _ _ _ => r
def extension : MessageDescriptor → List FieldDescriptor | .mk _ _ _ _ _ x _ _ _ _ => x
def options : MessageDescriptor → Option MessageOptions | .mk _ _ _ _ _ _ o _ _ _ => o
def oneofDecl : MessageDescriptor → List OneofDescriptor | .mk _ _ _ _ _ _ _ o _ _ => o
def reservedRange : MessageDescriptor → List ReservedRange | .mk _ _ _ _ _ _ _ _ r _ => r
def reservedName : MessageDescriptor → List String | .mk _ _ _ _ _ _ _ _ _ r => r

end MessageDescriptor

/-- One location of source info: a path into the descriptor, a span, and comments. -/
structure SourceLocation where
  path : List Int := []
  span : List Int := []
  leadingComments : Option String := none
  trailingComments : Option String := none
  leadingDetachedComments : List String := []
  deriving DecidableEq, Repr, Inhabited

/-- A compiled schema file. -/
structure FileDescriptor where
  name : Option String := none
  package : Option String := none
  dependency : List String := []
  messageType : List MessageDescriptor := []
  enumType : List EnumDescriptor := []
  service : List ServiceDescriptor := []
  extension : List FieldDescriptor := []
  options : Option FileOptions := none
  sourceCodeInfo : Option (List SourceLocation) := none
  publicDependency : List Int := []
  weakDependency : List Int := []
  dialect : Option String := none
  deriving Repr, Inhabited

end ProtoSchema
