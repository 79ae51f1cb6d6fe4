import ProtoSchema.Descriptor.Basic
import ProtoSchema.Wire.Field

/-!
The binary form of descriptors: each present field written once, in
increasing field-number order; repeated fields value by value, except the
source-info paths and spans, which are packed.

Main definitions: `FileDescriptor.encode` and the `encode` of every
descriptor message.
-/

namespace ProtoSchema

open Wire

def fieldMessage {α : Type} (tag : Nat) (enc : α → List UInt8) (a : α) : List UInt8 :=
  fieldBytes tag (enc a)

/-- The binary form of a name part; both of its fields are always written. -/
def NamePart.encode (p : NamePart) : List UInt8 :=
  fieldString 1 p.namePart ++ fieldBool 2 p.isExtension

/-- The binary form of an uninterpreted option. -/
def UninterpretedOption.encode (o : UninterpretedOption) : List UInt8 :=
  many (fieldMessage 2 NamePart.encode) o.name ++
  opt (fieldString 3) o.identifierValue ++
  opt (fieldVarint 4) o.positiveIntValue ++
  opt (fieldInt 5) o.negativeIntValue ++
  opt (fieldDouble 6) o.doubleValue ++
  opt (fieldBytes 7) o.stringValue ++
  opt (fieldString 8) o.aggregateValue

def encodeUninterpreted (os : List UninterpretedOption) : List UInt8 :=
  many (fieldMessage 999 UninterpretedOption.encode) os

/-- The binary form of file options. -/
def FileOptions.encode (o : FileOptions) : List UInt8 :=
  opt (fieldString 1) o.javaPackage ++
  opt (fieldString 8) o.javaOuterClassname ++
  opt (fieldInt 9) o.optimizeFor ++
  opt (fieldBool 10) o.javaMultipleFiles ++
  opt (fieldString 11) o.goPackage ++
  opt (fieldBool 16) o.ccGenericServices ++
  opt (fieldBool 17) o.javaGenericServices ++
  opt (fieldBool 18) o.pyGenericServices ++
  opt (fieldBool 20) o.javaGenerateEqualsAndHash ++
  opt (fieldBool 23) o.deprecated ++
  opt (fieldBool 27) o.javaStringCheckUtf8 ++
  opt (fieldBool 31) o.ccEnableArenas ++
  opt (fieldString 36) o.objcClassPrefix ++
  opt (fieldString 37) o.csharpNamespace ++
  opt (fieldString 39) o.swiftPrefix ++
  opt (fieldString 40) o.phpClassPrefix ++
  opt (fieldString 41) o.phpNamespace ++
  opt (fieldBool 42) o.phpGenericServices ++
  opt (fieldString 44) o.phpMetadataNamespace ++
  opt (fieldString 45) o.rubyPackage ++
  encodeUninterpreted o.uninterpretedOption

/-- The binary form of message options. -/
def MessageOptions.encode (o : MessageOptions) : List UInt8 :=
  opt (fieldBool 1) o.messageSetWireFormat ++
  opt (fieldBool 2) o.noStandardDescriptorAccessor ++
  opt (fieldBool 3) o.deprecated ++
  opt (fieldBool 7) o.mapEntry ++
  encodeUninterpreted o.uninterpretedOption

/-- The binary form of field options. -/
def FieldOptions.encode (o : FieldOptions) : List UInt8 :=
  opt (fieldInt 1) o.ctype ++
  opt (fieldBool 2) o.packed ++
  opt (fieldBool 3) o.deprecated ++
  opt (fieldBool 5) o.lazy ++
  opt (fieldInt 6) o.jstype ++
  opt (fieldBool 10) o.weak ++
  encodeUninterpreted o.uninterpretedOption

/-- The binary form of options that hold custom options only. -/
def PlainOptions.encode (o : PlainOptions) : List UInt8 :=
  encodeUninterpreted o.uninterpretedOption

/-- The binary form of enum options. -/
def EnumOptions.encode (o : EnumOptions) : List UInt8 :=
  opt (fieldBool 2) o.allowAlias ++
  opt (fieldBool 3) o.deprecated ++
  encodeUninterpreted o.uninterpretedOption

/-- The binary form of enum value options. -/
def EnumValueOptions.encode (o : EnumValueOptions) : List UInt8 :=
  opt (fieldBool 1) o.deprecated ++
  encodeUninterpreted o.uninterpretedOption

/-- The binary form of service options. -/
def ServiceOptions.encode (o : ServiceOptions) : List UInt8 :=
  opt (fieldBool 33) o.deprecated ++
  encodeUninterpreted o.uninterpretedOption

/-- The binary form of method options. -/
def MethodOptions.encode (o : MethodOptions) : List UInt8 :=
  opt (fieldBool 33) o.deprecated ++
  opt (fieldInt 34) o.idempotencyLevel ++
  encodeUninterpreted o.uninterpretedOption

/-- The binary form of a field. -/
def FieldDescriptor.encode (f : FieldDescriptor) : List UInt8 :=
  opt (fieldString 1) f.name ++
  opt (fieldString 2) f.extendee ++
  opt (fieldInt 3) f.number ++
  opt (fieldInt 4) f.label ++
  opt (fieldInt 5) f.type ++
  opt (fieldString 6) f.typeName ++
  opt (fieldString 7) f.defaultValue ++
  opt (fieldMessage 8 FieldOptions.encode) f.options ++
  opt (fieldInt 9) f.oneofIndex ++
  opt (fieldString 10) f.jsonName ++
  opt (fieldBool 17) f.proto3Optional

/-- The binary form of a oneof. -/
def OneofDescriptor.encode (o : OneofDescriptor) : List UInt8 :=
  opt (fieldString 1) o.name ++ opt (fieldMessage 2 PlainOptions.encode) o.options

/-- The binary form of an extension range. -/
def ExtensionRange.encode (r : ExtensionRange) : List UInt8 :=
  opt (fieldInt 1) r.start ++ opt (fieldInt 2) r.stop ++
  opt (fieldMessage 3 PlainOptions.encode) r.options

/-- The binary form of a reserved range. -/
def ReservedRange.encode (r : ReservedRange) : List UInt8 :=
  opt (fieldInt 1) r.start ++ opt (fieldInt 2) r.stop

/-- The binary form of an enum value. -/
def EnumValueDescriptor.encode (v : EnumValueDescriptor) : List UInt8 :=
  opt (fieldString 1) v.name ++ opt (fieldInt 2) v.number ++
  opt (fieldMessage 3 EnumValueOptions.encode) v.options

/-- The binary form of an enum. -/
def EnumDescriptor.encode (e : EnumDescriptor) : List UInt8 :=
  opt (fieldString 1) e.name ++
  many (fieldMessage 2 EnumValueDescriptor.encode) e.value ++
  opt (fieldMessage 3 EnumOptions.encode) e.options ++
  many (fieldMessage 4 ReservedRange.encode) e.reservedRange ++
  many (fieldString 5) e.reservedName

/-- The binary form of a method. -/
def MethodDescriptor.encode (m : MethodDescriptor) : List UInt8 :=
  opt (fieldString 1) m.name ++
  opt (fieldString 2) m.inputType ++
  opt (fieldString 3) m.outputType ++
  opt (fieldMessage 4 MethodOptions.encode) m.options ++
  opt (fieldBool 5) m.clientStreaming ++
  opt (fieldBool 6) m.serverStreaming

/-- The binary form of a service. -/
def ServiceDescriptor.encode (s : ServiceDescriptor) : List UInt8 :=
  opt (fieldString 1) s.name ++
  many (fieldMessage 2 MethodDescriptor.encode) s.method ++
  opt (fieldMessage 3 ServiceOptions.encode) s.options

mutual

/-- The binary form of a message and the messages nested in it. -/
def MessageDescriptor.encode : MessageDescriptor → List UInt8
  | .mk name field nested enums ranges ext options oneofs reserved names =>
    opt (fieldString 1) name ++
    many (fieldMessage 2 FieldDescriptor.encode) field ++
    MessageDescriptor.encodeNested nested ++
    many (fieldMessage 4 EnumDescriptor.encode) enums ++
    many (fieldMessage 5 ExtensionRange.encode) ranges ++
    many (fieldMessage 6 FieldDescriptor.encode) ext ++
    opt (fieldMessage 7 MessageOptions.encode) options ++
    many (fieldMessage 8 OneofDescriptor.encode) oneofs ++
    many (fieldMessage 9 ReservedRange.encode) reserved ++
    many (fieldString 10) names

def MessageDescriptor.encodeNested : List MessageDescriptor → List UInt8
  | [] => []
  | m :: ms => fieldBytes 3 m.encode ++ MessageDescriptor.encodeNested ms

end

/-- The binary form of a source location. -/
def SourceLocation.encode (l : SourceLocation) : List UInt8 :=
  fieldPacked 1 l.path ++ fieldPacked 2 l.span ++
  opt (fieldString 3) l.leadingComments ++
  opt (fieldString 4) l.trailingComments ++
  many (fieldString 6) l.leadingDetachedComments

def encodeSourceInfo (ls : List SourceLocation) : List UInt8 :=
  many (fieldMessage 1 SourceLocation.encode) ls

/-- The binary form of a file descriptor. -/
def FileDescriptor.encode (f : FileDescriptor) : List UInt8 :=
  opt (fieldString 1) f.name ++
  opt (fieldString 2) f.package ++
  many (fieldString 3) f.dependency ++
  many (fieldMessage 4 MessageDescriptor.encode) f.messageType ++
  many (fieldMessage 5 EnumDescriptor.encode) f.enumType ++
  many (fieldMessage 6 ServiceDescriptor.encode) f.service ++
  many (fieldMessage 7 FieldDescriptor.encode) f.extension ++
  opt (fieldMessage 8 FileOptions.encode) f.options ++
  opt (fieldMessage 9 encodeSourceInfo) f.sourceCodeInfo ++
  many (fieldInt 10) f.publicDependency ++
  many (fieldInt 11) f.weakDependency ++
  opt (fieldString 12) f.dialect

end ProtoSchema
