import ProtoSchema.Descriptor.Basic

/-!
Numeric equality of descriptors: the same fields everywhere, except that
double values are compared as numbers, so a NaN equals nothing, not even
itself, and the two zeros are equal. Every other value is compared exactly.

Main definitions: `FileDescriptor.sameAs` and the `sameAs` of every
descriptor message that can hold a double.
-/

namespace ProtoSchema

def sameList {α : Type} (same : α → α → Bool) : List α → List α → Bool
  | [], [] => true
  | a :: as, b :: bs => same a b && sameList same as bs
  | _, _ => false

def sameOption {α : Type} (same : α → α → Bool) : Option α → Option α → Bool
  | none, none => true
  | some a, some b => same a b
  | _, _ => false

/-- Uninterpreted options agree, their double values as numbers. -/
def UninterpretedOption.sameAs (a b : UninterpretedOption) : Bool :=
  decide ({ a with doubleValue := none } = { b with doubleValue := none }) &&
    sameOption Binary64.numEq a.doubleValue b.doubleValue

def sameUninterpreted : List UninterpretedOption → List UninterpretedOption → Bool :=
  sameList UninterpretedOption.sameAs

/-- File options agree. -/
def FileOptions.sameAs (a b : FileOptions) : Bool :=
  decide ({ a with uninterpretedOption := [] } = { b with uninterpretedOption := [] }) &&
    sameUninterpreted a.uninterpretedOption b.uninterpretedOption

/-- Message options agree. -/
def MessageOptions.sameAs (a b : MessageOptions) : Bool :=
  decide ({ a with uninterpretedOption := [] } = { b with uninterpretedOption := [] }) &&
    sameUninterpreted a.uninterpretedOption b.uninterpretedOption

/-- Field options agree. -/
def FieldOptions.sameAs (a b : FieldOptions) : Bool :=
  decide ({ a with uninterpretedOption := [] } = { b with uninterpretedOption := [] }) &&
    sameUninterpreted a.uninterpretedOption b.uninterpretedOption

/-- Options of oneofs or extension ranges agree. -/
def PlainOptions.sameAs (a b : PlainOptions) : Bool :=
  sameUninterpreted a.uninterpretedOption b.uninterpretedOption

/-- Enum options agree. -/
def EnumOptions.sameAs (a b : EnumOptions) : Bool :=
  decide ({ a with uninterpretedOption := [] } = { b with uninterpretedOption := [] }) &&
    sameUninterpreted a.uninterpretedOption b.uninterpretedOption

/-- Enum value options agree. -/
def EnumValueOptions.sameAs (a b : EnumValueOptions) : Bool :=
  decide ({ a with uninterpretedOption := [] } = { b with uninterpretedOption := [] }) &&
    sameUninterpreted a.uninterpretedOption b.uninterpretedOption

/-- Service options agree. -/
def ServiceOptions.sameAs (a b : ServiceOptions) : Bool :=
  decide ({ a with uninterpretedOption := [] } = { b with uninterpretedOption := [] }) &&
    sameUninterpreted a.uninterpretedOption b.uninterpretedOption

/-- Method options agree. -/
def MethodOptions.sameAs (a b : MethodOptions) : Bool :=
  decide ({ a with uninterpretedOption := [] } = { b with uninterpretedOption := [] }) &&
    sameUninterpreted a.uninterpretedOption b.uninterpretedOption

/-- Fields agree. -/
def FieldDescriptor.sameAs (a b : FieldDescriptor) : Bool :=
  decide ({ a with options := none } = { b with options := none }) &&
    sameOption FieldOptions.sameAs a.options b.options

/-- Oneofs agree. -/
def OneofDescriptor.sameAs (a b : OneofDescriptor) : Bool :=
  a.name == b.name && sameOption PlainOptions.sameAs a.options b.options

/-- Extension ranges agree. -/
def ExtensionRange.sameAs (a b : ExtensionRange) : Bool :=
  a.start == b.start && a.stop == b.stop && sameOption PlainOptions.sameAs a.options b.options

/-- Enum values agree. -/
def EnumValueDescriptor.sameAs (a b : EnumValueDescriptor) : Bool :=
  a.name == b.name && a.number == b.number && sameOption EnumValueOptions.sameAs a.options b.options

/-- Enums agree. -/
def EnumDescriptor.sameAs (a b : EnumDescriptor) : Bool :=
  a.name == b.name && sameList EnumValueDescriptor.sameAs a.value b.value &&
    sameOption EnumOptions.sameAs a.options b.options &&
    decide (a.reservedRange = b.reservedRange) && a.reservedName == b.reservedName

/-- Methods agree. -/
def MethodDescriptor.sameAs (a b : MethodDescriptor) : Bool :=
  decide ({ a with options := none } = { b with options := none }) &&
    sameOption MethodOptions.sameAs a.options b.options

/-- Services agree. -/
def ServiceDescriptor.sameAs (a b : ServiceDescriptor) : Bool :=
  a.name == b.name && sameList MethodDescriptor.sameAs a.method b.method &&
    sameOption ServiceOptions.sameAs a.options b.options

/-- Messages agree, nested messages included. -/
def MessageDescriptor.sameAs : MessageDescriptor → MessageDescriptor → Bool
  | .mk n1 f1 t1 e1 r1 x1 o1 d1 v1 s1, .mk n2 f2 t2 e2 r2 x2 o2 d2 v2 s2 =>
    n1 == n2 && sameList FieldDescriptor.sameAs f1 f2 && sameNested t1 t2 &&
      sameList EnumDescriptor.sameAs e1 e2 && sameList ExtensionRange.sameAs r1 r2 &&
      sameList FieldDescriptor.sameAs x1 x2 && sameOption MessageOptions.sameAs o1 o2 &&
      sameList OneofDescriptor.sameAs d1 d2 && decide (v1 = v2) && s1 == s2
where
  /-- Lists of nested messages agree. -/
  sameNested : List MessageDescriptor → List MessageDescriptor → Bool
    | [], [] => true
    | a :: as, b :: bs => MessageDescriptor.sameAs a b && sameNested as bs
    | _, _ => false

/-- File descriptors agree. -/
def FileDescriptor.sameAs (a b : FileDescriptor) : Bool :=
  a.name == b.name && a.package == b.package && a.dependency == b.dependency &&
    sameList MessageDescriptor.sameAs a.messageType b.messageType &&
    sameList EnumDescriptor.sameAs a.enumType b.enumType &&
    sameList ServiceDescriptor.sameAs a.service b.service &&
    sameList FieldDescriptor.sameAs a.extension b.extension &&
    sameOption FileOptions.sameAs a.options b.options &&
    decide (a.sourceCodeInfo = b.sourceCodeInfo) &&
    a.publicDependency == b.publicDependency && a.weakDependency == b.weakDependency &&
    a.dialect == b.dialect

end ProtoSchema
