import ProtoSchema.Source.Span
import ProtoSchema.Number.Binary64

/-!
The syntax tree of a schema file. It keeps every statement in the order
written, since descriptors are built in that order, and the span and comments
of everything that source info can point at. Names are kept as written;
resolving them is the linker's job.

A file that was read and parsed is known to a build by the name imports refer to it by, the
path annotations name it by (its bucket path, or its name for an embedded file), and its
syntax tree (`ParsedFile`).

Main definitions: `SchemaFile` and the element types of messages, oneofs,
extend blocks, enums and services, and `ParsedFile`.
-/

namespace ProtoSchema

/-- The two language versions a file may declare; a file without a declaration is `proto2`. -/
inductive Dialect where
  | proto2
  | proto3
  deriving DecidableEq, Repr, Inhabited

def Dialect.name : Dialect → String
  | .proto2 => "proto2"
  | .proto3 => "proto3"

/-- How an import makes the imported file's names visible. -/
inductive ImportKind where
  /-- Visible to the importing file only. -/
  | normal
  /-- Visible also to every file that imports the importing file. -/
  | exported
  | weak
  deriving DecidableEq, Repr, Inhabited

/-- The `package` statement. -/
structure Package where
  name : Spanned String
  decl : Declaration
  deriving Repr, Inhabited

/-- An `import` statement. -/
structure Import where
  path : Spanned String
  kind : ImportKind
  decl : Declaration
  deriving Repr, Inhabited

/-- One dotted part of an option name; an extension part is written in parentheses. -/
structure OptionNamePart where
  name : String
  isExtension : Bool
  span : Span
  deriving DecidableEq, Repr, Inhabited

/-- The value of an option as written. -/
inductive OptionValue where
  /-- A bare, possibly dotted, identifier: `true`, `false`, enum value names, `inf`, `nan`. -/
  | ident (name : String)
  /-- An integer literal, with a leading minus sign or not. -/
  | int (negative : Bool) (magnitude : Nat)
  | float (value : Binary64)
  | str (bytes : List UInt8)
  /-- A braced text-format message, its tokens joined by single spaces. -/
  | aggregate (text : String)
  deriving DecidableEq, Repr, Inhabited

def wrapInt64 (n : Int) : Int := (n + Int.pow 2 63) % Int.pow 2 64 - Int.pow 2 63

/-- An option statement or one entry of a bracketed option list. -/
structure OptionDecl where
  name : List OptionNamePart
  value : Spanned OptionValue
  decl : Declaration
  deriving Repr, Inhabited

namespace OptionDecl

def nameText (o : OptionDecl) : String :=
  ".".intercalate (o.name.map fun p => if p.isExtension then "(" ++ p.name ++ ")" else p.name)

def simpleName? (o : OptionDecl) : Option String :=
  match o.name with
  | [p] => if p.isExtension then none else some p.name
  | _ => none

def nameSpan (o : OptionDecl) : Span :=
  let first := (o.name.head?.map (·.span)).getD {}
  let last := (o.name.getLast?.map (·.span)).getD {}
  first.join last

end OptionDecl

/-- A field label. -/
inductive LabelKind where
  | optional
  | required
  | repeated
  deriving DecidableEq, Repr, Inhabited

/-- A field of a message, a oneof or an extend block. -/
structure Field where
  label : Option (Spanned LabelKind)
  /-- The type as written: a scalar keyword or a possibly dotted type name. -/
  typeName : Spanned String
  name : Spanned String
  number : Spanned Int
  options : List OptionDecl
  decl : Declaration
  deriving Repr, Inhabited

/-- A map field `map<K, V> name = n;`. -/
structure MapField where
  keyType : Spanned String
  valueType : Spanned String
  /-- The span of the whole `map<K, V>`. -/
  typeSpan : Span
  name : Spanned String
  number : Spanned Int
  options : List OptionDecl
  decl : Declaration
  deriving Repr, Inhabited

/-- A number range: one number, `a to b`, or `a to max` (an end whose value is `none`). -/
structure NumberRange where
  start : Spanned Int
  stop : Option (Spanned (Option Int))
  span : Span
  deriving Repr, Inhabited

/-- An `extensions` statement. -/
structure ExtensionRanges where
  ranges : List NumberRange
  options : List OptionDecl
  decl : Declaration
  deriving Repr, Inhabited

/-- What a `reserved` statement reserves. -/
inductive ReservedKind where
  | ranges (ranges : List NumberRange)
  | names (names : List (Spanned String))
  deriving Repr, Inhabited

/-- A `reserved` statement. -/
structure Reserved where
  kind : ReservedKind
  decl : Declaration
  deriving Repr, Inhabited

/-- A value of an enum. -/
structure EnumValue where
  name : Spanned String
  number : Spanned Int
  options : List OptionDecl
  decl : Declaration
  deriving Repr, Inhabited

/-- A statement in an enum body. -/
inductive EnumElement where
  | value (v : EnumValue)
  | option (o : OptionDecl)
  | reserved (r : Reserved)
  deriving Repr, Inhabited

/-- An enum. -/
structure Enum where
  name : Spanned String
  body : List EnumElement
  decl : Declaration
  deriving Repr, Inhabited

/-- The request or response type of a method, and the span of `stream` if written. -/
structure MethodType where
  stream : Option Span
  name : Spanned String
  deriving Repr, Inhabited

/-- An `rpc` of a service. -/
structure Method where
  name : Spanned String
  input : MethodType
  output : MethodType
  options : List OptionDecl
  decl : Declaration
  deriving Repr, Inhabited

/-- A statement in a service body. -/
inductive ServiceElement where
  | method (m : Method)
  | option (o : OptionDecl)
  deriving Repr, Inhabited

/-- A service. -/
structure Service where
  name : Spanned String
  body : List ServiceElement
  decl : Declaration
  deriving Repr, Inhabited

mutual

/-- A message: its name, its statements in order, and its declaration. -/
inductive Message where
  | mk (name : Spanned String) (body : List MessageElement) (decl : Declaration)

/-- A statement in a message body. -/
inductive MessageElement where
  | field (f : Field)
  | map (m : MapField)
  | group (g : Group)
  | oneof (o : Oneof)
  | message (m : Message)
  | enum (e : Enum)
  | extend (e : Extend)
  | extensions (r : ExtensionRanges)
  | reserved (r : Reserved)
  | option (o : OptionDecl)

/-- A group: a field whose type is the message declared with it. -/
inductive Group where
  | mk (label : Option (Spanned LabelKind)) (keywordSpan : Span) (name : Spanned String)
      (number : Spanned Int) (options : List OptionDecl) (body : List MessageElement)
      (decl : Declaration)

/-- A oneof: its name, its statements in order, and its declaration. -/
inductive Oneof where
  | mk (name : Spanned String) (body : List OneofElement) (decl : Declaration)

/-- A statement in a oneof body. -/
inductive OneofElement where
  | field (f : Field)
  | group (g : Group)
  | option (o : OptionDecl)

/-- An `extend` block: the extended message as written, and the fields it adds. -/
inductive Extend where
  | mk (extendee : Spanned String) (body : List ExtendElement) (decl : Declaration)

/-- A field added by an extend block. -/
inductive ExtendElement where
  | field (f : Field)
  | group (g : Group)

end

instance : Inhabited Message := ⟨.mk ⟨"", {}⟩ [] {}⟩
instance : Inhabited Group := ⟨.mk none {} ⟨"", {}⟩ ⟨0, {}⟩ [] [] {}⟩
instance : Inhabited Extend := ⟨.mk ⟨"", {}⟩ [] {}⟩

namespace Message
def name : Message → Spanned String | .mk n _ _ => n
def body : Message → List MessageElement | .mk _ b _ => b
def decl : Message → Declaration | .mk _ _ d => d
end Message

namespace Group
def label : Group → Option (Spanned LabelKind) | .mk l _ _ _ _ _ _ => l
def keywordSpan : Group → Span | .mk _ k _ _ _ _ _ => k
def name : Group → Spanned String | .mk _ _ n _ _ _ _ => n
def number : Group → Spanned Int | .mk _ _ _ n _ _ _ => n
def options : Group → List OptionDecl | .mk _ _ _ _ o _ _ => o
def body : Group → List MessageElement | .mk _ _ _ _ _ b _ => b
def decl : Group → Declaration | .mk _ _ _ _ _ _ d => d
end Group

namespace Oneof
def name : Oneof → Spanned String | .mk n _ _ => n
def body : Oneof → List OneofElement | .mk _ b _ => b
def decl : Oneof → Declaration | .mk _ _ d => d
end Oneof

namespace Extend
def extendee : Extend → Spanned String | .mk e _ _ => e
def body : Extend → List ExtendElement | .mk _ b _ => b
def decl : Extend → Declaration | .mk _ _ d => d
end Extend

/-- A parsed schema file. -/
structure SchemaFile where
  dialect : Dialect
  /-- The version statement, if the file has one. -/
  dialectDecl : Option Declaration
  package : Option Package
  imports : List Import
  options : List OptionDecl
  messages : List Message
  enums : List Enum
  services : List Service
  extendBlocks : List Extend
  /-- From the first token to the last. -/
  span : Span
  deriving Inhabited

def scalarTypeNames : List String :=
  ["double", "float", "int64", "uint64", "int32", "fixed64", "fixed32", "bool", "string",
   "bytes", "uint32", "sfixed32", "sfixed64", "sint32", "sint64"]

def isScalarTypeName (s : String) : Bool := scalarTypeNames.contains s

/-- A parsed schema file of a build. -/
structure ParsedFile where
  /-- The name relative to its root, as imports write it. -/
  name : String
  /-- Where the text came from; annotations use it. -/
  path : String
  schema : SchemaFile
  deriving Inhabited

end ProtoSchema
