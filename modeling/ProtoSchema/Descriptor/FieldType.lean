/-!
Field types and labels as descriptors number them: the eighteen types of a
field (scalars, `group`, `message`, `enum`) and the three labels.

Main definitions: `FieldType`, `FieldType.number`, `FieldType.ofScalar?`,
`FieldLabel` and `FieldLabel.number`.
-/

namespace ProtoSchema

/-- The type of a field. -/
inductive FieldType where
  | double
  | float
  | int64
  | uint64
  | int32
  | fixed64
  | fixed32
  | bool
  | string
  | group
  | message
  | bytes
  | uint32
  | enum
  | sfixed32
  | sfixed64
  | sint32
  | sint64
  deriving DecidableEq, Repr, Inhabited

namespace FieldType

/-- The number of a type in descriptors. -/
def number : FieldType → Int
  | .double => 1
  | .float => 2
  | .int64 => 3
  | .uint64 => 4
  | .int32 => 5
  | .fixed64 => 6
  | .fixed32 => 7
  | .bool => 8
  | .string => 9
  | .group => 10
  | .message => 11
  | .bytes => 12
  | .uint32 => 13
  | .enum => 14
  | .sfixed32 => 15
  | .sfixed64 => 16
  | .sint32 => 17
  | .sint64 => 18

/-- The type of a scalar keyword. -/
def ofScalar? : String → Option FieldType
  | "double" => some .double
  | "float" => some .float
  | "int64" => some .int64
  | "uint64" => some .uint64
  | "int32" => some .int32
  | "fixed64" => some .fixed64
  | "fixed32" => some .fixed32
  | "bool" => some .bool
  | "string" => some .string
  | "bytes" => some .bytes
  | "uint32" => some .uint32
  | "sfixed32" => some .sfixed32
  | "sfixed64" => some .sfixed64
  | "sint32" => some .sint32
  | "sint64" => some .sint64
  | _ => none

end FieldType

/-- The label of a field. -/
inductive FieldLabel where
  | optional
  | required
  | repeated
  deriving DecidableEq, Repr, Inhabited

/-- The number of a label in descriptors. -/
def FieldLabel.number : FieldLabel → Int
  | .optional => 1
  | .required => 2
  | .repeated => 3

end ProtoSchema
