import ProtoSchema.SymbolTable.Collect

/-!
The names of the fields of a message body, read off its syntax: each field, map field and
group declares one, and so does each member of a oneof. `Message.DistinctFields` says that
in a message, and in every message declared inside it at any depth (nested messages,
groups, and the groups of its oneofs and extend blocks), no two fields share a name.
-/

namespace ProtoSchema

def OneofElement.fieldName? : OneofElement → Option String
  | .field f => some f.name.value
  | .group g => some (groupFieldName g.name.value)
  | .option _ => none

def MessageElement.fieldNames : MessageElement → List String
  | .field f => [f.name.value]
  | .map m => [m.name.value]
  | .group g => [groupFieldName g.name.value]
  | .oneof (.mk _ body _) => body.filterMap OneofElement.fieldName?
  | _ => []

mutual

/-- The fields of the message have distinct names, and so do those of every message
declared in it. -/
def Message.DistinctFields : Message → Prop
  | .mk _ body _ => (body.flatMap MessageElement.fieldNames).Nodup ∧ MessageElement.BodyDistinctFields body

def MessageElement.BodyDistinctFields : List MessageElement → Prop
  | [] => True
  | e :: rest => MessageElement.DistinctFields e ∧ MessageElement.BodyDistinctFields rest

/-- Every message one statement of a body declares has fields of distinct names. -/
def MessageElement.DistinctFields : MessageElement → Prop
  | .group g => Group.DistinctFields g
  | .oneof (.mk _ body _) => OneofElement.BodyDistinctFields body
  | .message m => Message.DistinctFields m
  | .extend (.mk _ body _) => ExtendElement.BodyDistinctFields body
  | _ => True

/-- The fields of the message of the group have distinct names, and so do those of every
message declared in it. -/
def Group.DistinctFields : Group → Prop
  | .mk _ _ _ _ _ body _ =>
    (body.flatMap MessageElement.fieldNames).Nodup ∧ MessageElement.BodyDistinctFields body

def OneofElement.BodyDistinctFields : List OneofElement → Prop
  | [] => True
  | .group g :: rest => Group.DistinctFields g ∧ OneofElement.BodyDistinctFields rest
  | _ :: rest => OneofElement.BodyDistinctFields rest

def ExtendElement.BodyDistinctFields : List ExtendElement → Prop
  | [] => True
  | .group g :: rest => Group.DistinctFields g ∧ ExtendElement.BodyDistinctFields rest
  | _ :: rest => ExtendElement.BodyDistinctFields rest

end

/-- Every message a schema file declares, at any depth, has fields of distinct names: its
messages, and the groups of its extend blocks. -/
def SchemaFile.DistinctFields (s : SchemaFile) : Prop :=
  (∀ m ∈ s.messages, m.DistinctFields) ∧ ∀ x ∈ s.extendBlocks, ExtendElement.BodyDistinctFields x.body

end ProtoSchema
