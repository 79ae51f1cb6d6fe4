import ProtoSchema.Proofs.Source.Throughout

/-!
Labels where the grammar allows them. The parser refuses a label on a member of a oneof,
and a group in a proto3 file (`LabelRules`, read off the syntax at any depth). Every schema
the parser returns keeps both rules (`parseSchemaChars_labelRules`): they follow, node by node, from
the checks the parser makes at every depth of what it returns (`parseSchema_throughout`), among
them the test each group makes of the file's version.
-/

namespace ProtoSchema

mutual

/-- Every statement of the message keeps the label rules. -/
def Message.LabelRules (proto3 : Bool) : Message → Prop
  | .mk _ body _ => MessageElement.BodyLabelRules proto3 body

def MessageElement.BodyLabelRules (proto3 : Bool) : List MessageElement → Prop
  | [] => True
  | e :: rest => MessageElement.LabelRules proto3 e ∧ MessageElement.BodyLabelRules proto3 rest

/-- A statement of a message body keeps the label rules: a group is not in a proto3 file, and
the messages it declares keep them. -/
def MessageElement.LabelRules (proto3 : Bool) : MessageElement → Prop
  | .group g => proto3 = false ∧ Group.LabelRules proto3 g
  | .oneof (.mk _ body _) => OneofElement.BodyLabelRules proto3 body
  | .message m => Message.LabelRules proto3 m
  | .extend (.mk _ body _) => ExtendElement.BodyLabelRules proto3 body
  | _ => True

/-- The message of a group keeps the label rules. -/
def Group.LabelRules (proto3 : Bool) : Group → Prop
  | .mk _ _ _ _ _ body _ => MessageElement.BodyLabelRules proto3 body

/-- A member of a oneof has no label, and a group member is not in a proto3 file. -/
def OneofElement.LabelRules (proto3 : Bool) : OneofElement → Prop
  | .field f => f.label = none
  | .group g => g.label = none ∧ proto3 = false ∧ Group.LabelRules proto3 g
  | .option _ => True

def OneofElement.BodyLabelRules (proto3 : Bool) : List OneofElement → Prop
  | [] => True
  | e :: rest => OneofElement.LabelRules proto3 e ∧ OneofElement.BodyLabelRules proto3 rest

/-- A field of an extend block keeps the label rules: a group is not in a proto3 file. -/
def ExtendElement.LabelRules (proto3 : Bool) : ExtendElement → Prop
  | .field _ => True
  | .group g => proto3 = false ∧ Group.LabelRules proto3 g

def ExtendElement.BodyLabelRules (proto3 : Bool) : List ExtendElement → Prop
  | [] => True
  | e :: rest => ExtendElement.LabelRules proto3 e ∧ ExtendElement.BodyLabelRules proto3 rest

end

def SchemaFile.LabelRulesOf (proto3 : Bool) (s : SchemaFile) : Prop :=
  (∀ m ∈ s.messages, m.LabelRules proto3) ∧ ∀ x ∈ s.extendBlocks, ExtendElement.BodyLabelRules proto3 x.body

/-- The messages and extend blocks of a file keep the label rules of its version. -/
def SchemaFile.LabelRules (s : SchemaFile) : Prop := s.LabelRulesOf (decide (s.dialect = .proto3))

def ExtendElement.asOneofMember : ExtendElement → OneofElement
  | .field f => .field f
  | .group g => .group g

/-- Checks on fields and groups that give the label rules, for a file of version proto3 or not as
`proto3` says: a field passing its check in a oneof has no label, and a group passing its check is
not in a proto3 file and, in a oneof, has no label. -/
structure NodeChecks.KeepLabels (C : NodeChecks) (proto3 : Bool) : Prop where
  field : ∀ site f, C.field site f → site = .oneof → f.label = none
  group : ∀ site g, C.group site g → proto3 = false ∧ (site = .oneof → g.label = none)

section Conversion

variable {C : NodeChecks} {p : Bool}

/-! Syntax passing checks that give the label rules keeps them, by recursion on the syntax: the
label rules ask of each field and group what its check gives, where the checks ask it. -/

mutual

theorem Message.labelRules_of_throughout (hC : C.KeepLabels p) (m : Message) (h : m.Throughout C) :
    m.LabelRules p := by
  cases m with
  | mk name body decl => exact MessageElement.bodyLabelRules_of_throughout hC body h

theorem MessageElement.bodyLabelRules_of_throughout (hC : C.KeepLabels p) (l : List MessageElement)
    (h : MessageElement.BodyThroughout C l) : MessageElement.BodyLabelRules p l := by
  cases l with
  | nil => trivial
  | cons e rest =>
    exact ⟨MessageElement.labelRules_of_throughout hC e h.1, MessageElement.bodyLabelRules_of_throughout hC rest h.2⟩

theorem MessageElement.labelRules_of_throughout (hC : C.KeepLabels p) (e : MessageElement)
    (h : e.Throughout C) : e.LabelRules p := by
  cases e with
  | group g => exact ⟨(hC.group _ _ h.1).1, Group.labelRules_of_throughout hC g h.2⟩
  | oneof o =>
    cases o with
    | mk name body decl => exact OneofElement.bodyLabelRules_of_throughout hC body h
  | message m => exact Message.labelRules_of_throughout hC m h
  | extend x =>
    cases x with
    | mk extendee body decl => exact ExtendElement.bodyLabelRules_of_throughout hC body h
  | field | map | enum | extensions | reserved | option => trivial

theorem Group.labelRules_of_throughout (hC : C.KeepLabels p) (g : Group) (h : g.Throughout C) :
    g.LabelRules p := by
  cases g with
  | mk label kw name number options body decl => exact MessageElement.bodyLabelRules_of_throughout hC body h

theorem OneofElement.labelRules_of_throughout (hC : C.KeepLabels p) (e : OneofElement)
    (h : e.Throughout C) : e.LabelRules p := by
  cases e with
  | field f => exact hC.field _ _ h rfl
  | group g =>
    obtain ⟨hp, hl⟩ := hC.group _ _ h.1
    exact ⟨hl rfl, hp, Group.labelRules_of_throughout hC g h.2⟩
  | option o => trivial

theorem OneofElement.bodyLabelRules_of_throughout (hC : C.KeepLabels p) (l : List OneofElement)
    (h : OneofElement.BodyThroughout C l) : OneofElement.BodyLabelRules p l := by
  cases l with
  | nil => trivial
  | cons e rest =>
    exact ⟨OneofElement.labelRules_of_throughout hC e h.1, OneofElement.bodyLabelRules_of_throughout hC rest h.2⟩

theorem ExtendElement.labelRules_of_throughout (hC : C.KeepLabels p) (e : ExtendElement)
    (h : e.Throughout C .extend) : e.LabelRules p := by
  cases e with
  | field f => trivial
  | group g => exact ⟨(hC.group _ _ h.1).1, Group.labelRules_of_throughout hC g h.2⟩

theorem ExtendElement.bodyLabelRules_of_throughout (hC : C.KeepLabels p) (l : List ExtendElement)
    (h : ExtendElement.BodyThroughout C l) : ExtendElement.BodyLabelRules p l := by
  cases l with
  | nil => trivial
  | cons e rest =>
    exact ⟨ExtendElement.labelRules_of_throughout hC e h.1, ExtendElement.bodyLabelRules_of_throughout hC rest h.2⟩

end

theorem SchemaFile.labelRulesOf_of_throughout (hC : C.KeepLabels p) {s : SchemaFile} (h : s.Throughout C) :
    s.LabelRulesOf p :=
  ⟨fun m hm => m.labelRules_of_throughout hC (h.1 m hm),
    fun x hx => ExtendElement.bodyLabelRules_of_throughout hC x.body (h.2 x hx)⟩

end Conversion

theorem parsedChecks_keepLabels (d : Dialect) : (parsedChecks d).KeepLabels (decide (d = .proto3)) where
  field _ _ h := h.oneof_unlabelled
  group _ _ h := ⟨by simp [h.proto2], h.oneof_unlabelled⟩

/-- Every schema the parser returns keeps the label rules of its version: no member of a oneof
has a label, and a proto3 file has no group. -/
theorem parseSchemaChars_labelRules {cs : List Char} {s : SchemaFile} (h : parseSchemaChars cs = .ok s) :
    s.LabelRules :=
  SchemaFile.labelRulesOf_of_throughout (parsedChecks_keepLabels s.dialect)
    (parseSchemaChars_throughout h (NodeChecks.Le.refl _))

theorem loadSource_labelRules {bucket : Bucket} {src : SourceOrigin} {f : ParsedFile}
    (h : loadSource bucket src = .ok (.parsed f)) : f.schema.LabelRules := by
  obtain ⟨cs, hcs⟩ := loadSource_parsed h
  exact parseSchemaChars_labelRules hcs

end ProtoSchema
