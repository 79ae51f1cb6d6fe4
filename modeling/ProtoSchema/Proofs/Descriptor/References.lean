import ProtoSchema.Proofs.Image
import ProtoSchema.SymbolTable.Basic
import ProtoSchema.Descriptor.FieldType

/-!
References between the files of an image. A descriptor declares types under full names: each
message with the messages nested in it and the enums of each, at any depth, inside the package of
its file (`FileDescriptor.types`). It refers to types by name: the type of every field whose type
is a message, a group or an enum, the message an extension extends, and the input and output of
every method (`FileDescriptor.typeRefs`). A reference is declared in a descriptor when it is a dot
and the full name of a type the descriptor declares, an enum exactly when the field's type is
(`TypeRef.DeclaredIn`).

The other files whose types a file may use are the files it imports and, through any number of
public imports, the files those re-export (`Image.Sees`). In a valid image each of them stands
before the file (`Image.Valid.precedes_of_sees`).
-/

namespace ProtoSchema

/-- A reference by name from a descriptor to a type, with the kind of type it must name. -/
structure TypeRef where
  name : String
  kind : SymbolKind
  deriving DecidableEq, Repr

namespace FieldDescriptor

def refKind (fd : FieldDescriptor) : SymbolKind :=
  if fd.type = some FieldType.enum.number then .enum else .message

/-- The types a field refers to: its own, and the message it extends when it is an extension. -/
def typeRefs (fd : FieldDescriptor) : List TypeRef :=
  (fd.typeName.map fun n => ⟨n, fd.refKind⟩).toList ++ (fd.extendee.map fun n => ⟨n, .message⟩).toList

end FieldDescriptor

/-- The types a method refers to: its input and its output, both messages. -/
def MethodDescriptor.typeRefs (m : MethodDescriptor) : List TypeRef :=
  (m.inputType.map fun n => ⟨n, .message⟩).toList ++ (m.outputType.map fun n => ⟨n, .message⟩).toList

namespace MessageDescriptor

mutual

/-- The types the fields and extensions of a message refer to, in the messages nested in it too. -/
def typeRefs : MessageDescriptor → List TypeRef
  | .mk _ field nested _ _ ext _ _ _ _ =>
    field.flatMap FieldDescriptor.typeRefs ++ nestedTypeRefs nested ++ ext.flatMap FieldDescriptor.typeRefs

def nestedTypeRefs : List MessageDescriptor → List TypeRef
  | [] => []
  | m :: ms => typeRefs m ++ nestedTypeRefs ms

end

mutual

/-- The types a message declares in `scope`, by full name: itself, then the messages nested in it
and its enums, at any depth. -/
def types (scope : String) : MessageDescriptor → List (String × SymbolKind)
  | .mk name _ nested enums _ _ _ _ _ _ =>
    (qualify scope (name.getD ""), .message) :: (nestedTypes (qualify scope (name.getD "")) nested ++
      enums.map fun e => (qualify (qualify scope (name.getD "")) (e.name.getD ""), .enum))

def nestedTypes (scope : String) : List MessageDescriptor → List (String × SymbolKind)
  | [] => []
  | m :: ms => types scope m ++ nestedTypes scope ms

end

theorem nestedTypeRefs_eq (ms : List MessageDescriptor) : nestedTypeRefs ms = ms.flatMap typeRefs := by
  induction ms with
  | nil => rfl
  | cons m ms ih => simp [nestedTypeRefs, ih]

theorem nestedTypes_eq (scope : String) (ms : List MessageDescriptor) :
    nestedTypes scope ms = ms.flatMap (types scope) := by
  induction ms with
  | nil => rfl
  | cons m ms ih => simp [nestedTypes, ih]

theorem typeRefs_eq (md : MessageDescriptor) :
    md.typeRefs = md.field.flatMap FieldDescriptor.typeRefs ++ md.nestedType.flatMap typeRefs ++
      md.extension.flatMap FieldDescriptor.typeRefs := by
  cases md
  rw [typeRefs, nestedTypeRefs_eq]
  rfl

theorem types_eq (scope : String) (md : MessageDescriptor) :
    md.types scope = (qualify scope (md.name.getD ""), .message) ::
      (md.nestedType.flatMap (types (qualify scope (md.name.getD ""))) ++
        md.enumType.map fun e => (qualify (qualify scope (md.name.getD "")) (e.name.getD ""), .enum)) := by
  cases md
  rw [types, nestedTypes_eq]
  rfl

end MessageDescriptor

namespace FileDescriptor

def scope (d : FileDescriptor) : String := d.package.getD ""

/-- The types the file declares, by full name: its messages with all they declare, and its enums. -/
def types (d : FileDescriptor) : List (String × SymbolKind) :=
  d.messageType.flatMap (MessageDescriptor.types d.scope) ++
    d.enumType.map fun e => (qualify d.scope (e.name.getD ""), .enum)

/-- The types the file refers to: from its messages at any depth, its extensions and its methods. -/
def typeRefs (d : FileDescriptor) : List TypeRef :=
  d.messageType.flatMap MessageDescriptor.typeRefs ++ d.extension.flatMap FieldDescriptor.typeRefs ++
    d.service.flatMap fun s => s.method.flatMap MethodDescriptor.typeRefs

end FileDescriptor

/-- The reference is a dot and the full name of a type the descriptor declares, of the kind it
asks for. -/
def TypeRef.DeclaredIn (r : TypeRef) (d : FileDescriptor) : Prop :=
  ∃ x ∈ d.types, r.name = "." ++ x.1 ∧ r.kind = x.2

instance (r : TypeRef) (d : FileDescriptor) : Decidable (r.DeclaredIn d) :=
  inferInstanceAs (Decidable (∃ x ∈ d.types, r.name = "." ++ x.1 ∧ r.kind = x.2))

def ImageFile.PubliclyImports (f : ImageFile) (n : String) : Prop :=
  ∃ k : Nat, (k : Int) ∈ f.descriptor.publicDependency ∧ f.imports[k]? = some n

namespace Image

/-- The files of the image whose types `f` may use besides its own: those it imports, and every
file one of those imports publicly, through any number of public imports. -/
inductive Sees (img : Image) (f : ImageFile) : ImageFile → Prop
  | imported {g : ImageFile} : g ∈ img.files → g.name ∈ f.imports → Sees img f g
  | reexported {g h : ImageFile} : Sees img f g → h ∈ img.files → g.PubliclyImports h.name → Sees img f h

def Precedes (img : Image) (g f : ImageFile) : Prop :=
  ∃ i j : Nat, i < j ∧ img.files[i]? = some g ∧ img.files[j]? = some f

theorem Sees.mem {img : Image} {f g : ImageFile} (h : img.Sees f g) : g ∈ img.files := by
  cases h with
  | imported hg _ => exact hg
  | reexported _ hh _ => exact hh

section Valid

variable {img : Image} (hv : Valid true img.files)
include hv

theorem Valid.index_eq {i j : Nat} {f : ImageFile} (hi : img.files[i]? = some f) (hj : img.files[j]? = some f) :
    i = j := by
  have hni : (img.files.map ImageFile.name)[i]? = some f.name := by simp [hi]
  have hnj : (img.files.map ImageFile.name)[j]? = some f.name := by simp [hj]
  exact (List.getElem?_inj (List.getElem?_eq_some_iff.mp hni).1 hv.2.1).mp (hni.trans hnj.symm)

theorem Valid.precedes_trans {f g h : ImageFile} (hgf : img.Precedes g f) (hhg : img.Precedes h g) :
    img.Precedes h f := by
  obtain ⟨i, j, hij, hg, hf⟩ := hgf
  obtain ⟨i', j', hij', hh, hg'⟩ := hhg
  have hji : j' = i := hv.index_eq hg' hg
  exact ⟨i', j, by omega, hh, hf⟩

theorem Valid.precedes_of_import {f g : ImageFile} (hf : f ∈ img.files) (hg : g ∈ img.files)
    (himp : g.name ∈ f.imports) : img.Precedes g f := by
  obtain ⟨k, hk, rfl⟩ := List.getElem_of_mem hf
  obtain ⟨j, hjk, hname⟩ := hv.import_lt hk himp
  obtain ⟨j', hj', rfl⟩ := List.getElem_of_mem hg
  have hj'n : (img.files.map ImageFile.name)[j']? = some img.files[j'].name := by simp [hj']
  have hjj : j = j' := (List.getElem?_inj (List.getElem?_eq_some_iff.mp hname).1 hv.2.1).mp (hname.trans hj'n.symm)
  subst hjj
  exact ⟨j, k, hjk, List.getElem?_eq_getElem hj', List.getElem?_eq_getElem hk⟩

/-- In a valid image every file a file sees stands before it. -/
theorem Valid.precedes_of_sees {f g : ImageFile} (hf : f ∈ img.files) (h : img.Sees f g) :
    img.Precedes g f := by
  induction h with
  | imported hg himp => exact hv.precedes_of_import hf hg himp
  | reexported hsees hh hpub ih =>
    obtain ⟨k, -, hk⟩ := hpub
    exact hv.precedes_trans ih (hv.precedes_of_import hsees.mem hh (List.mem_of_getElem? hk))

end Valid

end Image

end ProtoSchema
