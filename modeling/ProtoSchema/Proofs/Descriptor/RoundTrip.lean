import Mathlib
import ProtoSchema.Proofs.Wire.Fields

/-!
Descriptors read back from their binary form. Each message is written one field
after the other in field-number order, and its reader folds each field into the
message built so far; so the reading of a whole message is the chain of the
readings of its fields, each recorded by the setter of its field, and ends at the
message itself.

Two things can stop a message from reading back, and the statements assume
neither. An integer written as `int32` or `int64` comes back as the low bits of
what was written, so it must fit its width (`Fits`). And the reader enters at
most `budget` levels of embedded messages, so the message must not nest deeper
(`depth`).

Main statements: `MessageDescriptor.merge_encode`, `FileDescriptor.merge_encode_append`
and `FileDescriptor.encode_skipped`.
-/

namespace ProtoSchema

open Wire

variable {α β : Type}

/-! ### Widths of integers and levels of embedded messages -/

def FitsInt32 (v : Int) : Prop := -2 ^ 31 ≤ v ∧ v < 2 ^ 31

def levels (d : β → Nat) (xs : List β) : Nat := (xs.map fun x => d x + 1).foldr max 0

theorem levels_le_iff {d : β → Nat} {xs : List β} {n : Nat} :
    levels d xs ≤ n ↔ ∀ x ∈ xs, d x + 1 ≤ n := by
  induction xs with
  | nil => simp [levels]
  | cons x xs ih =>
    simp only [levels, List.map_cons, List.foldr_cons, max_le_iff, List.mem_cons,
      forall_eq_or_imp] at ih ⊢
    rw [ih]

theorem budget_of_levels_le {d : β → Nat} {xs : List β} {budget : Nat} (h : levels d xs ≤ budget)
    {x : β} (hx : x ∈ xs) : budget ≠ 0 ∧ d x ≤ budget - 1 := by
  have := levels_le_iff.mp h x hx
  omega

theorem Layout.nested {tag budget : Nat} {merge : Nat → β → Input → Except WireError β} {init : β}
    {enc : β → List UInt8} {d : β → Nat} {xs : List β} {x : β} (hd : levels d xs ≤ budget)
    (hx : x ∈ xs)
    (hread : d x ≤ budget - 1 → (enc x).length < 2 ^ 64 → merge (budget - 1) init (enc x) = .ok x) :
    Layout tag .len (embedded budget merge init) (fieldMessage tag enc x) x :=
  .message (budget_of_levels_le hd hx).1 (hread (budget_of_levels_le hd hx).2)

namespace UninterpretedOption

/-- Levels of embedded messages: one when the option has a name. -/
def depth (u : UninterpretedOption) : Nat := levels (fun _ => 0) u.name

/-- The integer values fit the widths they are written with. -/
def Fits (u : UninterpretedOption) : Prop :=
  (∀ n ∈ u.positiveIntValue, n < 2 ^ 64) ∧ ∀ v ∈ u.negativeIntValue, -2 ^ 63 ≤ v ∧ v < 2 ^ 63

end UninterpretedOption

def customDepth (os : List UninterpretedOption) : Nat := levels UninterpretedOption.depth os

/-! ### Custom options -/

theorem NamePart.merge_encode (budget : Nat) (p : NamePart) (hlen : p.encode.length < 2 ^ 64) :
    NamePart.merge budget {} p.encode = .ok p := by
  refine mergeAll_of_reads ?_ hlen
  exact .append
    (.one (fun w => ({ namePart := w } : NamePart)) (.string _) (by decide) fun _ => rfl)
    (.one (fun w => ({ namePart := p.namePart, isExtension := w } : NamePart)) (.bool _) (by decide)
      fun _ => rfl)

theorem UninterpretedOption.merge_encode (budget : Nat) (u : UninterpretedOption) (hf : u.Fits)
    (hd : u.depth ≤ budget) (hlen : u.encode.length < 2 ^ 64) :
    UninterpretedOption.merge budget {} u.encode = .ok u := by
  obtain ⟨hpos, hneg⟩ := hf
  refine mergeAll_of_reads ?_ hlen
  unfold UninterpretedOption.encode
  simp only [List.append_assoc]
  refine .append (.many u.name (fun (a : UninterpretedOption) l => { a with name := l })
    (fun p hp => .nested hd hp fun _ => NamePart.merge_encode _ p)
    (by decide) rfl fun _ _ => rfl) ?_
  refine .append (.opt u.identifierValue
    (fun (a : UninterpretedOption) y => { a with identifierValue := y })
    (fun v _ => .string v) (by decide) rfl fun _ => rfl) ?_
  refine .append (.opt u.positiveIntValue
    (fun (a : UninterpretedOption) y => { a with positiveIntValue := y })
    (fun v hv => .uint64 (hpos v hv)) (by decide) rfl fun _ => rfl) ?_
  refine .append (.opt u.negativeIntValue
    (fun (a : UninterpretedOption) y => { a with negativeIntValue := y })
    (fun v hv => .int64 (hneg v hv)) (by decide) rfl fun _ => rfl) ?_
  refine .append (.opt u.doubleValue
    (fun (a : UninterpretedOption) y => { a with doubleValue := y })
    (fun v _ => .double v) (by decide) rfl fun _ => rfl) ?_
  refine .append (.opt u.stringValue
    (fun (a : UninterpretedOption) y => { a with stringValue := y })
    (fun v _ => .bytes v) (by decide) rfl fun _ => rfl) ?_
  exact .opt u.aggregateValue (fun (a : UninterpretedOption) y => { a with aggregateValue := y })
    (fun v _ => .string v) (by decide) rfl fun _ => rfl

theorem Reads.custom {step : α → Nat → WireType → Input → Except WireError (α × Input)} {acc : α}
    (budget : Nat) (os : List UninterpretedOption) (set : α → List UninterpretedOption → α)
    (hf : ∀ u ∈ os, u.Fits) (hd : customDepth os ≤ budget) (hnil : set acc [] = acc)
    (hstep : ∀ l r, step (set acc l) 999 .len r =
      (do let (v, r') ← addUninterpreted budget l .len r; return (set acc v, r'))) :
    Reads step acc (encodeUninterpreted os) (set acc os) := by
  refine .manyOf os set hnil fun l u hu => ?_
  obtain ⟨value, heq, hread⟩ : Layout 999 .len (embedded budget UninterpretedOption.merge {})
      (fieldMessage 999 UninterpretedOption.encode u) u :=
    .nested hd hu (UninterpretedOption.merge_encode _ u (hf u hu))
  rw [heq] at hread ⊢
  refine .field (by decide) fun hlen rest => ?_
  rw [hstep]
  simp only [addUninterpreted, bind, Except.bind, hread hlen rest]
  rfl

/-! ### Options messages -/

namespace FileOptions

/-- The integer values fit the widths they are written with. -/
def Fits (o : FileOptions) : Prop :=
  (∀ v ∈ o.optimizeFor, FitsInt32 v) ∧ ∀ u ∈ o.uninterpretedOption, u.Fits

theorem merge_encode (budget : Nat) (o : FileOptions) (hf : o.Fits)
    (hd : customDepth o.uninterpretedOption ≤ budget) (hlen : o.encode.length < 2 ^ 64) :
    FileOptions.merge budget {} o.encode = .ok o := by
  obtain ⟨hint, hcustom⟩ := hf
  refine mergeAll_of_reads ?_ hlen
  unfold FileOptions.encode
  simp only [List.append_assoc]
  refine .append (.opt o.javaPackage (fun (a : FileOptions) y => { a with javaPackage := y })
    (fun v _ => .string v) (by decide) rfl fun _ => rfl) ?_
  refine .append (.opt o.javaOuterClassname
    (fun (a : FileOptions) y => { a with javaOuterClassname := y })
    (fun v _ => .string v) (by decide) rfl fun _ => rfl) ?_
  refine .append (.opt o.optimizeFor (fun (a : FileOptions) y => { a with optimizeFor := y })
    (fun v hv => .int32 (hint v hv)) (by decide) rfl fun _ => rfl) ?_
  refine .append (.opt o.javaMultipleFiles
    (fun (a : FileOptions) y => { a with javaMultipleFiles := y })
    (fun v _ => .bool v) (by decide) rfl fun _ => rfl) ?_
  refine .append (.opt o.goPackage (fun (a : FileOptions) y => { a with goPackage := y })
    (fun v _ => .string v) (by decide) rfl fun _ => rfl) ?_
  refine .append (.opt o.ccGenericServices
    (fun (a : FileOptions) y => { a with ccGenericServices := y })
    (fun v _ => .bool v) (by decide) rfl fun _ => rfl) ?_
  refine .append (.opt o.javaGenericServices
    (fun (a : FileOptions) y => { a with javaGenericServices := y })
    (fun v _ => .bool v) (by decide) rfl fun _ => rfl) ?_
  refine .append (.opt o.pyGenericServices
    (fun (a : FileOptions) y => { a with pyGenericServices := y })
    (fun v _ => .bool v) (by decide) rfl fun _ => rfl) ?_
  refine .append (.opt o.javaGenerateEqualsAndHash
    (fun (a : FileOptions) y => { a with javaGenerateEqualsAndHash := y })
    (fun v _ => .bool v) (by decide) rfl fun _ => rfl) ?_
  refine .append (.opt o.deprecated (fun (a : FileOptions) y => { a with deprecated := y })
    (fun v _ => .bool v) (by decide) rfl fun _ => rfl) ?_
  refine .append (.opt o.javaStringCheckUtf8
    (fun (a : FileOptions) y => { a with javaStringCheckUtf8 := y })
    (fun v _ => .bool v) (by decide) rfl fun _ => rfl) ?_
  refine .append (.opt o.ccEnableArenas (fun (a : FileOptions) y => { a with ccEnableArenas := y })
    (fun v _ => .bool v) (by decide) rfl fun _ => rfl) ?_
  refine .append (.opt o.objcClassPrefix
    (fun (a : FileOptions) y => { a with objcClassPrefix := y })
    (fun v _ => .string v) (by decide) rfl fun _ => rfl) ?_
  refine .append (.opt o.csharpNamespace
    (fun (a : FileOptions) y => { a with csharpNamespace := y })
    (fun v _ => .string v) (by decide) rfl fun _ => rfl) ?_
  refine .append (.opt o.swiftPrefix (fun (a : FileOptions) y => { a with swiftPrefix := y })
    (fun v _ => .string v) (by decide) rfl fun _ => rfl) ?_
  refine .append (.opt o.phpClassPrefix (fun (a : FileOptions) y => { a with phpClassPrefix := y })
    (fun v _ => .string v) (by decide) rfl fun _ => rfl) ?_
  refine .append (.opt o.phpNamespace (fun (a : FileOptions) y => { a with phpNamespace := y })
    (fun v _ => .string v) (by decide) rfl fun _ => rfl) ?_
  refine .append (.opt o.phpGenericServices
    (fun (a : FileOptions) y => { a with phpGenericServices := y })
    (fun v _ => .bool v) (by decide) rfl fun _ => rfl) ?_
  refine .append (.opt o.phpMetadataNamespace
    (fun (a : FileOptions) y => { a with phpMetadataNamespace := y })
    (fun v _ => .string v) (by decide) rfl fun _ => rfl) ?_
  refine .append (.opt o.rubyPackage (fun (a : FileOptions) y => { a with rubyPackage := y })
    (fun v _ => .string v) (by decide) rfl fun _ => rfl) ?_
  exact .custom budget o.uninterpretedOption
    (fun (a : FileOptions) l => { a with uninterpretedOption := l })
    hcustom hd rfl fun _ _ => rfl

end FileOptions

namespace MessageOptions

/-- The integer values fit the widths they are written with. -/
def Fits (o : MessageOptions) : Prop := ∀ u ∈ o.uninterpretedOption, u.Fits

theorem merge_encode (budget : Nat) (o : MessageOptions) (hcustom : o.Fits)
    (hd : customDepth o.uninterpretedOption ≤ budget) (hlen : o.encode.length < 2 ^ 64) :
    MessageOptions.merge budget {} o.encode = .ok o := by
  refine mergeAll_of_reads ?_ hlen
  unfold MessageOptions.encode
  simp only [List.append_assoc]
  refine .append (.opt o.messageSetWireFormat
    (fun (a : MessageOptions) y => { a with messageSetWireFormat := y })
    (fun v _ => .bool v) (by decide) rfl fun _ => rfl) ?_
  refine .append (.opt o.noStandardDescriptorAccessor
    (fun (a : MessageOptions) y => { a with noStandardDescriptorAccessor := y })
    (fun v _ => .bool v) (by decide) rfl fun _ => rfl) ?_
  refine .append (.opt o.deprecated (fun (a : MessageOptions) y => { a with deprecated := y })
    (fun v _ => .bool v) (by decide) rfl fun _ => rfl) ?_
  refine .append (.opt o.mapEntry (fun (a : MessageOptions) y => { a with mapEntry := y })
    (fun v _ => .bool v) (by decide) rfl fun _ => rfl) ?_
  exact .custom budget o.uninterpretedOption
    (fun (a : MessageOptions) l => { a with uninterpretedOption := l })
    hcustom hd rfl fun _ _ => rfl

end MessageOptions

namespace FieldOptions

/-- The integer values fit the widths they are written with. -/
def Fits (o : FieldOptions) : Prop :=
  (∀ v ∈ o.ctype, FitsInt32 v) ∧ (∀ v ∈ o.jstype, FitsInt32 v) ∧ ∀ u ∈ o.uninterpretedOption, u.Fits

theorem merge_encode (budget : Nat) (o : FieldOptions) (hf : o.Fits)
    (hd : customDepth o.uninterpretedOption ≤ budget) (hlen : o.encode.length < 2 ^ 64) :
    FieldOptions.merge budget {} o.encode = .ok o := by
  obtain ⟨hctype, hjstype, hcustom⟩ := hf
  refine mergeAll_of_reads ?_ hlen
  unfold FieldOptions.encode
  simp only [List.append_assoc]
  refine .append (.opt o.ctype (fun (a : FieldOptions) y => { a with ctype := y })
    (fun v hv => .int32 (hctype v hv)) (by decide) rfl fun _ => rfl) ?_
  refine .append (.opt o.packed (fun (a : FieldOptions) y => { a with packed := y })
    (fun v _ => .bool v) (by decide) rfl fun _ => rfl) ?_
  refine .append (.opt o.deprecated (fun (a : FieldOptions) y => { a with deprecated := y })
    (fun v _ => .bool v) (by decide) rfl fun _ => rfl) ?_
  refine .append (.opt o.lazy (fun (a : FieldOptions) y => { a with lazy := y })
    (fun v _ => .bool v) (by decide) rfl fun _ => rfl) ?_
  refine .append (.opt o.jstype (fun (a : FieldOptions) y => { a with jstype := y })
    (fun v hv => .int32 (hjstype v hv)) (by decide) rfl fun _ => rfl) ?_
  refine .append (.opt o.weak (fun (a : FieldOptions) y => { a with weak := y })
    (fun v _ => .bool v) (by decide) rfl fun _ => rfl) ?_
  exact .custom budget o.uninterpretedOption
    (fun (a : FieldOptions) l => { a with uninterpretedOption := l })
    hcustom hd rfl fun _ _ => rfl

end FieldOptions

namespace PlainOptions

/-- The integer values fit the widths they are written with. -/
def Fits (o : PlainOptions) : Prop := ∀ u ∈ o.uninterpretedOption, u.Fits

theorem merge_encode (budget : Nat) (o : PlainOptions) (hcustom : o.Fits)
    (hd : customDepth o.uninterpretedOption ≤ budget) (hlen : o.encode.length < 2 ^ 64) :
    PlainOptions.merge budget {} o.encode = .ok o := by
  refine mergeAll_of_reads ?_ hlen
  unfold PlainOptions.encode
  exact .custom budget o.uninterpretedOption
    (fun (a : PlainOptions) l => { a with uninterpretedOption := l })
    hcustom hd rfl fun _ _ => rfl

end PlainOptions

namespace EnumOptions

/-- The integer values fit the widths they are written with. -/
def Fits (o : EnumOptions) : Prop := ∀ u ∈ o.uninterpretedOption, u.Fits

theorem merge_encode (budget : Nat) (o : EnumOptions) (hcustom : o.Fits)
    (hd : customDepth o.uninterpretedOption ≤ budget) (hlen : o.encode.length < 2 ^ 64) :
    EnumOptions.merge budget {} o.encode = .ok o := by
  refine mergeAll_of_reads ?_ hlen
  unfold EnumOptions.encode
  simp only [List.append_assoc]
  refine .append (.opt o.allowAlias (fun (a : EnumOptions) y => { a with allowAlias := y })
    (fun v _ => .bool v) (by decide) rfl fun _ => rfl) ?_
  refine .append (.opt o.deprecated (fun (a : EnumOptions) y => { a with deprecated := y })
    (fun v _ => .bool v) (by decide) rfl fun _ => rfl) ?_
  exact .custom budget o.uninterpretedOption
    (fun (a : EnumOptions) l => { a with uninterpretedOption := l })
    hcustom hd rfl fun _ _ => rfl

end EnumOptions

namespace EnumValueOptions

/-- The integer values fit the widths they are written with. -/
def Fits (o : EnumValueOptions) : Prop := ∀ u ∈ o.uninterpretedOption, u.Fits

theorem merge_encode (budget : Nat) (o : EnumValueOptions) (hcustom : o.Fits)
    (hd : customDepth o.uninterpretedOption ≤ budget) (hlen : o.encode.length < 2 ^ 64) :
    EnumValueOptions.merge budget {} o.encode = .ok o := by
  refine mergeAll_of_reads ?_ hlen
  unfold EnumValueOptions.encode
  refine .append (.opt o.deprecated (fun (a : EnumValueOptions) y => { a with deprecated := y })
    (fun v _ => .bool v) (by decide) rfl fun _ => rfl) ?_
  exact .custom budget o.uninterpretedOption
    (fun (a : EnumValueOptions) l => { a with uninterpretedOption := l })
    hcustom hd rfl fun _ _ => rfl

end EnumValueOptions

namespace ServiceOptions

/-- The integer values fit the widths they are written with. -/
def Fits (o : ServiceOptions) : Prop := ∀ u ∈ o.uninterpretedOption, u.Fits

theorem merge_encode (budget : Nat) (o : ServiceOptions) (hcustom : o.Fits)
    (hd : customDepth o.uninterpretedOption ≤ budget) (hlen : o.encode.length < 2 ^ 64) :
    ServiceOptions.merge budget {} o.encode = .ok o := by
  refine mergeAll_of_reads ?_ hlen
  unfold ServiceOptions.encode
  refine .append (.opt o.deprecated (fun (a : ServiceOptions) y => { a with deprecated := y })
    (fun v _ => .bool v) (by decide) rfl fun _ => rfl) ?_
  exact .custom budget o.uninterpretedOption
    (fun (a : ServiceOptions) l => { a with uninterpretedOption := l })
    hcustom hd rfl fun _ _ => rfl

end ServiceOptions

namespace MethodOptions

/-- The integer values fit the widths they are written with. -/
def Fits (o : MethodOptions) : Prop :=
  (∀ v ∈ o.idempotencyLevel, FitsInt32 v) ∧ ∀ u ∈ o.uninterpretedOption, u.Fits

theorem merge_encode (budget : Nat) (o : MethodOptions) (hf : o.Fits)
    (hd : customDepth o.uninterpretedOption ≤ budget) (hlen : o.encode.length < 2 ^ 64) :
    MethodOptions.merge budget {} o.encode = .ok o := by
  obtain ⟨hlevel, hcustom⟩ := hf
  refine mergeAll_of_reads ?_ hlen
  unfold MethodOptions.encode
  simp only [List.append_assoc]
  refine .append (.opt o.deprecated (fun (a : MethodOptions) y => { a with deprecated := y })
    (fun v _ => .bool v) (by decide) rfl fun _ => rfl) ?_
  refine .append (.opt o.idempotencyLevel
    (fun (a : MethodOptions) y => { a with idempotencyLevel := y })
    (fun v hv => .int32 (hlevel v hv)) (by decide) rfl fun _ => rfl) ?_
  exact .custom budget o.uninterpretedOption
    (fun (a : MethodOptions) l => { a with uninterpretedOption := l })
    hcustom hd rfl fun _ _ => rfl

end MethodOptions

/-! ### Descriptors -/

namespace FieldDescriptor

/-- The integer values fit the widths they are written with. -/
def Fits (f : FieldDescriptor) : Prop :=
  (∀ v ∈ f.number, FitsInt32 v) ∧ (∀ v ∈ f.label, FitsInt32 v) ∧ (∀ v ∈ f.type, FitsInt32 v) ∧
    (∀ o ∈ f.options, o.Fits) ∧ ∀ v ∈ f.oneofIndex, FitsInt32 v

/-- Levels of embedded messages below the field. -/
def depth (f : FieldDescriptor) : Nat :=
  levels (fun o => customDepth o.uninterpretedOption) f.options.toList

theorem merge_encode (budget : Nat) (f : FieldDescriptor) (hf : f.Fits) (hd : f.depth ≤ budget)
    (hlen : f.encode.length < 2 ^ 64) : FieldDescriptor.merge budget {} f.encode = .ok f := by
  obtain ⟨hnumber, hlabel, htype, hoptions, honeof⟩ := hf
  refine mergeAll_of_reads ?_ hlen
  unfold FieldDescriptor.encode
  simp only [List.append_assoc]
  refine .append (.opt f.name (fun (a : FieldDescriptor) y => { a with name := y })
    (fun v _ => .string v) (by decide) rfl fun _ => rfl) ?_
  refine .append (.opt f.extendee (fun (a : FieldDescriptor) y => { a with extendee := y })
    (fun v _ => .string v) (by decide) rfl fun _ => rfl) ?_
  refine .append (.opt f.number (fun (a : FieldDescriptor) y => { a with number := y })
    (fun v hv => .int32 (hnumber v hv)) (by decide) rfl fun _ => rfl) ?_
  refine .append (.opt f.label (fun (a : FieldDescriptor) y => { a with label := y })
    (fun v hv => .int32 (hlabel v hv)) (by decide) rfl fun _ => rfl) ?_
  refine .append (.opt f.type (fun (a : FieldDescriptor) y => { a with type := y })
    (fun v hv => .int32 (htype v hv)) (by decide) rfl fun _ => rfl) ?_
  refine .append (.opt f.typeName (fun (a : FieldDescriptor) y => { a with typeName := y })
    (fun v _ => .string v) (by decide) rfl fun _ => rfl) ?_
  refine .append (.opt f.defaultValue (fun (a : FieldDescriptor) y => { a with defaultValue := y })
    (fun v _ => .string v) (by decide) rfl fun _ => rfl) ?_
  refine .append (.opt f.options (fun (a : FieldDescriptor) y => { a with options := y })
    (fun o ho => .nested hd (Option.mem_toList.mpr ho)
      (FieldOptions.merge_encode _ o (hoptions o ho)))
    (by decide) rfl fun _ => rfl) ?_
  refine .append (.opt f.oneofIndex (fun (a : FieldDescriptor) y => { a with oneofIndex := y })
    (fun v hv => .int32 (honeof v hv)) (by decide) rfl fun _ => rfl) ?_
  refine .append (.opt f.jsonName (fun (a : FieldDescriptor) y => { a with jsonName := y })
    (fun v _ => .string v) (by decide) rfl fun _ => rfl) ?_
  exact .opt f.proto3Optional (fun (a : FieldDescriptor) y => { a with proto3Optional := y })
    (fun v _ => .bool v) (by decide) rfl fun _ => rfl

end FieldDescriptor

namespace OneofDescriptor

/-- The integer values fit the widths they are written with. -/
def Fits (o : OneofDescriptor) : Prop := ∀ p ∈ o.options, p.Fits

/-- Levels of embedded messages below the oneof. -/
def depth (o : OneofDescriptor) : Nat :=
  levels (fun p => customDepth p.uninterpretedOption) o.options.toList

theorem merge_encode (budget : Nat) (o : OneofDescriptor) (hf : o.Fits) (hd : o.depth ≤ budget)
    (hlen : o.encode.length < 2 ^ 64) : OneofDescriptor.merge budget {} o.encode = .ok o := by
  refine mergeAll_of_reads ?_ hlen
  unfold OneofDescriptor.encode
  refine .append (.opt o.name (fun (a : OneofDescriptor) y => { a with name := y })
    (fun v _ => .string v) (by decide) rfl fun _ => rfl) ?_
  exact .opt o.options (fun (a : OneofDescriptor) y => { a with options := y })
    (fun p hp => .nested hd (Option.mem_toList.mpr hp) (PlainOptions.merge_encode _ p (hf p hp)))
    (by decide) rfl fun _ => rfl

end OneofDescriptor

namespace ExtensionRange

/-- The integer values fit the widths they are written with. -/
def Fits (r : ExtensionRange) : Prop :=
  (∀ v ∈ r.start, FitsInt32 v) ∧ (∀ v ∈ r.stop, FitsInt32 v) ∧ ∀ p ∈ r.options, p.Fits

/-- Levels of embedded messages below the range. -/
def depth (r : ExtensionRange) : Nat :=
  levels (fun p => customDepth p.uninterpretedOption) r.options.toList

theorem merge_encode (budget : Nat) (r : ExtensionRange) (hf : r.Fits) (hd : r.depth ≤ budget)
    (hlen : r.encode.length < 2 ^ 64) : ExtensionRange.merge budget {} r.encode = .ok r := by
  obtain ⟨hstart, hstop, hoptions⟩ := hf
  refine mergeAll_of_reads ?_ hlen
  unfold ExtensionRange.encode
  simp only [List.append_assoc]
  refine .append (.opt r.start (fun (a : ExtensionRange) y => { a with start := y })
    (fun v hv => .int32 (hstart v hv)) (by decide) rfl fun _ => rfl) ?_
  refine .append (.opt r.stop (fun (a : ExtensionRange) y => { a with stop := y })
    (fun v hv => .int32 (hstop v hv)) (by decide) rfl fun _ => rfl) ?_
  exact .opt r.options (fun (a : ExtensionRange) y => { a with options := y })
    (fun p hp => .nested hd (Option.mem_toList.mpr hp)
      (PlainOptions.merge_encode _ p (hoptions p hp)))
    (by decide) rfl fun _ => rfl

end ExtensionRange

namespace ReservedRange

/-- The integer values fit the widths they are written with. -/
def Fits (r : ReservedRange) : Prop := (∀ v ∈ r.start, FitsInt32 v) ∧ ∀ v ∈ r.stop, FitsInt32 v

theorem merge_encode (budget : Nat) (r : ReservedRange) (hf : r.Fits)
    (hlen : r.encode.length < 2 ^ 64) : ReservedRange.merge budget {} r.encode = .ok r := by
  obtain ⟨hstart, hstop⟩ := hf
  refine mergeAll_of_reads ?_ hlen
  unfold ReservedRange.encode
  refine .append (.opt r.start (fun (a : ReservedRange) y => { a with start := y })
    (fun v hv => .int32 (hstart v hv)) (by decide) rfl fun _ => rfl) ?_
  exact .opt r.stop (fun (a : ReservedRange) y => { a with stop := y })
    (fun v hv => .int32 (hstop v hv)) (by decide) rfl fun _ => rfl

end ReservedRange

namespace EnumValueDescriptor

/-- The integer values fit the widths they are written with. -/
def Fits (v : EnumValueDescriptor) : Prop := (∀ n ∈ v.number, FitsInt32 n) ∧ ∀ o ∈ v.options, o.Fits

/-- Levels of embedded messages below the value. -/
def depth (v : EnumValueDescriptor) : Nat :=
  levels (fun o => customDepth o.uninterpretedOption) v.options.toList

theorem merge_encode (budget : Nat) (v : EnumValueDescriptor) (hf : v.Fits) (hd : v.depth ≤ budget)
    (hlen : v.encode.length < 2 ^ 64) : EnumValueDescriptor.merge budget {} v.encode = .ok v := by
  obtain ⟨hnumber, hoptions⟩ := hf
  refine mergeAll_of_reads ?_ hlen
  unfold EnumValueDescriptor.encode
  simp only [List.append_assoc]
  refine .append (.opt v.name (fun (a : EnumValueDescriptor) y => { a with name := y })
    (fun s _ => .string s) (by decide) rfl fun _ => rfl) ?_
  refine .append (.opt v.number (fun (a : EnumValueDescriptor) y => { a with number := y })
    (fun n hn => .int32 (hnumber n hn)) (by decide) rfl fun _ => rfl) ?_
  exact .opt v.options (fun (a : EnumValueDescriptor) y => { a with options := y })
    (fun o ho => .nested hd (Option.mem_toList.mpr ho)
      (EnumValueOptions.merge_encode _ o (hoptions o ho)))
    (by decide) rfl fun _ => rfl

end EnumValueDescriptor

namespace EnumDescriptor

/-- The integer values fit the widths they are written with. -/
def Fits (e : EnumDescriptor) : Prop :=
  (∀ v ∈ e.value, v.Fits) ∧ (∀ o ∈ e.options, o.Fits) ∧ ∀ r ∈ e.reservedRange, r.Fits

/-- Levels of embedded messages below the enum. -/
def depth (e : EnumDescriptor) : Nat :=
  max (levels EnumValueDescriptor.depth e.value)
    (max (levels (fun o => customDepth o.uninterpretedOption) e.options.toList)
      (levels (fun _ => 0) e.reservedRange))

theorem merge_encode (budget : Nat) (e : EnumDescriptor) (hf : e.Fits) (hd : e.depth ≤ budget)
    (hlen : e.encode.length < 2 ^ 64) : EnumDescriptor.merge budget {} e.encode = .ok e := by
  obtain ⟨hvalue, hoptions, hreserved⟩ := hf
  simp only [depth, max_le_iff] at hd
  obtain ⟨hdv, hdo, hdr⟩ := hd
  refine mergeAll_of_reads ?_ hlen
  unfold EnumDescriptor.encode
  simp only [List.append_assoc]
  refine .append (.opt e.name (fun (a : EnumDescriptor) y => { a with name := y })
    (fun s _ => .string s) (by decide) rfl fun _ => rfl) ?_
  refine .append (.many e.value (fun (a : EnumDescriptor) l => { a with value := l })
    (fun v hv => .nested hdv hv (EnumValueDescriptor.merge_encode _ v (hvalue v hv)))
    (by decide) rfl fun _ _ => rfl) ?_
  refine .append (.opt e.options (fun (a : EnumDescriptor) y => { a with options := y })
    (fun o ho => .nested hdo (Option.mem_toList.mpr ho)
      (EnumOptions.merge_encode _ o (hoptions o ho)))
    (by decide) rfl fun _ => rfl) ?_
  refine .append (.many e.reservedRange
    (fun (a : EnumDescriptor) l => { a with reservedRange := l })
    (fun r hr => .nested hdr hr fun _ => ReservedRange.merge_encode _ r (hreserved r hr))
    (by decide) rfl fun _ _ => rfl) ?_
  exact .many e.reservedName (fun (a : EnumDescriptor) l => { a with reservedName := l })
    (fun s _ => .string s) (by decide) rfl fun _ _ => rfl

end EnumDescriptor

namespace MethodDescriptor

/-- The integer values fit the widths they are written with. -/
def Fits (m : MethodDescriptor) : Prop := ∀ o ∈ m.options, o.Fits

/-- Levels of embedded messages below the method. -/
def depth (m : MethodDescriptor) : Nat :=
  levels (fun o => customDepth o.uninterpretedOption) m.options.toList

theorem merge_encode (budget : Nat) (m : MethodDescriptor) (hf : m.Fits) (hd : m.depth ≤ budget)
    (hlen : m.encode.length < 2 ^ 64) : MethodDescriptor.merge budget {} m.encode = .ok m := by
  refine mergeAll_of_reads ?_ hlen
  unfold MethodDescriptor.encode
  simp only [List.append_assoc]
  refine .append (.opt m.name (fun (a : MethodDescriptor) y => { a with name := y })
    (fun s _ => .string s) (by decide) rfl fun _ => rfl) ?_
  refine .append (.opt m.inputType (fun (a : MethodDescriptor) y => { a with inputType := y })
    (fun s _ => .string s) (by decide) rfl fun _ => rfl) ?_
  refine .append (.opt m.outputType (fun (a : MethodDescriptor) y => { a with outputType := y })
    (fun s _ => .string s) (by decide) rfl fun _ => rfl) ?_
  refine .append (.opt m.options (fun (a : MethodDescriptor) y => { a with options := y })
    (fun o ho => .nested hd (Option.mem_toList.mpr ho) (MethodOptions.merge_encode _ o (hf o ho)))
    (by decide) rfl fun _ => rfl) ?_
  refine .append (.opt m.clientStreaming
    (fun (a : MethodDescriptor) y => { a with clientStreaming := y })
    (fun b _ => .bool b) (by decide) rfl fun _ => rfl) ?_
  exact .opt m.serverStreaming (fun (a : MethodDescriptor) y => { a with serverStreaming := y })
    (fun b _ => .bool b) (by decide) rfl fun _ => rfl

end MethodDescriptor

namespace ServiceDescriptor

/-- The integer values fit the widths they are written with. -/
def Fits (s : ServiceDescriptor) : Prop := (∀ m ∈ s.method, m.Fits) ∧ ∀ o ∈ s.options, o.Fits

/-- Levels of embedded messages below the service. -/
def depth (s : ServiceDescriptor) : Nat :=
  max (levels MethodDescriptor.depth s.method)
    (levels (fun o => customDepth o.uninterpretedOption) s.options.toList)

theorem merge_encode (budget : Nat) (s : ServiceDescriptor) (hf : s.Fits) (hd : s.depth ≤ budget)
    (hlen : s.encode.length < 2 ^ 64) : ServiceDescriptor.merge budget {} s.encode = .ok s := by
  obtain ⟨hmethod, hoptions⟩ := hf
  obtain ⟨hdm, hdo⟩ := max_le_iff.mp hd
  refine mergeAll_of_reads ?_ hlen
  unfold ServiceDescriptor.encode
  simp only [List.append_assoc]
  refine .append (.opt s.name (fun (a : ServiceDescriptor) y => { a with name := y })
    (fun n _ => .string n) (by decide) rfl fun _ => rfl) ?_
  refine .append (.many s.method (fun (a : ServiceDescriptor) l => { a with method := l })
    (fun m hm => .nested hdm hm (MethodDescriptor.merge_encode _ m (hmethod m hm)))
    (by decide) rfl fun _ _ => rfl) ?_
  exact .opt s.options (fun (a : ServiceDescriptor) y => { a with options := y })
    (fun o ho => .nested hdo (Option.mem_toList.mpr ho)
      (ServiceOptions.merge_encode _ o (hoptions o ho)))
    (by decide) rfl fun _ => rfl

end ServiceDescriptor

namespace MessageDescriptor

mutual

/-- Levels of embedded messages below the message, through its nested messages. -/
def depth : MessageDescriptor → Nat
  | .mk _ field nested enums ranges ext options oneofs reserved _ =>
    max (levels FieldDescriptor.depth field) (max (nestedDepth nested)
      (max (levels EnumDescriptor.depth enums) (max (levels ExtensionRange.depth ranges)
        (max (levels FieldDescriptor.depth ext)
          (max (levels (fun o => customDepth o.uninterpretedOption) options.toList)
            (max (levels OneofDescriptor.depth oneofs) (levels (fun _ => 0) reserved)))))))

def nestedDepth : List MessageDescriptor → Nat
  | [] => 0
  | m :: ms => max (depth m + 1) (nestedDepth ms)

end

mutual

/-- The integer values fit the widths they are written with, in nested messages too. -/
def Fits : MessageDescriptor → Prop
  | .mk _ field nested enums ranges ext options oneofs reserved _ =>
    (∀ f ∈ field, f.Fits) ∧ AllFit nested ∧ (∀ e ∈ enums, e.Fits) ∧ (∀ r ∈ ranges, r.Fits) ∧
      (∀ f ∈ ext, f.Fits) ∧ (∀ o ∈ options, o.Fits) ∧ (∀ o ∈ oneofs, o.Fits) ∧
      ∀ r ∈ reserved, r.Fits

def AllFit : List MessageDescriptor → Prop
  | [] => True
  | m :: ms => Fits m ∧ AllFit ms

end

theorem nestedDepth_eq_levels (ms : List MessageDescriptor) : nestedDepth ms = levels depth ms := by
  induction ms with
  | nil => rfl
  | cons m ms ih => simp only [nestedDepth, ih, levels, List.map_cons, List.foldr_cons]

theorem allFit_iff (ms : List MessageDescriptor) : AllFit ms ↔ ∀ m ∈ ms, m.Fits := by
  induction ms with
  | nil => simp [AllFit]
  | cons m ms ih => simp [AllFit, ih]

theorem depth_succ_le_of_mem_nestedType {m m' : MessageDescriptor} (h : m' ∈ m.nestedType) :
    m'.depth + 1 ≤ m.depth := by
  obtain ⟨name, field, nested, enums, ranges, ext, options, oneofs, reserved, names⟩ := m
  have hnest : m'.depth + 1 ≤ nestedDepth nested := by
    rw [nestedDepth_eq_levels]
    exact levels_le_iff.mp le_rfl m' h
  simp only [depth]
  omega

theorem Fits.of_mem_nestedType {m m' : MessageDescriptor} (hf : m.Fits) (h : m' ∈ m.nestedType) :
    m'.Fits := by
  obtain ⟨name, field, nested, enums, ranges, ext, options, oneofs, reserved, names⟩ := m
  exact (allFit_iff nested).mp hf.2.1 m' h

theorem encodeNested_eq (ms : List MessageDescriptor) :
    encodeNested ms = many (fieldMessage 3 MessageDescriptor.encode) ms := by
  induction ms with
  | nil => rfl
  | cons m ms ih =>
    rw [encodeNested, ih]
    rfl

theorem reads_encode (nested : MessageDescriptor → Input → Except WireError MessageDescriptor)
    (budget : Nat) (m : MessageDescriptor) (hf : m.Fits) (hd : m.depth ≤ budget)
    (hnest : ∀ m' ∈ m.nestedType, m'.encode.length < 2 ^ 64 → nested empty m'.encode = .ok m') :
    Reads (mergeField nested budget) empty m.encode m := by
  obtain ⟨name, field, nestedType, enums, ranges, ext, options, oneofs, reserved, names⟩ := m
  obtain ⟨hfield, -, henums, hranges, hext, hoptions, honeofs, hreserved⟩ := hf
  simp only [depth, max_le_iff] at hd
  obtain ⟨hdf, hdn, hde, hdr, hdx, hdo, hdd, hdres⟩ := hd
  rw [nestedDepth_eq_levels] at hdn
  -- a nested message is read by `nested`, one level deeper
  have hnested : ∀ m' ∈ nestedType,
      Layout 3 .len (embedded budget (fun _ init bs => nested init bs) empty)
        (fieldMessage 3 MessageDescriptor.encode m') m' :=
    fun m' hm' => .nested hdn hm' fun _ => hnest m' hm'
  rw [MessageDescriptor.encode, encodeNested_eq]
  simp only [List.append_assoc]
  refine .append (.opt name (fun (_ : MessageDescriptor) y => .mk y [] [] [] [] [] none [] [] [])
    (fun v _ => .string v) (by decide) rfl fun _ => rfl) ?_
  refine .append (.many field
    (fun (_ : MessageDescriptor) l => .mk name l [] [] [] [] none [] [] [])
    (fun f hf => .nested hdf hf (FieldDescriptor.merge_encode _ f (hfield f hf)))
    (by decide) rfl fun _ _ => rfl) ?_
  refine .append (.many nestedType
    (fun (_ : MessageDescriptor) l => .mk name field l [] [] [] none [] [] [])
    hnested (by decide) rfl fun _ _ => rfl) ?_
  refine .append (.many enums
    (fun (_ : MessageDescriptor) l => .mk name field nestedType l [] [] none [] [] [])
    (fun e he => .nested hde he (EnumDescriptor.merge_encode _ e (henums e he)))
    (by decide) rfl fun _ _ => rfl) ?_
  refine .append (.many ranges
    (fun (_ : MessageDescriptor) l => .mk name field nestedType enums l [] none [] [] [])
    (fun r hr => .nested hdr hr (ExtensionRange.merge_encode _ r (hranges r hr)))
    (by decide) rfl fun _ _ => rfl) ?_
  refine .append (.many ext
    (fun (_ : MessageDescriptor) l => .mk name field nestedType enums ranges l none [] [] [])
    (fun f hf => .nested hdx hf (FieldDescriptor.merge_encode _ f (hext f hf)))
    (by decide) rfl fun _ _ => rfl) ?_
  refine .append (.opt options
    (fun (_ : MessageDescriptor) y => .mk name field nestedType enums ranges ext y [] [] [])
    (fun o ho => .nested hdo (Option.mem_toList.mpr ho)
      (MessageOptions.merge_encode _ o (hoptions o ho)))
    (by decide) rfl fun _ => rfl) ?_
  refine .append (.many oneofs
    (fun (_ : MessageDescriptor) l => .mk name field nestedType enums ranges ext options l [] [])
    (fun o ho => .nested hdd ho (OneofDescriptor.merge_encode _ o (honeofs o ho)))
    (by decide) rfl fun _ _ => rfl) ?_
  refine .append (.many reserved
    (fun (_ : MessageDescriptor) l =>
      .mk name field nestedType enums ranges ext options oneofs l [])
    (fun r hr => .nested hdres hr fun _ => ReservedRange.merge_encode _ r (hreserved r hr))
    (by decide) rfl fun _ _ => rfl) ?_
  exact .many names
    (fun (_ : MessageDescriptor) l =>
      .mk name field nestedType enums ranges ext options oneofs reserved l)
    (fun s _ => .string s) (by decide) rfl fun _ _ => rfl

/-- A message reads back from its binary form, nested messages and all, when it fits and
does not nest deeper than the levels left. -/
theorem merge_encode (budget : Nat) (m : MessageDescriptor) (hf : m.Fits) (hd : m.depth ≤ budget)
    (hlen : m.encode.length < 2 ^ 64) : MessageDescriptor.merge budget empty m.encode = .ok m := by
  induction budget generalizing m with
  | zero =>
    rw [MessageDescriptor.merge]
    refine mergeAll_of_reads (reads_encode _ 0 m hf hd fun m' hm' _ => ?_) hlen
    have := depth_succ_le_of_mem_nestedType hm'
    omega
  | succ b ih =>
    rw [MessageDescriptor.merge]
    refine mergeAll_of_reads (reads_encode _ (b + 1) m hf hd fun m' hm' hlen' => ?_) hlen
    have := depth_succ_le_of_mem_nestedType hm'
    exact ih m' (hf.of_mem_nestedType hm') (by omega) hlen'

end MessageDescriptor

namespace SourceLocation

/-- The path and span fit the width they are written with. -/
def Fits (l : SourceLocation) : Prop := (∀ v ∈ l.path, FitsInt32 v) ∧ ∀ v ∈ l.span, FitsInt32 v

theorem merge_encode (budget : Nat) (l : SourceLocation) (hf : l.Fits)
    (hlen : l.encode.length < 2 ^ 64) : SourceLocation.merge budget {} l.encode = .ok l := by
  obtain ⟨hpath, hspan⟩ := hf
  refine mergeAll_of_reads ?_ hlen
  unfold SourceLocation.encode
  simp only [List.append_assoc]
  refine .append (.packed l.path (fun (a : SourceLocation) p => { a with path := p })
    hpath (by decide) rfl fun _ => rfl) ?_
  refine .append (.packed l.span (fun (a : SourceLocation) p => { a with span := p })
    hspan (by decide) rfl fun _ => rfl) ?_
  refine .append (.opt l.leadingComments
    (fun (a : SourceLocation) y => { a with leadingComments := y })
    (fun s _ => .string s) (by decide) rfl fun _ => rfl) ?_
  refine .append (.opt l.trailingComments
    (fun (a : SourceLocation) y => { a with trailingComments := y })
    (fun s _ => .string s) (by decide) rfl fun _ => rfl) ?_
  exact .many l.leadingDetachedComments
    (fun (a : SourceLocation) c => { a with leadingDetachedComments := c })
    (fun s _ => .string s) (by decide) rfl fun _ _ => rfl

end SourceLocation

theorem mergeSourceInfo_encode (budget : Nat) (ls : List SourceLocation) (hf : ∀ l ∈ ls, l.Fits)
    (hd : levels (fun _ => 0) ls ≤ budget) (hlen : (encodeSourceInfo ls).length < 2 ^ 64) :
    mergeSourceInfo budget [] (encodeSourceInfo ls) = .ok ls :=
  mergeAll_of_reads (.many ls (fun _ l => l)
    (fun l hl => .nested hd hl fun _ => SourceLocation.merge_encode _ l (hf l hl))
    (by decide) rfl fun _ _ => rfl) hlen

namespace FileDescriptor

/-- The integer values fit the widths they are written with. -/
def Fits (d : FileDescriptor) : Prop :=
  (∀ m ∈ d.messageType, m.Fits) ∧ (∀ e ∈ d.enumType, e.Fits) ∧ (∀ s ∈ d.service, s.Fits) ∧
    (∀ f ∈ d.extension, f.Fits) ∧ (∀ o ∈ d.options, o.Fits) ∧
    (∀ ls ∈ d.sourceCodeInfo, ∀ l ∈ ls, l.Fits) ∧ (∀ v ∈ d.publicDependency, FitsInt32 v) ∧
    ∀ v ∈ d.weakDependency, FitsInt32 v

/-- Levels of embedded messages below the file. -/
def depth (d : FileDescriptor) : Nat :=
  max (levels MessageDescriptor.depth d.messageType) (max (levels EnumDescriptor.depth d.enumType)
    (max (levels ServiceDescriptor.depth d.service) (max (levels FieldDescriptor.depth d.extension)
      (max (levels (fun o => customDepth o.uninterpretedOption) d.options.toList)
        (levels (levels fun _ => 0) d.sourceCodeInfo.toList)))))

/-- A file descriptor reads back from its binary form, followed by any number of fields of
number 8042, which the reader skips. -/
theorem merge_encode_append (budget : Nat) (d : FileDescriptor) (hf : d.Fits)
    (hd : d.depth ≤ budget) (hb : 0 < budget) (payloads : List (List UInt8))
    (hlen : (d.encode ++ many (fieldBytes 8042) payloads).length < 2 ^ 64) :
    FileDescriptor.merge budget {} (d.encode ++ many (fieldBytes 8042) payloads) = .ok d := by
  obtain ⟨hmessage, henum, hservice, hext, hoptions, hsource, hpublic, hweak⟩ := hf
  simp only [depth, max_le_iff] at hd
  obtain ⟨hdm, hde, hds, hdx, hdo, hdi⟩ := hd
  refine mergeAll_of_reads
    (.append ?_ (.skipMany payloads (fun p => .bytes p) (by decide) hb fun _ _ => rfl)) hlen
  unfold FileDescriptor.encode
  simp only [List.append_assoc]
  refine .append (.opt d.name (fun (a : FileDescriptor) y => { a with name := y })
    (fun s _ => .string s) (by decide) rfl fun _ => rfl) ?_
  refine .append (.opt d.package (fun (a : FileDescriptor) y => { a with package := y })
    (fun s _ => .string s) (by decide) rfl fun _ => rfl) ?_
  refine .append (.many d.dependency (fun (a : FileDescriptor) l => { a with dependency := l })
    (fun s _ => .string s) (by decide) rfl fun _ _ => rfl) ?_
  refine .append (.many d.messageType (fun (a : FileDescriptor) l => { a with messageType := l })
    (fun m hm => .nested hdm hm (MessageDescriptor.merge_encode _ m (hmessage m hm)))
    (by decide) rfl fun _ _ => rfl) ?_
  refine .append (.many d.enumType (fun (a : FileDescriptor) l => { a with enumType := l })
    (fun e he => .nested hde he (EnumDescriptor.merge_encode _ e (henum e he)))
    (by decide) rfl fun _ _ => rfl) ?_
  refine .append (.many d.service (fun (a : FileDescriptor) l => { a with service := l })
    (fun s hs => .nested hds hs (ServiceDescriptor.merge_encode _ s (hservice s hs)))
    (by decide) rfl fun _ _ => rfl) ?_
  refine .append (.many d.extension (fun (a : FileDescriptor) l => { a with extension := l })
    (fun f hf => .nested hdx hf (FieldDescriptor.merge_encode _ f (hext f hf)))
    (by decide) rfl fun _ _ => rfl) ?_
  refine .append (.opt d.options (fun (a : FileDescriptor) y => { a with options := y })
    (fun o ho => .nested hdo (Option.mem_toList.mpr ho)
      (FileOptions.merge_encode _ o (hoptions o ho)))
    (by decide) rfl fun _ => rfl) ?_
  refine .append (.opt d.sourceCodeInfo
    (fun (a : FileDescriptor) y => { a with sourceCodeInfo := y })
    (fun ls hls => .nested hdi (Option.mem_toList.mpr hls)
      (mergeSourceInfo_encode _ ls (hsource ls hls)))
    (by decide) rfl fun _ => rfl) ?_
  refine .append (.int32s d.publicDependency
    (fun (a : FileDescriptor) l => { a with publicDependency := l })
    hpublic (by decide) rfl fun _ _ => rfl) ?_
  refine .append (.int32s d.weakDependency
    (fun (a : FileDescriptor) l => { a with weakDependency := l })
    hweak (by decide) rfl fun _ _ => rfl) ?_
  exact .opt d.dialect (fun (a : FileDescriptor) y => { a with dialect := y })
    (fun s _ => .string s) (by decide) rfl fun _ => rfl

/-- A reader that skips every field but 8042 passes over the binary form of a file
descriptor: each of its fields has a number below 13. -/
theorem encode_skipped (d : FileDescriptor) {step : α → Nat → WireType → Input → Except WireError (α × Input)}
    {acc : α} {budget : Nat} (hb : 0 < budget)
    (hskip : ∀ tag, tag ≠ 8042 → ∀ wt r, step acc tag wt r = skipping budget acc tag wt r) :
    Reads step acc d.encode acc := by
  unfold FileDescriptor.encode
  simp only [List.append_assoc]
  refine .append (.skipOpt _ (fun _ => .bytes _) (by decide) hb (hskip 1 (by decide))) ?_
  refine .append (.skipOpt _ (fun _ => .bytes _) (by decide) hb (hskip 2 (by decide))) ?_
  refine .append (.skipMany _ (fun _ => .bytes _) (by decide) hb (hskip 3 (by decide))) ?_
  refine .append (.skipMany _ (fun _ => .bytes _) (by decide) hb (hskip 4 (by decide))) ?_
  refine .append (.skipMany _ (fun _ => .bytes _) (by decide) hb (hskip 5 (by decide))) ?_
  refine .append (.skipMany _ (fun _ => .bytes _) (by decide) hb (hskip 6 (by decide))) ?_
  refine .append (.skipMany _ (fun _ => .bytes _) (by decide) hb (hskip 7 (by decide))) ?_
  refine .append (.skipOpt _ (fun _ => .bytes _) (by decide) hb (hskip 8 (by decide))) ?_
  refine .append (.skipOpt _ (fun _ => .bytes _) (by decide) hb (hskip 9 (by decide))) ?_
  refine .append (.skipMany _ (fun _ => .int _) (by decide) hb (hskip 10 (by decide))) ?_
  refine .append (.skipMany _ (fun _ => .int _) (by decide) hb (hskip 11 (by decide))) ?_
  exact .skipOpt _ (fun _ => .bytes _) (by decide) hb (hskip 12 (by decide))

end FileDescriptor

end ProtoSchema
