import Mathlib
import ProtoSchema.Descriptor.Basic

/-!
Paths into descriptors. A location of source info names the element of its file by a path
of field numbers and indices, read from the file descriptor down, the way the binary form
nests them. To read such paths a descriptor message is seen as a `Value`: for each of its
field numbers, a singular field that is set or not, or a repeated field with its list
(`FileDescriptor.toValue`, and the `toValue` of every message a file holds, with the field
numbers of the binary form).

`Value.At v p t` follows `p` from `v` to `t`: a field number goes into a singular field that
is set, or into a repeated field, after which the next step is an index into its list. A path
may stop at the number of a repeated field, and then arrives at the whole list. A path
designates something when following it arrives somewhere (`Value.Designates`).

A custom option is recorded under the field number of its extension, which is no field of the
options message: `Value.Admits N` also lets the last step of a path leave an options message
that keeps a custom option (`Value.HoldsCustom`), when that step is one of the numbers `N`
custom options are recorded under.

A descriptor is built by setting fields and appending to lists, so what a part of it admits
stays admitted by the whole. `Value.Le v v'` says so: `v'` designates every path `v` does and
keeps a custom option wherever `v` does, and `Value.le_message` gives it field by field.
-/

namespace ProtoSchema

variable {N : Int → Prop}

mutual

/-- A descriptor message seen as its fields by number, or a scalar. -/
inductive Value where
  | scalar
  | message (fields : List (Int × Slot))

/-- A field of a message: a singular field, set or not, or a repeated field and its values. -/
inductive Slot where
  | singular (value : Option Value)
  | repeated (values : List Value)

end

namespace Value

/-- What a path arrives at: a value, or the whole list of a repeated field. -/
inductive Target where
  | value (v : Value)
  | list (vs : List Value)

/-- Following the path `p` from `v` arrives at `t`. -/
inductive At : Value → List Int → Target → Prop where
  | here {v : Value} : At v [] (.value v)
  | singular {fs : List (Int × Slot)} {n : Int} {w : Value} {p : List Int} {t : Target} :
      fs.lookup n = some (.singular (some w)) → At w p t → At (.message fs) (n :: p) t
  | list {fs : List (Int × Slot)} {n : Int} {vs : List Value} :
      fs.lookup n = some (.repeated vs) → At (.message fs) [n] (.list vs)
  | element {fs : List (Int × Slot)} {n : Int} {vs : List Value} {i : Nat} {w : Value}
      {p : List Int} {t : Target} :
      fs.lookup n = some (.repeated vs) → vs[i]? = some w → At w p t →
        At (.message fs) (n :: (i : Int) :: p) t

/-- The path designates an element: a value, or the list of a repeated field. -/
def Designates (v : Value) (p : List Int) : Prop := ∃ t, v.At p t

def uninterpretedNumber : Int := 999

/-- An options message that keeps at least one custom option. -/
def HoldsCustom : Value → Prop
  | .scalar => False
  | .message fs => ∃ u us, fs.lookup uninterpretedNumber = some (.repeated (u :: us))

def KeepsCustomAt (v : Value) (p : List Int) : Prop := ∃ w, v.At p (.value w) ∧ w.HoldsCustom

def Admits (N : Int → Prop) (v : Value) (p : List Int) : Prop :=
  v.Designates p ∨ ∃ q k, p = q ++ [k] ∧ N k ∧ v.KeepsCustomAt q

def AdmitsAfter (N : Int → Prop) (v : Value) (base p : List Int) : Prop := ∃ q, p = base ++ q ∧ v.Admits N q

/-- `v'` designates every path `v` designates, and keeps a custom option wherever `v` does. -/
structure Le (v v' : Value) : Prop where
  designates : ∀ p, v.Designates p → v'.Designates p
  keepsCustom : ∀ p, v.KeepsCustomAt p → v'.KeepsCustomAt p

end Value

namespace Slot

def Le : Slot → Slot → Prop
  | .singular none, .singular _ => True
  | .singular (some v), .singular (some v') => v.Le v'
  | .repeated vs, .repeated vs' => ∀ (i : Nat) v, vs[i]? = some v → ∃ v', vs'[i]? = some v' ∧ v.Le v'
  | _, _ => False

def ofOption {α : Type} (x : Option α) : Slot := .singular (x.map fun _ => .scalar)

def ofMessage {α : Type} (view : α → Value) (x : Option α) : Slot := .singular (x.map view)

def ofScalars {α : Type} (xs : List α) : Slot := .repeated (xs.map fun _ => .scalar)

def ofMessages {α : Type} (view : α → Value) (xs : List α) : Slot := .repeated (xs.map view)

end Slot

/-! ### The order of growth -/

namespace Value

variable {v v' v'' w : Value} {fs fs' : List (Int × Slot)} {p q : List Int}

@[simp] theorem designates_nil (v : Value) : v.Designates [] := ⟨_, .here⟩

@[refl] theorem Le.refl (v : Value) : v.Le v := ⟨fun _ h => h, fun _ h => h⟩

@[trans] theorem Le.trans (h : v.Le v') (h' : v'.Le v'') : v.Le v'' :=
  ⟨fun p hp => h'.designates p (h.designates p hp), fun p hp => h'.keepsCustom p (h.keepsCustom p hp)⟩

theorem Le.admits (h : v.Le v') (hp : v.Admits N p) : v'.Admits N p := by
  rcases hp with hd | ⟨q, k, rfl, hk, hc⟩
  · exact .inl (h.designates _ hd)
  · exact .inr ⟨q, k, rfl, hk, h.keepsCustom q hc⟩

theorem Admits.mono {N' : Int → Prop} (hp : v.Admits N p) (hN : ∀ k, N k → N' k) : v.Admits N' p := by
  rcases hp with hd | ⟨q, k, rfl, hk, hc⟩
  · exact .inl hd
  · exact .inr ⟨q, k, rfl, hN k hk, hc⟩

theorem Le.admitsAfter {base : List Int} (h : v.Le v') (hp : v.AdmitsAfter N base p) :
    v'.AdmitsAfter N base p := by
  obtain ⟨q, rfl, hq⟩ := hp
  exact ⟨q, rfl, h.admits hq⟩

end Value

namespace Slot

variable {s s' : Slot} {v : Value} {vs : List Value}

@[refl, simp] theorem le_refl (s : Slot) : s.Le s := by
  rcases s with (_ | v) | vs
  · trivial
  · exact Value.Le.refl v
  · exact fun i v h => ⟨v, h, Value.Le.refl v⟩

theorem Le.singular_some (h : (Slot.singular (some v)).Le s') :
    ∃ v', s' = .singular (some v') ∧ v.Le v' := by
  rcases s' with (_ | v') | vs'
  · exact h.elim
  · exact ⟨v', rfl, h⟩
  · exact h.elim

theorem Le.repeated (h : (Slot.repeated vs).Le s') :
    ∃ vs', s' = .repeated vs' ∧ ∀ (i : Nat) v, vs[i]? = some v → ∃ v', vs'[i]? = some v' ∧ v.Le v' := by
  rcases s' with _ | vs'
  · exact h.elim
  · exact ⟨vs', rfl, h⟩

@[simp] theorem ofOption_le_ofOption {α β : Type} {x : Option α} {y : Option β} :
    (ofOption x).Le (ofOption y) ↔ (x.isSome → y.isSome) := by
  rcases x with _ | a <;> rcases y with _ | b
  all_goals simp [ofOption, Le, Value.Le.refl]

theorem ofMessage_le_ofMessage {α : Type} {view : α → Value} {x y : Option α}
    (h : ∀ a, x = some a → ∃ b, y = some b ∧ (view a).Le (view b)) :
    (ofMessage view x).Le (ofMessage view y) := by
  rcases x with _ | a
  · exact trivial
  · obtain ⟨b, rfl, hb⟩ := h a rfl
    exact hb

theorem ofMessages_le_ofMessages {α : Type} {view : α → Value} {xs ys : List α}
    (h : ∀ (i : Nat) a, xs[i]? = some a → ∃ b, ys[i]? = some b ∧ (view a).Le (view b)) :
    (ofMessages view xs).Le (ofMessages view ys) := by
  intro i v hv
  simp only [List.getElem?_map, Option.map_eq_some_iff] at hv
  obtain ⟨a, ha, rfl⟩ := hv
  obtain ⟨b, hb, hle⟩ := h i a ha
  exact ⟨view b, by simp [hb], hle⟩

@[simp] theorem ofMessages_le_append {α : Type} (view : α → Value) (xs ys : List α) :
    (ofMessages view xs).Le (ofMessages view (xs ++ ys)) :=
  ofMessages_le_ofMessages fun i a ha =>
    ⟨a, by rw [List.getElem?_append_left (List.getElem?_eq_some_iff.mp ha).1, ha], Value.Le.refl _⟩

end Slot

namespace Value

variable {v w : Value} {fs fs' : List (Int × Slot)} {p : List Int} {n : Int}

/-- A message grows when each of its fields can only have gained. -/
theorem le_message (h : ∀ n s, fs.lookup n = some s → ∃ s', fs'.lookup n = some s' ∧ s.Le s') :
    (Value.message fs).Le (.message fs') where
  designates := by
    rintro p ⟨t, hat⟩
    cases hat with
    | here => exact ⟨_, .here⟩
    | singular hl ha =>
      obtain ⟨s', hl', hle⟩ := h _ _ hl
      obtain ⟨w', rfl, hw⟩ := hle.singular_some
      obtain ⟨t', ha'⟩ := hw.designates _ ⟨_, ha⟩
      exact ⟨t', .singular hl' ha'⟩
    | list hl =>
      obtain ⟨s', hl', hle⟩ := h _ _ hl
      obtain ⟨vs', rfl, -⟩ := hle.repeated
      exact ⟨_, .list hl'⟩
    | element hl hi ha =>
      obtain ⟨s', hl', hle⟩ := h _ _ hl
      obtain ⟨vs', rfl, hvs⟩ := hle.repeated
      obtain ⟨w', hi', hw⟩ := hvs _ _ hi
      obtain ⟨t', ha'⟩ := hw.designates _ ⟨_, ha⟩
      exact ⟨t', .element hl' hi' ha'⟩
  keepsCustom := by
    rintro p ⟨u, hat, hc⟩
    cases hat with
    | here =>
      -- the list of custom options can only have grown, so it is still not empty
      obtain ⟨u, us, hl⟩ := hc
      obtain ⟨s', hl', hle⟩ := h _ _ hl
      obtain ⟨vs', rfl, hvs⟩ := hle.repeated
      obtain ⟨u', hu', -⟩ := hvs 0 u rfl
      obtain ⟨us', rfl⟩ : ∃ us', vs' = u' :: us' := by
        cases vs' with
        | nil => cases hu'
        | cons a as => exact ⟨as, by simp_all⟩
      exact ⟨_, .here, u', us', hl'⟩
    | singular hl ha =>
      obtain ⟨s', hl', hle⟩ := h _ _ hl
      obtain ⟨w', rfl, hw⟩ := hle.singular_some
      obtain ⟨u', ha', hc'⟩ := hw.keepsCustom _ ⟨_, ha, hc⟩
      exact ⟨u', .singular hl' ha', hc'⟩
    | element hl hi ha =>
      obtain ⟨s', hl', hle⟩ := h _ _ hl
      obtain ⟨vs', rfl, hvs⟩ := hle.repeated
      obtain ⟨w', hi', hw⟩ := hvs _ _ hi
      obtain ⟨u', ha', hc'⟩ := hw.keepsCustom _ ⟨_, ha, hc⟩
      exact ⟨u', .element hl' hi' ha', hc'⟩

theorem le_message_of_forall₂ (h : List.Forall₂ (fun a b => a.1 = b.1 ∧ a.2.Le b.2) fs fs') :
    (Value.message fs).Le (.message fs') := by
  refine le_message ?_
  induction h with
  | nil => intro n s hl; cases hl
  | @cons a b l₁ l₂ hab _ ih =>
    obtain ⟨a₁, a₂⟩ := a
    obtain ⟨b₁, b₂⟩ := b
    obtain ⟨rfl, hle⟩ := hab
    intro n s hl
    simp only [List.lookup_cons] at hl ⊢
    split at hl
    · cases hl
      exact ⟨b₂, rfl, hle⟩
    · exact ih n s hl

/-! ### Paths into a message -/

theorem admits_nil (v : Value) : v.Admits N [] := .inl (designates_nil v)

theorem admitsAfter_self (v : Value) (base : List Int) : v.AdmitsAfter N base base :=
  ⟨[], by simp, admits_nil v⟩

theorem Admits.singular (hl : fs.lookup n = some (.singular (some w))) (h : w.Admits N p) :
    (Value.message fs).Admits N (n :: p) := by
  rcases h with ⟨t, ha⟩ | ⟨q, k, rfl, hk, u, ha, hc⟩
  · exact .inl ⟨t, .singular hl ha⟩
  · exact .inr ⟨n :: q, k, rfl, hk, u, .singular hl ha, hc⟩

theorem Admits.element {vs : List Value} {i : Nat} (hl : fs.lookup n = some (.repeated vs))
    (hi : vs[i]? = some w) (h : w.Admits N p) : (Value.message fs).Admits N (n :: (i : Int) :: p) := by
  rcases h with ⟨t, ha⟩ | ⟨q, k, rfl, hk, u, ha, hc⟩
  · exact .inl ⟨t, .element hl hi ha⟩
  · exact .inr ⟨n :: (i : Int) :: q, k, rfl, hk, u, .element hl hi ha, hc⟩

theorem designates_singular (hl : fs.lookup n = some (.singular (some w))) :
    (Value.message fs).Designates [n] :=
  ⟨_, .singular hl .here⟩

theorem holdsCustom_of_lookup {α : Type} {view : α → Value} {xs : List α}
    (hl : fs.lookup uninterpretedNumber = some (.ofMessages view xs)) (hne : xs ≠ []) :
    (Value.message fs).HoldsCustom := by
  obtain ⟨x, xs, rfl⟩ := List.exists_cons_of_ne_nil hne
  exact ⟨view x, xs.map view, hl⟩

theorem admits_list {vs : List Value} (hl : fs.lookup n = some (.repeated vs)) :
    (Value.message fs).Admits N [n] :=
  .inl ⟨_, .list hl⟩

theorem admits_custom (h : v.HoldsCustom) {k : Int} (hk : N k) : v.Admits N [k] :=
  .inr ⟨[], k, rfl, hk, v, .here, h⟩

theorem admitsAfter_singular {base : List Int} (hl : fs.lookup n = some (.singular (some w))) :
    (Value.message fs).AdmitsAfter N base (base ++ [n]) :=
  ⟨[n], rfl, .inl (designates_singular hl)⟩

theorem admitsAfter_list {base : List Int} {vs : List Value} (hl : fs.lookup n = some (.repeated vs)) :
    (Value.message fs).AdmitsAfter N base (base ++ [n]) :=
  ⟨[n], rfl, admits_list hl⟩

end Value

def Slot.AdmitsAfter (N : Int → Prop) : Slot → List Int → List Int → Prop
  | .singular none, _, _ => False
  | .singular (some w), base, p => w.AdmitsAfter N base p
  | .repeated vs, base, p =>
    p = base ∨ ∃ (i : Nat) (w : Value), vs[i]? = some w ∧ w.AdmitsAfter N (base ++ [(i : Int)]) p

namespace Slot

variable {s s' : Slot} {w : Value} {base p : List Int}

theorem Le.admitsAfter (h : s.Le s') (hp : s.AdmitsAfter N base p) : s'.AdmitsAfter N base p := by
  rcases s with (_ | w) | vs
  · exact hp.elim
  · obtain ⟨w', rfl, hw⟩ := Le.singular_some h
    exact hw.admitsAfter hp
  · obtain ⟨vs', rfl, hvs⟩ := Le.repeated h
    rcases hp with rfl | ⟨i, w, hi, hw⟩
    · exact .inl rfl
    · obtain ⟨w', hi', hle⟩ := hvs i w hi
      exact .inr ⟨i, w', hi', hle.admitsAfter hw⟩

theorem admitsAfter_push {α : Type} {view : α → Value} {xs : List α} {x : α}
    (h : (view x).AdmitsAfter N (base ++ [(xs.length : Int)]) p) :
    (Slot.ofMessages view (xs ++ [x])).AdmitsAfter N base p :=
  .inr ⟨xs.length, view x, by simp, h⟩

theorem admitsAfter_getElem? {α : Type} {view : α → Value} {xs : List α} {x : α} {i : Nat}
    (hi : xs[i]? = some x) (h : (view x).AdmitsAfter N (base ++ [(i : Int)]) p) :
    (Slot.ofMessages view xs).AdmitsAfter N base p :=
  .inr ⟨i, view x, by simp [hi], h⟩

theorem admitsAfter_base {vs : List Value} : (Slot.repeated vs).AdmitsAfter N base base := .inl rfl

end Slot

theorem Value.AdmitsAfter.of_slot {fs : List (Int × Slot)} {n : Int} {s : Slot} {base p : List Int}
    (hl : fs.lookup n = some s) (h : s.AdmitsAfter N (base ++ [n]) p) :
    (Value.message fs).AdmitsAfter N base p := by
  rcases s with (_ | w) | vs
  · exact h.elim
  · obtain ⟨q, rfl, hq⟩ := h
    exact ⟨n :: q, by simp, hq.singular hl⟩
  · rcases h with rfl | ⟨i, w, hi, q, rfl, hq⟩
    · exact Value.admitsAfter_list hl
    · exact ⟨n :: (i : Int) :: q, by simp, hq.element hl hi⟩

/-! ### Descriptors as values

The field numbers are those of the binary form (`FileDescriptor.encode`). -/

/-- A part of the name of a custom option; both of its fields are always written. -/
def NamePart.toValue (p : NamePart) : Value :=
  .message [(1, .ofOption (some p.namePart)), (2, .ofOption (some p.isExtension))]

def UninterpretedOption.toValue (o : UninterpretedOption) : Value :=
  .message [(2, .ofMessages NamePart.toValue o.name), (3, .ofOption o.identifierValue),
    (4, .ofOption o.positiveIntValue), (5, .ofOption o.negativeIntValue), (6, .ofOption o.doubleValue),
    (7, .ofOption o.stringValue), (8, .ofOption o.aggregateValue)]

def uninterpretedSlot (os : List UninterpretedOption) : Int × Slot :=
  (Value.uninterpretedNumber, .ofMessages UninterpretedOption.toValue os)

def FileOptions.toValue (o : FileOptions) : Value :=
  .message [(1, .ofOption o.javaPackage), (8, .ofOption o.javaOuterClassname), (9, .ofOption o.optimizeFor),
    (10, .ofOption o.javaMultipleFiles), (11, .ofOption o.goPackage), (16, .ofOption o.ccGenericServices),
    (17, .ofOption o.javaGenericServices), (18, .ofOption o.pyGenericServices),
    (20, .ofOption o.javaGenerateEqualsAndHash), (23, .ofOption o.deprecated),
    (27, .ofOption o.javaStringCheckUtf8), (31, .ofOption o.ccEnableArenas),
    (36, .ofOption o.objcClassPrefix), (37, .ofOption o.csharpNamespace), (39, .ofOption o.swiftPrefix),
    (40, .ofOption o.phpClassPrefix), (41, .ofOption o.phpNamespace), (42, .ofOption o.phpGenericServices),
    (44, .ofOption o.phpMetadataNamespace), (45, .ofOption o.rubyPackage),
    uninterpretedSlot o.uninterpretedOption]

def MessageOptions.toValue (o : MessageOptions) : Value :=
  .message [(1, .ofOption o.messageSetWireFormat), (2, .ofOption o.noStandardDescriptorAccessor),
    (3, .ofOption o.deprecated), (7, .ofOption o.mapEntry), uninterpretedSlot o.uninterpretedOption]

def FieldOptions.toValue (o : FieldOptions) : Value :=
  .message [(1, .ofOption o.ctype), (2, .ofOption o.packed), (3, .ofOption o.deprecated), (5, .ofOption o.lazy),
    (6, .ofOption o.jstype), (10, .ofOption o.weak), uninterpretedSlot o.uninterpretedOption]

def PlainOptions.toValue (o : PlainOptions) : Value :=
  .message [uninterpretedSlot o.uninterpretedOption]

def EnumOptions.toValue (o : EnumOptions) : Value :=
  .message [(2, .ofOption o.allowAlias), (3, .ofOption o.deprecated), uninterpretedSlot o.uninterpretedOption]

def EnumValueOptions.toValue (o : EnumValueOptions) : Value :=
  .message [(1, .ofOption o.deprecated), uninterpretedSlot o.uninterpretedOption]

def ServiceOptions.toValue (o : ServiceOptions) : Value :=
  .message [(33, .ofOption o.deprecated), uninterpretedSlot o.uninterpretedOption]

def MethodOptions.toValue (o : MethodOptions) : Value :=
  .message [(33, .ofOption o.deprecated), (34, .ofOption o.idempotencyLevel),
    uninterpretedSlot o.uninterpretedOption]

def FieldDescriptor.toValue (f : FieldDescriptor) : Value :=
  .message [(1, .ofOption f.name), (2, .ofOption f.extendee), (3, .ofOption f.number), (4, .ofOption f.label),
    (5, .ofOption f.type), (6, .ofOption f.typeName), (7, .ofOption f.defaultValue),
    (8, .ofMessage FieldOptions.toValue f.options), (9, .ofOption f.oneofIndex), (10, .ofOption f.jsonName),
    (17, .ofOption f.proto3Optional)]

def OneofDescriptor.toValue (o : OneofDescriptor) : Value :=
  .message [(1, .ofOption o.name), (2, .ofMessage PlainOptions.toValue o.options)]

def ExtensionRange.toValue (r : ExtensionRange) : Value :=
  .message [(1, .ofOption r.start), (2, .ofOption r.stop), (3, .ofMessage PlainOptions.toValue r.options)]

def ReservedRange.toValue (r : ReservedRange) : Value :=
  .message [(1, .ofOption r.start), (2, .ofOption r.stop)]

def EnumValueDescriptor.toValue (v : EnumValueDescriptor) : Value :=
  .message [(1, .ofOption v.name), (2, .ofOption v.number), (3, .ofMessage EnumValueOptions.toValue v.options)]

def EnumDescriptor.toValue (e : EnumDescriptor) : Value :=
  .message [(1, .ofOption e.name), (2, .ofMessages EnumValueDescriptor.toValue e.value),
    (3, .ofMessage EnumOptions.toValue e.options), (4, .ofMessages ReservedRange.toValue e.reservedRange),
    (5, .ofScalars e.reservedName)]

def MethodDescriptor.toValue (m : MethodDescriptor) : Value :=
  .message [(1, .ofOption m.name), (2, .ofOption m.inputType), (3, .ofOption m.outputType),
    (4, .ofMessage MethodOptions.toValue m.options), (5, .ofOption m.clientStreaming),
    (6, .ofOption m.serverStreaming)]

def ServiceDescriptor.toValue (s : ServiceDescriptor) : Value :=
  .message [(1, .ofOption s.name), (2, .ofMessages MethodDescriptor.toValue s.method),
    (3, .ofMessage ServiceOptions.toValue s.options)]

mutual

def MessageDescriptor.toValue : MessageDescriptor → Value
  | .mk name field nested enums ranges ext options oneofs reserved names =>
    .message [(1, .ofOption name), (2, .ofMessages FieldDescriptor.toValue field),
      (3, .repeated (MessageDescriptor.nestedValues nested)), (4, .ofMessages EnumDescriptor.toValue enums),
      (5, .ofMessages ExtensionRange.toValue ranges), (6, .ofMessages FieldDescriptor.toValue ext),
      (7, .ofMessage MessageOptions.toValue options), (8, .ofMessages OneofDescriptor.toValue oneofs),
      (9, .ofMessages ReservedRange.toValue reserved), (10, .ofScalars names)]

def MessageDescriptor.nestedValues : List MessageDescriptor → List Value
  | [] => []
  | m :: ms => m.toValue :: MessageDescriptor.nestedValues ms

end

theorem MessageDescriptor.nestedValues_eq (ms : List MessageDescriptor) :
    MessageDescriptor.nestedValues ms = ms.map MessageDescriptor.toValue := by
  induction ms with
  | nil => rfl
  | cons m ms ih => simp [MessageDescriptor.nestedValues, ih]

theorem MessageDescriptor.toValue_mk (name : Option String) (field : List FieldDescriptor)
    (nested : List MessageDescriptor) (enums : List EnumDescriptor) (ranges : List ExtensionRange)
    (ext : List FieldDescriptor) (options : Option MessageOptions) (oneofs : List OneofDescriptor)
    (reserved : List ReservedRange) (names : List String) :
    (MessageDescriptor.mk name field nested enums ranges ext options oneofs reserved names).toValue =
      .message [(1, .ofOption name), (2, .ofMessages FieldDescriptor.toValue field),
        (3, .ofMessages MessageDescriptor.toValue nested), (4, .ofMessages EnumDescriptor.toValue enums),
        (5, .ofMessages ExtensionRange.toValue ranges), (6, .ofMessages FieldDescriptor.toValue ext),
        (7, .ofMessage MessageOptions.toValue options), (8, .ofMessages OneofDescriptor.toValue oneofs),
        (9, .ofMessages ReservedRange.toValue reserved), (10, .ofScalars names)] := by
  rw [MessageDescriptor.toValue, MessageDescriptor.nestedValues_eq]
  rfl

def SourceLocation.toValue (l : SourceLocation) : Value :=
  .message [(1, .ofScalars l.path), (2, .ofScalars l.span), (3, .ofOption l.leadingComments),
    (4, .ofOption l.trailingComments), (6, .ofScalars l.leadingDetachedComments)]

def sourceInfoValue (ls : List SourceLocation) : Value :=
  .message [(1, .ofMessages SourceLocation.toValue ls)]

def FileDescriptor.toValue (f : FileDescriptor) : Value :=
  .message [(1, .ofOption f.name), (2, .ofOption f.package), (3, .ofScalars f.dependency),
    (4, .ofMessages MessageDescriptor.toValue f.messageType), (5, .ofMessages EnumDescriptor.toValue f.enumType),
    (6, .ofMessages ServiceDescriptor.toValue f.service), (7, .ofMessages FieldDescriptor.toValue f.extension),
    (8, .ofMessage FileOptions.toValue f.options), (9, .ofMessage sourceInfoValue f.sourceCodeInfo),
    (10, .ofScalars f.publicDependency), (11, .ofScalars f.weakDependency), (12, .ofOption f.dialect)]

end ProtoSchema
