import ProtoSchema.Proofs.Compile.Clean

/-!
Well-formed messages, and what the checks of a field give when they pass.

A message is well formed when its fields have distinct names and distinct numbers, each
number a field number may be and outside the message's reserved and extension ranges,
no name reserved, every range non-empty within the field numbers, and, in proto3, the
default JSON names of its fields distinct up to ASCII case; and every message nested in
it is well formed (`MessageDescriptor.WellFormed`).

A clean run of the compiler on a field declaration returns a field of the declared name
and number, and that number passed the field number checks (`plainField_clean`,
`mapField_clean`); the entry message of a map field is well formed. A range whose check
passes is well formed as the descriptor records it (`checkRange_clean`).
-/

namespace ProtoSchema

def FieldNumberOk (n : Int) : Prop :=
  0 < n ∧ n ≤ maxFieldNumber ∧ ¬(19000 ≤ n ∧ n ≤ 19999)

def RangeOk (start stop : Option Int) : Prop :=
  ∃ a b, start = some a ∧ stop = some b ∧ 0 < a ∧ a < b ∧ b ≤ maxFieldNumber + 1

def InRange (start stop : Option Int) (n : Int) : Prop :=
  start.getD 0 ≤ n ∧ n < stop.getD 0

def FieldDescriptor.jsonKey (f : FieldDescriptor) : String :=
  String.map asciiLower (ProtoSchema.jsonName (f.name.getD ""))

namespace MessageDescriptor

/-- The rules on the fields and ranges of one message. -/
structure FieldsWellFormed (proto3 : Bool) (md : MessageDescriptor) : Prop where
  names_nodup : (md.field.map (·.name)).Nodup
  numbers_nodup : (md.field.map (·.number)).Nodup
  numbers_ok : ∀ f ∈ md.field, ∃ n, f.number = some n ∧ FieldNumberOk n
  outside_reserved : ∀ f ∈ md.field, ∀ r ∈ md.reservedRange, ∀ n, f.number = some n →
    ¬InRange r.start r.stop n
  outside_extensions : ∀ f ∈ md.field, ∀ r ∈ md.extensionRange, ∀ n, f.number = some n →
    ¬InRange r.start r.stop n
  names_not_reserved : ∀ f ∈ md.field, ∀ n, f.name = some n → n ∉ md.reservedName
  extension_ranges_ok : ∀ r ∈ md.extensionRange, RangeOk r.start r.stop
  reserved_ranges_ok : ∀ r ∈ md.reservedRange, RangeOk r.start r.stop
  json_keys_nodup : proto3 = true → (md.field.map FieldDescriptor.jsonKey).Nodup

/-- A message whose fields and ranges keep the rules, and every message nested in it too,
at any depth. -/
inductive WellFormed (proto3 : Bool) : MessageDescriptor → Prop where
  | intro {md : MessageDescriptor} : md.FieldsWellFormed proto3 →
      (∀ n ∈ md.nestedType, WellFormed proto3 n) → WellFormed proto3 md

end MessageDescriptor

theorem clampInt32_of_fieldNumber {n : Int} (h₀ : 0 < n) (h₁ : n ≤ maxFieldNumber) :
    clampInt32 n = n := by
  simp only [clampInt32, maxFieldNumber] at *
  norm_num
  omega

theorem wrapInt32_of_range {n : Int} (h₀ : 0 ≤ n) (h₁ : n ≤ maxFieldNumber + 1) :
    wrapInt32 n = n := by
  simp only [wrapInt32, maxFieldNumber] at *
  norm_num
  omega

namespace CompileM

variable {ctx : CompileContext}

theorem fieldNumber_clean (number : Spanned Int) (site : FieldSite) :
    Clean ctx True (fieldNumber number site) fun n =>
      n = number.value ∧ (site.isExtension = false → FieldNumberOk n) := by
  unfold fieldNumber
  dsimp only
  split_ifs with h₀ h₁ h₂
  · exact (Clean.report _ _).bind fun _ => Clean.pure False.elim
  · exact (Clean.report _ _).bind fun _ => Clean.pure False.elim
  · exact (Clean.report _ _).bind fun _ => Clean.pure False.elim
  · -- every check passed: the number is in range, so clamping keeps it
    refine Clean.pure fun _ => ⟨clampInt32_of_fieldNumber (by omega) (by omega), fun hext => ?_⟩
    rw [clampInt32_of_fieldNumber (by omega) (by omega)]
    simp [hext] at h₂
    exact ⟨by omega, by omega, fun h => by have := h₂ h.1; omega⟩

theorem fieldShell_clean (path : List Int) (label : Option (Spanned LabelKind)) (name : String)
    (nameSpan : Span) (number : Spanned Int) (decl : Declaration) (site : FieldSite) :
    Clean ctx True (fieldShell path label name nameSpan number decl site) fun fd =>
      fd.name = some name ∧ fd.number = some number.value ∧
        (site.isExtension = false → FieldNumberOk number.value) := by
  unfold fieldShell
  refine Clean.locateDecl_bind ?_
  refine (fieldNumber_clean number site).bind fun n => ?_
  dsimp only
  split
  all_goals
    simp only [pure_bind]
    repeat refine Clean.locate_bind ?_
    refine Clean.read ?_
    refine Clean.locate_bind (Clean.locate_bind (Clean.pure ?_))
    rintro ⟨hn, hok⟩
    exact ⟨rfl, by rw [hn], hn ▸ hok⟩

theorem defaultOption_clean (H : Prop) (path : List Int) (fd : FieldDescriptor)
    (resolved : Option ResolvedType) (decl : OptionDecl) :
    Clean ctx H (defaultOption path fd resolved decl) fun r =>
      H ∧ r.name = fd.name ∧ r.number = fd.number := by
  unfold defaultOption
  refine Clean.locate_bind ?_
  repeat' (first | refine Clean.report_bind ?_ | split | dsimp only)
  all_goals exact Clean.pure fun h => ⟨h, rfl, rfl⟩

theorem jsonNameOption_clean (H : Prop) (path : List Int) (fd : FieldDescriptor) (decl : OptionDecl) :
    Clean ctx H (jsonNameOption path fd decl) fun r => H ∧ r.name = fd.name ∧ r.number = fd.number := by
  unfold jsonNameOption
  refine Clean.locate_bind ?_
  repeat' (first | refine Clean.report_bind ?_ | split | dsimp only)
  all_goals exact Clean.pure fun h => ⟨h, rfl, rfl⟩

theorem pseudoOptions_clean (H : Prop) (path : List Int) (resolved : Option ResolvedType)
    (site : FieldSite) (decls : List OptionDecl) (acc : FieldDescriptor × Bool × Bool) :
    Clean ctx H (pseudoOptions path resolved site decls acc) fun r =>
      H ∧ r.1.name = acc.1.name ∧ r.1.number = acc.1.number := by
  induction decls generalizing acc with
  | nil =>
    rw [pseudoOptions]
    exact Clean.pure fun h => ⟨h, rfl, rfl⟩
  | cons d rest ih =>
    obtain ⟨fd, defaultSeen, jsonSeen⟩ := acc
    rw [pseudoOptions]
    -- a repeated or misplaced pseudo-option is reported; the others set the default value
    -- or the JSON name, never the name or number
    split_ifs
    · exact Clean.report_bind (ih _)
    · refine (defaultOption_clean H path fd resolved d).bind fun fd' => (ih _).imp And.left ?_
      rintro _ ⟨_, hn, hnum⟩ ⟨h, hn', hnum'⟩
      exact ⟨h, hn'.trans hn, hnum'.trans hnum⟩
    · exact Clean.report_bind (ih _)
    · exact Clean.report_bind (ih _)
    · refine (jsonNameOption_clean H path fd d).bind fun fd' => (ih _).imp And.left ?_
      rintro _ ⟨_, hn, hnum⟩ ⟨h, hn', hnum'⟩
      exact ⟨h, hn'.trans hn, hnum'.trans hnum⟩
    · exact ih _

theorem fieldOptionsOf_clean (H : Prop) (path : List Int) (fd : FieldDescriptor) (fieldFull : String)
    (decls : List OptionDecl) (resolved : Option ResolvedType) (site : FieldSite) :
    Clean ctx H (fieldOptionsOf path fd fieldFull decls resolved site) fun r =>
      H ∧ r.name = fd.name ∧ r.number = fd.number := by
  unfold fieldOptionsOf
  refine (pseudoOptions_clean H path resolved site _ _).bind fun r => ?_
  obtain ⟨fd', _, _⟩ := r
  refine (Clean.of_kept fun _ => interpretOptions_spec _ _ _ _).bind fun options => ?_
  dsimp only
  repeat' (first | refine Clean.report_bind ?_ | split)
  all_goals exact Clean.pure id

theorem plainField_clean (path : List Int) (scope : String) (field : Field) (site : FieldSite) :
    Clean ctx True (plainField path scope field site) fun fd =>
      fd.name = some field.name.value ∧ fd.number = some field.number.value ∧
        (site.isExtension = false → FieldNumberOk field.number.value) := by
  unfold plainField
  refine (fieldShell_clean _ _ _ _ _ _ _).bind fun fd => ?_
  refine Clean.locate_bind ?_
  refine (Clean.of_kept fun _ => fieldType_spec _ _).bind fun resolved => ?_
  dsimp only
  -- every exit reads the options of the field, its name and number as `fieldShell` gave them
  have hopts : ∀ (fd' : FieldDescriptor) r, fd'.name = fd.name → fd'.number = fd.number →
      Clean ctx (fd.name = some field.name.value ∧ fd.number = some field.number.value ∧
          (site.isExtension = false → FieldNumberOk field.number.value))
        (fieldOptionsOf path fd' (qualify scope field.name.value) field.options r site) fun fd =>
          fd.name = some field.name.value ∧ fd.number = some field.number.value ∧
            (site.isExtension = false → FieldNumberOk field.number.value) :=
    fun fd' r hn hnum => (fieldOptionsOf_clean _ _ _ _ _ _ _).imp id
      fun _ _ ⟨⟨h₁, h₂, h₃⟩, hn', hnum'⟩ => ⟨hn'.trans (hn.trans h₁), hnum'.trans (hnum.trans h₂), h₃⟩
  repeat' (first
    | exact hopts _ _ rfl rfl
    | split
    | simp only [pure_bind]
    | refine Clean.report_bind ?_
    | refine Clean.read ?_)

theorem entry_wellFormed (proto3 : Bool) (entryName : String) (keyType valueType : Option FieldType)
    (valueName : Option String) (options : Option MessageOptions) :
    (MessageDescriptor.mk (some entryName)
      [entryField "key" 1 keyType none, entryField "value" 2 valueType valueName]
      [] [] [] [] options [] [] []).WellFormed proto3 := by
  refine .intro ⟨?_, ?_, ?_, ?_, ?_, ?_, ?_, ?_, ?_⟩ (by simp [MessageDescriptor.nestedType])
  all_goals simp [MessageDescriptor.field, MessageDescriptor.reservedRange, MessageDescriptor.extensionRange,
    MessageDescriptor.reservedName, entryField]
  · simp [FieldNumberOk, maxFieldNumber]
  · -- the default JSON names are the field names, of different lengths
    intro _ h
    have hlen := congrArg String.length h
    simp [FieldDescriptor.jsonKey, jsonName, camelGo] at hlen
    exact absurd hlen (by decide)

theorem mapField_clean (fieldPath entryPath : List Int) (scope : String) (m : MapField) :
    Clean ctx True (mapField fieldPath entryPath scope m) fun r =>
      r.1.name = some m.name.value ∧ r.1.number = some m.number.value ∧ FieldNumberOk m.number.value ∧
        r.2.WellFormed ctx.proto3 := by
  unfold mapField
  refine (fieldShell_clean _ _ _ _ _ _ _).bind fun fd => ?_
  dsimp only
  refine Clean.locate_bind ?_
  refine (Clean.of_kept fun _ => fieldType_spec _ _).bind fun key => ?_
  -- a key of a type a map may not be keyed by is reported; then the value type is resolved,
  -- the entry located and the options read, the same after every kind of key
  repeat' (first
    | with_reducible refine Clean.report_bind ?_
    | split
    | simp only [pure_bind]
    | with_reducible refine (Clean.of_kept fun _ => fieldType_spec _ _).bind fun _ => ?_
    | with_reducible refine Clean.locate_bind ?_
    | with_reducible refine (fieldOptionsOf_clean _ _ _ _ _ _ _).bind fun _ => ?_)
  all_goals
    refine Clean.pure ?_
    rintro ⟨⟨hn, hnum, hok⟩, hn', hnum'⟩
    exact ⟨hn'.trans hn, hnum'.trans hnum, hok rfl, entry_wellFormed _ _ _ _ _ _⟩

theorem checkRange_clean (r : NumberRange) (start stop limit : Int) (what : String) :
    Clean ctx True (checkRange r start stop limit what) fun _ => 0 < start ∧ start < stop ∧ stop ≤ limit := by
  unfold checkRange
  split_ifs with h₀ h₁ h₂
  · exact Clean.report _ _
  · exact Clean.report _ _
  · exact Clean.report _ _
  · exact Clean.pure fun _ => ⟨by omega, by omega, by omega⟩

end CompileM

end ProtoSchema
