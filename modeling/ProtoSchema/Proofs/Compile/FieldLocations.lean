import ProtoSchema.Proofs.Compile.Located

/-!
Where the locations of a field point. A field records the paths of its declaration, label,
name and number, then of its type, and last of its pseudo-options and options, each read
below the path of the field. The compiler sets every part such a path names before the field
is finished, and a part once set stays set, so the field returned admits every path recorded
while compiling it (`plainField_located`, `mapField_located`).

The type a location names is set only when the type name resolves; a clean run resolves every
name it meets (`fieldType_clean`, `resolveMessage_clean`).
-/

namespace ProtoSchema

variable {N : Int → Prop}

theorem Value.admitsAfter_ofOption {α : Type} {fs : List (Int × Slot)} {n : Int} {x : Option α}
    {base : List Int} (hl : fs.lookup n = some (Slot.ofOption x)) (hx : x.isSome) :
    (Value.message fs).AdmitsAfter N base (base ++ [n]) := by
  obtain ⟨a, rfl⟩ := Option.isSome_iff_exists.mp hx
  exact Value.admitsAfter_singular hl

theorem Value.admitsAfter_ofMessage {α : Type} {view : α → Value} {fs : List (Int × Slot)} {n : Int}
    {x : Option α} {base p : List Int} (hl : fs.lookup n = some (Slot.ofMessage view x))
    (h : ∃ o, x = some o ∧ (view o).AdmitsAfter N (base ++ [n]) p) :
    (Value.message fs).AdmitsAfter N base p := by
  obtain ⟨o, rfl, ho⟩ := h
  exact Value.AdmitsAfter.of_slot hl ho

@[simp] theorem Slot.ofMessage_none_le {α : Type} (view : α → Value) (y : Option α) :
    (Slot.ofMessage view none).Le (Slot.ofMessage view y) :=
  trivial

theorem FieldType.ofScalar?_isSome {s : String} (h : isScalarTypeName s = true) :
    (FieldType.ofScalar? s).isSome := by
  have hall : ∀ t ∈ scalarTypeNames, (FieldType.ofScalar? t).isSome := by decide
  exact hall s (by simpa [isScalarTypeName] using h)

/-! ### A field only gains -/

namespace FieldDescriptor

/-- The field `g` is `f` with at most its default value or JSON name set: it admits every
path `f` admits, with the label and options of `f`. -/
structure Gains (f g : FieldDescriptor) : Prop where
  le : f.toValue.Le g.toValue
  label : g.label = f.label
  options : g.options = f.options

theorem Gains.refl (f : FieldDescriptor) : f.Gains f := ⟨Value.Le.refl _, rfl, rfl⟩

theorem Gains.trans {f g h : FieldDescriptor} (hg : f.Gains g) (hh : g.Gains h) : f.Gains h :=
  ⟨hg.le.trans hh.le, hh.label.trans hg.label, hh.options.trans hg.options⟩

variable (f : FieldDescriptor)

theorem le_setDefault (v : String) : f.toValue.Le { f with defaultValue := some v }.toValue :=
  Value.le_message_of_forall₂ (by simp)

theorem le_setJsonName (n : String) : f.toValue.Le { f with jsonName := some n }.toValue :=
  Value.le_message_of_forall₂ (by simp)

theorem le_setExtendee (n : String) : f.toValue.Le { f with extendee := some n }.toValue :=
  Value.le_message_of_forall₂ (by simp)

variable {f}

theorem le_setOptions (h : f.options = none) (o : Option FieldOptions) :
    f.toValue.Le { f with options := o }.toValue :=
  Value.le_message_of_forall₂ (by simp [h])

theorem le_setType (h : f.typeName = none) (t : Int) (n : Option String) :
    f.toValue.Le { f with type := some t, typeName := n }.toValue :=
  Value.le_message_of_forall₂ (by simp [h])

theorem le_setMap (h : f.typeName = none) (l t : Int) (n : String) :
    f.toValue.Le { f with label := some l, type := some t, typeName := some n }.toValue :=
  Value.le_message_of_forall₂ (by simp [h])

end FieldDescriptor

namespace CompileM

variable {ctx : CompileContext} {α β : Type} {H H' : Prop} {m : CompileM α} {P : α → Prop}
  {Q : α → List Int → Prop}

theorem Located.unreachable {P' : α → Prop} {Q' : α → List Int → Prop} (hm : Located ctx H' m P' Q')
    (h : H → False) : Located ctx H m P Q :=
  hm.imp (fun hH => (h hH).elim) fun _ hH _ => (h hH).elim

theorem Located.report_bind_keep {f : Unit → CompileM β} {P : β → Prop} {Q : β → List Int → Prop}
    {span : Span} {message : String} (h : Located ctx H (f ()) P Q) :
    Located ctx H (CompileM.report span message >>= f) P Q :=
  Located.report_bind h.of_false

/-! ### Resolution in a clean run -/

theorem resolve_clean (name : Spanned String) (relativeTo : String) (typesOnly : Bool) :
    Clean ctx True (resolve name relativeTo typesOnly) fun r => r.isSome := by
  unfold resolve
  refine Clean.read ?_
  split
  · exact Clean.pure fun _ => rfl
  all_goals exact (Clean.report _ _).bind fun _ => Clean.pure False.elim

theorem resolveMessage_clean (name : Spanned String) (relativeTo : String) :
    Clean ctx True (resolveMessage name relativeTo) fun r => r.isSome := by
  unfold resolveMessage
  refine (resolve_clean name relativeTo true).bind fun r => ?_
  split
  · exact Clean.pure fun h => h
  · split
    · exact Clean.pure fun _ => rfl
    · exact (Clean.report _ _).bind fun _ => Clean.pure False.elim

/-- A clean run resolves a field's type, and names it unless it is a scalar keyword. -/
theorem fieldType_clean (ty : Spanned String) (relativeTo : String) :
    Clean ctx True (fieldType ty relativeTo) fun r =>
      ∃ ft, r = some ft ∧ (isScalarTypeName ty.value = false → ft.typeName.isSome) := by
  unfold fieldType
  split
  · rename_i hs
    obtain ⟨t, ht⟩ := Option.isSome_iff_exists.mp (FieldType.ofScalar?_isSome hs)
    exact Clean.pure fun _ => ⟨_, by rw [ht]; rfl, fun h => by simp [h] at hs⟩
  · refine (resolve_clean ty relativeTo true).bind fun r => ?_
    split
    · exact Clean.pure fun h => by simp at h
    · -- a message or an enum is named by its full name
      split
      · exact Clean.pure fun _ => ⟨_, rfl, fun _ => rfl⟩
      · exact Clean.pure fun _ => ⟨_, rfl, fun _ => rfl⟩
      · exact (Clean.report _ _).bind fun _ => Clean.pure False.elim

/-! ### The locations of a field -/

theorem fieldShell_located (path : List Int) (label : Option (Spanned LabelKind)) (name : String)
    (nameSpan : Span) (number : Spanned Int) (decl : Declaration) (site : FieldSite) :
    Located ctx True (fieldShell path label name nameSpan number decl site)
      (fun fd => fd.typeName = none ∧ fd.options = none) (fun fd p => fd.toValue.AdmitsAfter ctx.ExtensionNumber path p) := by
  unfold fieldShell
  refine Located.locateDecl_bind ?_
  refine (Located.of_clean (Q := fun _ _ => False) (fieldNumber_clean number site)
    fun L => fieldNumber_locations L _ _).bind fun n => ?_
  -- the label, when written, is located first; then the name and the number
  cases label with
  | none =>
    simp only [pure_bind]
    refine Located.read ?_
    refine Located.locate_bind ?_
    refine Located.locate_bind ?_
    refine Located.pure fun _ => ?_
    and_intros
    · rfl
    · rfl
    · exact Value.admitsAfter_self _ _
    · exact fun _ h => h.elim
    · exact Value.admitsAfter_ofOption rfl rfl
    · exact Value.admitsAfter_ofOption rfl rfl
  | some l =>
    simp only [pure_bind]
    refine Located.locate_bind ?_
    refine Located.read ?_
    refine Located.locate_bind ?_
    refine Located.locate_bind ?_
    refine Located.pure fun _ => ?_
    and_intros
    · rfl
    · rfl
    · exact Value.admitsAfter_self _ _
    · exact fun _ h => h.elim
    · exact Value.admitsAfter_ofOption rfl rfl
    · exact Value.admitsAfter_ofOption rfl rfl
    · exact Value.admitsAfter_ofOption rfl rfl

theorem defaultOption_located (path : List Int) (fd : FieldDescriptor) (resolved : Option ResolvedType)
    (decl : OptionDecl) :
    Located ctx (resolved.isSome ∨ fd.label = some FieldLabel.repeated.number)
      (defaultOption path fd resolved decl) (fun r => fd.Gains r) (fun r p => r.toValue.AdmitsAfter ctx.ExtensionNumber path p) := by
  unfold defaultOption
  refine Located.locate_bind ?_
  split
  · exact Located.report_bind (Located.pure False.elim)
  · rename_i hrep
    split
    · exact Located.pure fun h => by simp [hrep] at h
    · dsimp only
      split
      · exact Located.pure fun _ =>
          ⟨⟨fd.le_setDefault _, rfl, rfl⟩, Value.admitsAfter_ofOption rfl rfl⟩
      · exact Located.report_bind (Located.pure False.elim)

theorem jsonNameOption_located (path : List Int) (fd : FieldDescriptor) (decl : OptionDecl) :
    Located ctx True (jsonNameOption path fd decl) (fun r => fd.Gains r)
      (fun r p => r.toValue.AdmitsAfter ctx.ExtensionNumber path p) := by
  unfold jsonNameOption
  refine Located.locate_bind ?_
  split
  · exact Located.pure fun _ => ⟨⟨fd.le_setJsonName _, rfl, rfl⟩, Value.admitsAfter_ofOption rfl rfl⟩
  · exact Located.report_bind (Located.pure False.elim)

theorem Located.gains_bind {resolved : Option ResolvedType} {path : List Int} {fd : FieldDescriptor}
    {m : CompileM FieldDescriptor} {k : FieldDescriptor → CompileM (FieldDescriptor × Bool × Bool)}
    (hm : Located ctx (resolved.isSome ∨ fd.label = some FieldLabel.repeated.number) m (fun r => fd.Gains r)
      (fun r p => r.toValue.AdmitsAfter ctx.ExtensionNumber path p))
    (hk : ∀ fd', Located ctx (resolved.isSome ∨ fd'.label = some FieldLabel.repeated.number) (k fd')
      (fun r => fd'.Gains r.1) (fun r p => r.1.toValue.AdmitsAfter ctx.ExtensionNumber path p)) :
    Located ctx (resolved.isSome ∨ fd.label = some FieldLabel.repeated.number) (m >>= k)
      (fun r => fd.Gains r.1) (fun r p => r.1.toValue.AdmitsAfter ctx.ExtensionNumber path p) :=
  (hm.frame id).bind fun fd' => (hk fd').imp (fun h => by rw [h.2.label]; exact h.1)
    fun _ h hr => ⟨⟨h.2.trans hr, fun _ hp => hr.le.admitsAfter hp⟩, fun _ hp => hp⟩

theorem pseudoOptions_located (path : List Int) (resolved : Option ResolvedType) (site : FieldSite)
    (decls : List OptionDecl) (acc : FieldDescriptor × Bool × Bool) :
    Located ctx (resolved.isSome ∨ acc.1.label = some FieldLabel.repeated.number)
      (pseudoOptions path resolved site decls acc) (fun r => acc.1.Gains r.1)
      (fun r p => r.1.toValue.AdmitsAfter ctx.ExtensionNumber path p) := by
  induction decls generalizing acc with
  | nil =>
    rw [pseudoOptions]
    exact Located.pure fun _ => FieldDescriptor.Gains.refl _
  | cons d rest ih =>
    obtain ⟨fd, defaultSeen, jsonSeen⟩ := acc
    rw [pseudoOptions]
    -- a repeated or misplaced pseudo-option is reported; the others set their part
    split_ifs
    · exact Located.report_bind (ih _).of_false
    · exact Located.gains_bind (defaultOption_located path fd resolved d) fun fd' => ih (fd', true, jsonSeen)
    · exact Located.report_bind (ih _).of_false
    · exact Located.report_bind (ih _).of_false
    · exact Located.gains_bind ((jsonNameOption_located path fd d).imp (fun _ => trivial)
        fun _ _ h => ⟨h, fun _ h => h⟩) fun fd' => ih (fd', defaultSeen, true)
    · exact ih _

theorem fieldOptionsOf_located (path : List Int) (fd : FieldDescriptor) (fieldFull : String)
    (decls : List OptionDecl) (resolved : Option ResolvedType) (site : FieldSite) :
    Located ctx ((resolved.isSome ∨ fd.label = some FieldLabel.repeated.number) ∧ fd.options = none)
      (fieldOptionsOf path fd fieldFull decls resolved site) (fun r => fd.toValue.Le r.toValue)
      (fun r p => r.toValue.AdmitsAfter ctx.ExtensionNumber path p) := by
  unfold fieldOptionsOf
  refine ((pseudoOptions_located path resolved site (decls.filter OptionDecl.isPseudo) (fd, false, false)).frame
    And.left).bind fun r => ?_
  obtain ⟨fd', _, _⟩ := r
  refine ((interpretOptions_located fieldOptions_viewed (path ++ [8]) fieldFull _).frame
    fun _ => trivial).bind fun options => ?_
  dsimp only
  -- whether or not `packed` is reported, the field is returned with its options, which it
  -- had none of before
  have hfin : ∀ (H' : Prop) (x : Option FieldOptions), (H' → fd.options = none ∧ fd.Gains fd') →
      Located ctx H' (Pure.pure { fd' with options := x })
        (fun b => (fd.toValue.Le b.toValue ∧ ∀ p, fd'.toValue.AdmitsAfter ctx.ExtensionNumber path p → b.toValue.AdmitsAfter ctx.ExtensionNumber path p) ∧
          ∀ p, (∃ o, x = some o ∧ o.toValue.AdmitsAfter ctx.ExtensionNumber (path ++ [8]) p) → b.toValue.AdmitsAfter ctx.ExtensionNumber path p)
        (fun r p => r.toValue.AdmitsAfter ctx.ExtensionNumber path p) := by
    intro H' x hH
    refine Located.pure fun h => ?_
    obtain ⟨hnone, hg⟩ := hH h
    have hle := FieldDescriptor.le_setOptions (hg.options.trans hnone) x
    exact ⟨⟨hg.le.trans hle, fun _ hp => hle.admitsAfter hp⟩, fun _ hp => Value.admitsAfter_ofMessage rfl hp⟩
  repeat' (first | exact Located.report_bind (hfin _ _ False.elim) | split)
  all_goals exact hfin _ _ fun h => ⟨h.1.1.2, h.1.2⟩

/-- A field admits every path recorded while compiling it. -/
theorem plainField_located (path : List Int) (scope : String) (field : Field) (site : FieldSite) :
    Located ctx True (plainField path scope field site) (fun _ => True)
      (fun fd p => fd.toValue.AdmitsAfter ctx.ExtensionNumber path p) := by
  unfold plainField
  refine (fieldShell_located _ _ _ _ _ _ _).bind fun fd => ?_
  dsimp only
  refine Located.locate_bind ?_
  refine (Located.of_clean (Q := fun _ _ => False) ((fieldType_clean _ _).frame fun _ => trivial)
    fun L => fieldType_locations L _ _).bind fun resolved => ?_
  split
  · exact Located.unreachable (fieldOptionsOf_located _ _ _ _ _ _) fun h => by simp at h
  · rename_i ft
    -- the type is set, and then the options are read, the same after every check
    have hopts : ∀ H' : Prop, (H' → (fd.typeName = none ∧ fd.options = none) ∧
        ∃ ft', some ft = some ft' ∧ (isScalarTypeName field.typeName.value = false → ft'.typeName.isSome)) →
        Located ctx H' (fieldOptionsOf path { fd with type := some ft.type.number, typeName := ft.typeName }
          (qualify scope field.name.value) field.options (some ft) site)
          (fun b => ((True ∧ ∀ p, fd.toValue.AdmitsAfter ctx.ExtensionNumber path p → b.toValue.AdmitsAfter ctx.ExtensionNumber path p) ∧
            b.toValue.AdmitsAfter ctx.ExtensionNumber path (path ++ [if isScalarTypeName field.typeName.value then 5 else 6])) ∧
            ∀ p, False → b.toValue.AdmitsAfter ctx.ExtensionNumber path p)
          (fun fd p => fd.toValue.AdmitsAfter ctx.ExtensionNumber path p) := by
      intro H' hH
      refine (fieldOptionsOf_located _ _ _ _ _ _).imp (fun h => ⟨.inl rfl, (hH h).1.2⟩) fun b h hle => ?_
      obtain ⟨⟨htn, -⟩, ft', hft, hname⟩ := hH h
      cases hft
      have hset := FieldDescriptor.le_setType htn ft.type.number ft.typeName
      have htype : ({ fd with type := some ft.type.number, typeName := ft.typeName } : FieldDescriptor).toValue.AdmitsAfter ctx.ExtensionNumber
          path (path ++ [if isScalarTypeName field.typeName.value then 5 else 6]) := by
        split
        · exact Value.admitsAfter_ofOption rfl rfl
        · rename_i hs
          exact Value.admitsAfter_ofOption rfl (hname (by simpa using hs))
      exact ⟨⟨⟨⟨trivial, fun _ hp => (hset.trans hle).admitsAfter hp⟩, hle.admitsAfter htype⟩, fun _ h => h.elim⟩,
        fun _ hp => hp⟩
    generalize (if isScalarTypeName field.typeName.value then (5 : Int) else 6) = k at hopts ⊢
    repeat' (first
      | exact hopts _ id
      | exact Located.report_bind (hopts _ False.elim)
      | split
      | simp only [pure_bind]
      | refine Located.read ?_)

/-- A map field admits every path recorded for it, and its entry message every path recorded
for the entry. -/
theorem mapField_located (fieldPath entryPath : List Int) (scope : String) (m : MapField) :
    Located ctx True (mapField fieldPath entryPath scope m) (fun _ => True)
      (fun r p => r.1.toValue.AdmitsAfter ctx.ExtensionNumber fieldPath p ∨ r.2.toValue.AdmitsAfter ctx.ExtensionNumber entryPath p) := by
  unfold mapField
  refine (fieldShell_located _ _ _ _ _ _ _).bind fun fd => ?_
  dsimp only
  refine Located.locate_bind ?_
  refine (Located.of_clean (Q := fun _ _ => False) (Clean.of_kept fun _ => fieldType_spec _ _)
    fun L => fieldType_locations L _ _).bind fun key => ?_
  -- a key of a type a map may not be keyed by is reported; then the value type is resolved,
  -- the entry located and the options read, the same after every kind of key
  repeat' (first | refine Located.report_bind_keep ?_ | split)
  all_goals
    simp only [pure_bind]
    refine (Located.of_clean (Q := fun _ _ => False) (Clean.of_kept fun _ => fieldType_spec _ _)
      fun L => fieldType_locations L _ _).bind fun valueType => ?_
    refine Located.locate_bind ?_
    refine ((fieldOptionsOf_located _ _ _ _ _ _).frame fun h => ⟨.inr rfl, h.2⟩).bind fun fd' => ?_
    refine Located.pure fun h => ?_
    obtain ⟨⟨htn, -⟩, hle⟩ := h
    have hset := (FieldDescriptor.le_setMap htn _ _ _).trans hle
    and_intros
    · trivial
    · exact fun _ hp => .inl (hset.admitsAfter hp)
    · exact .inl (hle.admitsAfter (Value.admitsAfter_ofOption rfl rfl))
    · exact fun _ h => h.elim
    · exact fun _ h => h.elim
    · exact .inr (Value.admitsAfter_self _ _)
    · exact fun _ hp => .inl hp

theorem rangeLocations_located (path : List Int) (r : NumberRange) :
    Located ctx True (rangeLocations path r) (fun _ => True)
      (fun _ p => p = path ∨ p = path ++ [1] ∨ p = path ++ [2]) := by
  unfold rangeLocations
  refine Located.locate_bind ?_
  refine Located.locate_bind ?_
  exact Located.locate fun _ => ⟨⟨⟨trivial, .inl rfl⟩, .inr (.inl rfl)⟩, .inr (.inr rfl)⟩

end CompileM

end ProtoSchema
