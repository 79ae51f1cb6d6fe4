import ProtoSchema.Proofs.Compile.Types

/-!
Where the type references of a compiled file lead. The compiler writes a type name in two ways
only: a name resolved through the symbol table, among the files visible from the compiled file,
to a message or an enum; or the name of a message it builds itself, the entry message of a map
field or the message of a group. So when every message and enum of the table is declared by the
file the table names for it (`Collected.TypesDeclared`), every reference of the compiled
descriptor is a dot and the full name of a type that the compiled file or a file visible from it
declares, of the kind the reference asks for (`compileFile_resolves`), whatever the compiler
reports on the way.

The options of a field change only its default value, its JSON name and its options
(`FieldDescriptor.SameShape`), so they keep its references.
-/

namespace ProtoSchema

namespace CompileContext

def Declares (ctx : CompileContext) (x : String × SymbolKind) : Prop :=
  x ∈ ctx.file.schema.types ∨ ∃ j ∈ ctx.visible, ∃ f, ctx.files[j]? = some f ∧ x ∈ f.schema.types

def Resolves (ctx : CompileContext) (r : TypeRef) : Prop :=
  ∃ n, r.name = "." ++ n ∧ ctx.Declares (n, r.kind)

def ResolvesAll (ctx : CompileContext) (l : List TypeRef) : Prop := ∀ r ∈ l, ctx.Resolves r

variable {ctx : CompileContext}

@[simp] theorem resolvesAll_nil : ctx.ResolvesAll [] := by simp [ResolvesAll]

@[simp] theorem resolvesAll_append {l₁ l₂ : List TypeRef} :
    ctx.ResolvesAll (l₁ ++ l₂) ↔ ctx.ResolvesAll l₁ ∧ ctx.ResolvesAll l₂ := by
  simp [ResolvesAll, or_imp, forall_and]

theorem resolvesAll_flatMap {α : Type} {l : List α} {f : α → List TypeRef} :
    ctx.ResolvesAll (l.flatMap f) ↔ ∀ rs ∈ l.map f, ctx.ResolvesAll rs := by
  simp only [ResolvesAll, List.mem_flatMap, List.mem_map, forall_exists_index, and_imp]
  exact ⟨fun h _ x hx hrs r hr => h r x hx (hrs ▸ hr), fun h r x hx hr => h _ x hx rfl r hr⟩

end CompileContext

/-- `fd'` is `fd` with at most its default value, JSON name and options changed. -/
def FieldDescriptor.SameShape (fd fd' : FieldDescriptor) : Prop :=
  ∃ dv jn o, fd' = { fd with defaultValue := dv, jsonName := jn, options := o }

namespace FieldDescriptor.SameShape

variable {fd fd' fd'' : FieldDescriptor}

theorem refl (fd : FieldDescriptor) : fd.SameShape fd := ⟨fd.defaultValue, fd.jsonName, fd.options, rfl⟩

theorem trans (h : fd.SameShape fd') (h' : fd'.SameShape fd'') : fd.SameShape fd'' := by
  obtain ⟨dv, jn, o, rfl⟩ := h
  obtain ⟨dv', jn', o', rfl⟩ := h'
  exact ⟨dv', jn', o', rfl⟩

theorem typeRefs_eq (h : fd.SameShape fd') : fd'.typeRefs = fd.typeRefs := by
  obtain ⟨dv, jn, o, rfl⟩ := h
  rfl

end FieldDescriptor.SameShape

namespace FieldDescriptor

theorem extendee_eq_none {fd : FieldDescriptor} (h : fd.typeRefs = []) : fd.extendee = none := by
  cases hx : fd.extendee <;> simp_all [typeRefs]

theorem typeRefs_of_type {fd : FieldDescriptor} {t : FieldType} (hext : fd.extendee = none)
    (htype : fd.type = some t.number) :
    fd.typeRefs = (fd.typeName.map fun n => ⟨n, if t = .enum then .enum else .message⟩).toList := by
  have hkind : fd.refKind = if t = .enum then .enum else .message := by
    rw [refKind, htype]
    cases t <;> rfl
  rw [typeRefs, hkind, hext]
  simp

end FieldDescriptor

namespace SchemaFile

theorem message_types_subset {s : SchemaFile} {m : Message} (hm : m ∈ s.messages) :
    Message.types s.scope m ⊆ s.types :=
  fun _ hx => List.mem_append_left _ (List.mem_append_left _ (List.mem_flatMap.mpr ⟨m, hm, hx⟩))

theorem extend_types_subset {s : SchemaFile} {x : Extend} (hx : x ∈ s.extendBlocks) :
    ExtendElement.bodyTypes s.scope x.body ⊆ s.types :=
  fun _ h => List.mem_append_right _ (List.mem_flatMap.mpr ⟨x, hx, h⟩)

end SchemaFile

namespace CompileM

variable {ctx : CompileContext}

theorem Yields.of_imp {α : Type} {H : Prop} {m : CompileM α} {P : α → Prop} (h : H → Yields ctx m P) :
    Yields ctx m fun a => H → P a :=
  fun s hH => h hH s

/-! ### The options of a field -/

theorem defaultOption_sameShape (path : List Int) (fd : FieldDescriptor) (resolved : Option ResolvedType)
    (decl : OptionDecl) : Yields ctx (defaultOption path fd resolved decl) fd.SameShape := by
  unfold defaultOption
  repeat' (first | with_reducible refine Yields.seq fun _ => ?_ | split | dsimp only)
  all_goals first
    | exact Yields.pure (FieldDescriptor.SameShape.refl fd)
    | exact Yields.pure ⟨_, _, _, rfl⟩

theorem jsonNameOption_sameShape (path : List Int) (fd : FieldDescriptor) (decl : OptionDecl) :
    Yields ctx (jsonNameOption path fd decl) fd.SameShape := by
  unfold jsonNameOption
  repeat' (first | with_reducible refine Yields.seq fun _ => ?_ | split)
  all_goals first
    | exact Yields.pure (FieldDescriptor.SameShape.refl fd)
    | exact Yields.pure ⟨_, _, _, rfl⟩

theorem pseudoOptions_sameShape (path : List Int) (resolved : Option ResolvedType) (site : FieldSite)
    (fd : FieldDescriptor) :
    ∀ (decls : List OptionDecl) (acc : FieldDescriptor × Bool × Bool), fd.SameShape acc.1 →
      Yields ctx (pseudoOptions path resolved site decls acc) fun r => fd.SameShape r.1
  | [], acc, h => by
    rw [pseudoOptions]
    exact Yields.pure h
  | d :: rest, (fd', defaultSeen, jsonSeen), h => by
    rw [pseudoOptions]
    have ih := pseudoOptions_sameShape path resolved site fd rest
    -- each pseudo-option is reported, set or passed over
    split
    · split
      · exact Yields.seq fun _ => ih _ h
      · exact (defaultOption_sameShape _ _ _ _).bind fun _ h' => ih _ (h.trans h')
    · split
      · split
        · exact Yields.seq fun _ => ih _ h
        · split
          · exact Yields.seq fun _ => ih _ h
          · exact (jsonNameOption_sameShape _ _ _).bind fun _ h' => ih _ (h.trans h')
      · exact ih _ h

theorem fieldOptionsOf_sameShape (path : List Int) (fd : FieldDescriptor) (fieldFull : String)
    (decls : List OptionDecl) (resolved : Option ResolvedType) (site : FieldSite) :
    Yields ctx (fieldOptionsOf path fd fieldFull decls resolved site) fd.SameShape := by
  unfold fieldOptionsOf
  refine (pseudoOptions_sameShape path resolved site fd _ (fd, false, false) (.refl fd)).bind fun r hr => ?_
  obtain ⟨fd', _, _⟩ := r
  refine Yields.seq fun options => ?_
  dsimp only
  obtain ⟨dv, jn, o, rfl⟩ := hr
  repeat' (first | with_reducible refine Yields.seq fun _ => ?_ | split)
  all_goals exact Yields.pure ⟨dv, jn, _, rfl⟩

/-! ### Names resolved through the symbol table -/

section Table

variable (hT : Collected.TypesDeclared ctx.files { table := ctx.table })
include hT

theorem resolve_declares (name : Spanned String) (relativeTo : String) (typesOnly : Bool) :
    Yields ctx (resolve name relativeTo typesOnly) fun o =>
      ∀ full s, o = some (full, s) → s.kind.isType = true → ctx.Declares (full, s.kind) := by
  unfold resolve
  apply Yields.read
  split
  · rename_i full s hlookup
    refine Yields.pure ?_
    rintro full' s' h hty
    cases h
    obtain ⟨hget, hvis⟩ := SymbolTable.lookup_found hlookup
    obtain ⟨hvisEq, f, hf, hmem⟩ := hT full s hget hty
    rw [hvisEq] at hvis
    exact .inr ⟨s.file, by simpa using hvis, f, hf, hmem⟩
  all_goals exact Yields.seq fun _ => Yields.pure (by simp)

theorem resolveMessage_declares (name : Spanned String) (relativeTo : String) :
    Yields ctx (resolveMessage name relativeTo) fun o => ∀ full s, o = some (full, s) → ctx.Declares (full, .message) := by
  unfold resolveMessage
  refine Yields.bind (resolve_declares hT name relativeTo true) fun o ho => ?_
  rcases o with _ | ⟨full, s⟩
  · exact Yields.pure (by simp)
  · dsimp only
    split
    · rename_i hkind
      refine Yields.pure ?_
      rintro full' s' h
      cases h
      have hdecl := ho full s rfl (by rw [hkind]; rfl)
      rwa [hkind] at hdecl
    · exact Yields.seq fun _ => Yields.pure (by simp)

theorem fieldType_resolves (ty : Spanned String) (relativeTo : String) :
    Yields ctx (fieldType ty relativeTo) fun o =>
      ∀ ft ∈ o, ∀ n ∈ ft.typeName, ctx.Resolves ⟨n, if ft.type = .enum then .enum else .message⟩ := by
  unfold fieldType
  split
  · -- a scalar type names nothing
    refine Yields.pure fun ft hft n hn => ?_
    obtain ⟨t, -, rfl⟩ := Option.mem_map.mp hft
    cases hn
  · refine Yields.bind (resolve_declares hT ty relativeTo true) fun o ho => ?_
    rcases o with _ | ⟨full, s⟩
    · exact Yields.pure (by simp)
    · dsimp only
      have hdecl := ho full s rfl
      split
      · rename_i hkind
        refine Yields.pure ?_
        rintro ft hft n hn
        cases hft
        cases hn
        exact ⟨full, rfl, by simpa [hkind, SymbolKind.isType] using hdecl⟩
      · rename_i hkind
        refine Yields.pure ?_
        rintro ft hft n hn
        cases hft
        cases hn
        exact ⟨full, rfl, by simpa [hkind, SymbolKind.isType] using hdecl⟩
      · exact Yields.seq fun _ => Yields.pure (by simp)

theorem startExtend_declares (path : List Int) (scope : String) (extendee : Spanned String) (decl : Declaration) :
    Yields ctx (startExtend path scope extendee decl) fun o =>
      ∀ full s, o = some (full, s) → ctx.Declares (full, .message) := by
  unfold startExtend
  refine Yields.seq fun _ => Yields.bind (resolveMessage_declares hT _ _) fun o ho => ?_
  repeat' (first | with_reducible refine Yields.seq fun _ => ?_ | split)
  all_goals exact Yields.pure ho

end Table

/-! ### Fields -/

theorem fieldShell_bare (path : List Int) (label : Option (Spanned LabelKind)) (name : String) (nameSpan : Span)
    (number : Spanned Int) (decl : Declaration) (site : FieldSite) :
    Yields ctx (fieldShell path label name nameSpan number decl site) fun fd => fd.typeRefs = [] := by
  unfold fieldShell
  repeat' (first | with_reducible refine Yields.seq fun _ => ?_ | split | apply Yields.read)
  all_goals exact Yields.pure rfl

theorem fieldOptionsOf_resolves (path : List Int) {fd : FieldDescriptor} (fieldFull : String)
    (decls : List OptionDecl) (resolved : Option ResolvedType) (site : FieldSite) (hfd : ctx.ResolvesAll fd.typeRefs) :
    Yields ctx (fieldOptionsOf path fd fieldFull decls resolved site) fun fd' => ctx.ResolvesAll fd'.typeRefs :=
  (fieldOptionsOf_sameShape _ _ _ _ _ _).imp fun _ hs => by rw [hs.typeRefs_eq]; exact hfd

theorem resolvesAll_of_fieldType {fd : FieldDescriptor} {ft : ResolvedType} (hext : fd.extendee = none)
    (htype : fd.type = some ft.type.number) (hname : fd.typeName = ft.typeName)
    (hres : ∀ n ∈ ft.typeName, ctx.Resolves ⟨n, if ft.type = .enum then .enum else .message⟩) :
    ctx.ResolvesAll fd.typeRefs := by
  rw [FieldDescriptor.typeRefs_of_type hext htype, hname]
  intro r hr
  rw [Option.mem_toList, Option.map_eq_some_iff] at hr
  obtain ⟨n, hn, rfl⟩ := hr
  exact hres n hn

theorem resolvesAll_of_ownType {fd : FieldDescriptor} {t : FieldType} {full : String} (hext : fd.extendee = none)
    (htype : fd.type = some t.number) (ht : t ≠ .enum) (hname : fd.typeName = some ("." ++ full))
    (hdecl : (full, SymbolKind.message) ∈ ctx.file.schema.types) : ctx.ResolvesAll fd.typeRefs := by
  rw [FieldDescriptor.typeRefs_of_type hext htype, hname, if_neg ht]
  intro r hr
  rw [Option.map_some, Option.mem_toList, Option.some_inj] at hr
  subst hr
  exact ⟨full, rfl, .inl hdecl⟩

theorem finishExtension_resolves (path : List Int) (extendeeSpan : Span) {extendee : Option (String × Symbol)}
    (hx : ∀ full s, extendee = some (full, s) → ctx.Declares (full, .message)) {fd : FieldDescriptor}
    (hfd : ctx.ResolvesAll fd.typeRefs) (number : Spanned Int) :
    Yields ctx (finishExtension path extendeeSpan extendee fd number) fun fd' => ctx.ResolvesAll fd'.typeRefs := by
  unfold finishExtension
  refine Yields.seq fun _ => ?_
  split
  · exact Yields.pure hfd
  · rename_i full s
    -- the extendee replaces whatever the field named before: its type name keeps its references
    have hset : ctx.ResolvesAll ({ fd with extendee := some ("." ++ full) } : FieldDescriptor).typeRefs := by
      have htype : ctx.ResolvesAll (fd.typeName.map fun n => ⟨n, fd.refKind⟩).toList :=
        (CompileContext.resolvesAll_append.mp hfd).1
      refine CompileContext.resolvesAll_append.mpr ⟨htype, ?_⟩
      intro r hr
      rw [Option.map_some, Option.mem_toList, Option.some_inj] at hr
      subst hr
      exact ⟨full, rfl, hx full s rfl⟩
    repeat' (first | exact Yields.pure hset | split | with_reducible refine Yields.seq fun _ => ?_)

theorem resolvesAll_mapEntry {valueType : Option ResolvedType}
    (hv : ∀ ft ∈ valueType, ∀ n ∈ ft.typeName, ctx.Resolves ⟨n, if ft.type = .enum then .enum else .message⟩)
    (name : String) (keyType : Option FieldType) (options : Option MessageOptions) :
    ctx.ResolvesAll (MessageDescriptor.mk (some name)
      [entryField "key" 1 keyType none, entryField "value" 2 (valueType.map (·.type)) (valueType.bind (·.typeName))]
      [] [] [] [] options [] [] []).typeRefs := by
  have hkey : (entryField "key" 1 keyType none).typeRefs = [] := rfl
  simp only [MessageDescriptor.typeRefs, MessageDescriptor.nestedTypeRefs, List.flatMap_cons, List.flatMap_nil, hkey,
    List.nil_append, List.append_nil]
  cases valueType with
  | none => exact fun _ hr => absurd hr List.not_mem_nil
  | some ft => exact resolvesAll_of_fieldType rfl rfl rfl (hv ft rfl)

/-! ### Messages -/

/-- Every reference of the fields, messages and extensions a message body has built resolves. -/
structure MessageBuild.Resolved (ctx : CompileContext) (b : MessageBuild) : Prop where
  fields : ∀ fd ∈ b.fields, ctx.ResolvesAll fd.typeRefs
  nested : ∀ md ∈ b.nested, ctx.ResolvesAll md.typeRefs
  extensions : ∀ fd ∈ b.extensions, ctx.ResolvesAll fd.typeRefs

theorem MessageBuild.Resolved.empty : ({} : MessageBuild).Resolved ctx := ⟨by simp, by simp, by simp⟩

theorem finishMessage_resolves (path : List Int) (full : String) (name : Spanned String) {b : MessageBuild}
    (hb : b.Resolved ctx) : Yields ctx (finishMessage path full name b) fun md => ctx.ResolvesAll md.typeRefs := by
  refine (finishMessage_shape path full name b (k := FieldDescriptor.typeRefs) fun _ _ => rfl).imp ?_
  rintro md ⟨-, hnested, -, hext, hfields⟩
  rw [MessageDescriptor.typeRefs_eq, CompileContext.resolvesAll_append, CompileContext.resolvesAll_append,
    CompileContext.resolvesAll_flatMap, CompileContext.resolvesAll_flatMap, CompileContext.resolvesAll_flatMap,
    hfields, hnested, hext]
  simp only [List.forall_mem_map, Array.mem_toList_iff]
  exact ⟨⟨hb.fields, hb.nested⟩, hb.extensions⟩

theorem resolvesAll_resolvedMessage {o : Option (String × Symbol)}
    (h : ∀ full s, o = some (full, s) → ctx.Declares (full, .message)) :
    ctx.ResolvesAll (((o.map fun (n, _) => "." ++ n).map fun n => ⟨n, .message⟩).toList) := by
  rcases o with _ | ⟨full, s⟩
  · simp
  · intro r hr
    rw [Option.map_some, Option.map_some, Option.mem_toList, Option.some_inj] at hr
    subst hr
    exact ⟨full, rfl, h full s rfl⟩

section Table

variable (hT : Collected.TypesDeclared ctx.files { table := ctx.table })
include hT

theorem plainField_resolves (path : List Int) (scope : String) (field : Field) (site : FieldSite) :
    Yields ctx (plainField path scope field site) fun fd => ctx.ResolvesAll fd.typeRefs := by
  unfold plainField
  refine Yields.bind (fieldShell_bare _ _ _ _ _ _ _) fun fd hfd => Yields.seq fun _ => ?_
  refine Yields.bind (fieldType_resolves hT _ _) fun resolved hres => ?_
  dsimp only
  split
  · simp only [pure_bind]
    exact fieldOptionsOf_resolves _ _ _ _ _ (by simp [hfd])
  · rename_i ft
    have hset : ctx.ResolvesAll ({ fd with type := some ft.type.number, typeName := ft.typeName } : FieldDescriptor).typeRefs :=
      resolvesAll_of_fieldType (FieldDescriptor.extendee_eq_none hfd : fd.extendee = none) rfl rfl (hres ft rfl)
    have hleaf := fieldOptionsOf_resolves path (qualify scope field.name.value) field.options (some ft) site hset
    rw [← pure_bind (f := fun fd => fieldOptionsOf path fd _ field.options (some ft) site)] at hleaf
    repeat' (first | exact hleaf | split | apply Yields.read | with_reducible refine Yields.seq fun _ => ?_)

theorem mapField_resolves (fieldPath entryPath : List Int) (scope : String) (m : MapField)
    (hentry : (qualify scope (mapEntryName m.name.value), .message) ∈ ctx.file.schema.types) :
    Yields ctx (mapField fieldPath entryPath scope m) fun r => ctx.ResolvesAll r.1.typeRefs ∧ ctx.ResolvesAll r.2.typeRefs := by
  unfold mapField
  refine Yields.bind (fieldShell_bare _ _ _ _ _ _ _) fun fd hfd => ?_
  dsimp only
  have hfield : ctx.ResolvesAll
      ({ fd with label := some FieldLabel.repeated.number, type := some FieldType.message.number,
                 typeName := some ("." ++ qualify scope (mapEntryName m.name.value)) } : FieldDescriptor).typeRefs :=
    resolvesAll_of_ownType (t := .message) (FieldDescriptor.extendee_eq_none hfd : fd.extendee = none) rfl
      (by decide) rfl hentry
  -- the key's checks only report; the value's type is the one resolved
  repeat' (first
    | refine Yields.bind (fieldType_resolves hT m.valueType _) fun valueType hv => ?_
    | refine Yields.bind (fieldOptionsOf_resolves _ _ _ _ _ hfield) fun fd' hfd' => ?_
    | exact Yields.pure ⟨hfd', resolvesAll_mapEntry hv _ _ _⟩
    | split
    | with_reducible refine Yields.seq fun _ => ?_)

theorem body_resolves :
    (∀ path full body (b : MessageBuild), MessageElement.bodyTypes full body ⊆ ctx.file.schema.types →
      b.Resolved ctx → Yields ctx (elements path full body b) fun b' => b'.Resolved ctx) ∧
    (∀ path full (e : MessageElement) (b : MessageBuild), MessageElement.types full e ⊆ ctx.file.schema.types →
      b.Resolved ctx → Yields ctx (element path full e b) fun b' => b'.Resolved ctx) ∧
    (∀ extBase typeBase scope extendeeSpan (extendee : Option (String × Symbol)) body
        (acc : Array FieldDescriptor × Array MessageDescriptor),
      (∀ full s, extendee = some (full, s) → ctx.Declares (full, .message)) →
      ExtendElement.bodyTypes scope body ⊆ ctx.file.schema.types →
      (∀ fd ∈ acc.1, ctx.ResolvesAll fd.typeRefs) → (∀ md ∈ acc.2, ctx.ResolvesAll md.typeRefs) →
      Yields ctx (extendMembers extBase typeBase scope extendeeSpan extendee body acc) fun r =>
        (∀ fd ∈ r.1, ctx.ResolvesAll fd.typeRefs) ∧ (∀ md ∈ r.2, ctx.ResolvesAll md.typeRefs)) ∧
    (∀ fieldPath typePath scope site (g : Group), Group.types scope g ⊆ ctx.file.schema.types →
      Yields ctx (group fieldPath typePath scope site g) fun r =>
        ctx.ResolvesAll r.1.typeRefs ∧ ctx.ResolvesAll r.2.typeRefs) ∧
    (∀ path full index body (acc : MessageBuild × Nat), OneofElement.bodyTypes full body ⊆ ctx.file.schema.types →
      acc.1.Resolved ctx → Yields ctx (oneofMembers path full index body acc) fun r => r.1.Resolved ctx) := by
  apply elements.mutual_induct
  case case1 =>
    intro path full f b _ hb
    rw [element]
    refine Yields.bind (plainField_resolves hT _ full f .message) fun fd hfd => Yields.pure ?_
    -- a proto3 `optional` field is only noted
    split <;> exact ⟨Array.forall_mem_push.mpr ⟨hfd, hb.fields⟩, hb.nested, hb.extensions⟩
  case case2 =>
    intro path full m b hsub hb
    rw [element]
    have hentry : (qualify full (mapEntryName m.name.value), .message) ∈ ctx.file.schema.types :=
      hsub (by simp [MessageElement.types])
    refine Yields.bind (mapField_resolves hT _ _ full m hentry) fun r hr => Yields.pure ?_
    exact ⟨Array.forall_mem_push.mpr ⟨hr.1, hb.fields⟩, Array.forall_mem_push.mpr ⟨hr.2, hb.nested⟩, hb.extensions⟩
  case case3 =>
    intro path full g b ih hsub hb
    rw [element]
    rw [MessageElement.types] at hsub
    refine Yields.bind (ih hsub) fun r hr => Yields.pure ?_
    exact ⟨Array.forall_mem_push.mpr ⟨hr.1, hb.fields⟩, Array.forall_mem_push.mpr ⟨hr.2, hb.nested⟩, hb.extensions⟩
  case case4 =>
    intro path full name body decl b index ih hsub hb
    rw [element]
    rw [MessageElement.types] at hsub
    refine Yields.seq fun _ => Yields.seq fun _ => Yields.seq fun options => ?_
    refine Yields.bind (ih options hsub ⟨hb.fields, hb.nested, hb.extensions⟩) fun r hr => ?_
    obtain ⟨b', members⟩ := r
    dsimp only
    split
    · exact Yields.seq fun _ => Yields.pure hr
    · exact Yields.pure hr
  case case5 =>
    intro path full name body decl b mpath mfull ih hsub hb
    rw [element]
    rw [MessageElement.types, Message.types] at hsub
    have hbody : MessageElement.bodyTypes mfull body ⊆ ctx.file.schema.types :=
      fun x hx => hsub (List.mem_cons_of_mem _ hx)
    refine Yields.seq fun _ => Yields.bind (ih hbody .empty) fun mb hmb => ?_
    refine Yields.bind (finishMessage_resolves mpath mfull name hmb) fun m hm => Yields.pure ?_
    exact ⟨hb.fields, Array.forall_mem_push.mpr ⟨hm, hb.nested⟩, hb.extensions⟩
  case case6 =>
    intro path full e b _ hb
    rw [element]
    exact Yields.seq fun _ => Yields.pure ⟨hb.fields, hb.nested, hb.extensions⟩
  case case7 =>
    intro path full extendee body decl b ih hsub hb
    rw [element]
    rw [MessageElement.types] at hsub
    refine Yields.bind (startExtend_declares hT _ full extendee decl) fun resolved hres => ?_
    refine Yields.bind (ih resolved hres hsub hb.extensions hb.nested) fun r hr => ?_
    obtain ⟨exts, types⟩ := r
    exact Yields.pure ⟨hb.fields, hr.2, hr.1⟩
  case case8 =>
    intro path full r b _ hb
    rw [element]
    refine (extensionRanges_frame path full r b).imp ?_
    rintro _ ⟨rs, rfl⟩
    exact ⟨hb.fields, hb.nested, hb.extensions⟩
  case case9 =>
    intro path full r b _ hb
    rw [element]
    refine (reservedOf_frame path r b).imp ?_
    rintro _ ⟨rs, ns, rfl⟩
    exact ⟨hb.fields, hb.nested, hb.extensions⟩
  case case10 =>
    intro path full o b _ hb
    rw [element]
    exact Yields.pure ⟨hb.fields, hb.nested, hb.extensions⟩
  case case11 =>
    intro fieldPath typePath scope site label keywordSpan name number options body decl ih hsub
    rw [group]
    rw [Group.types] at hsub
    have hbody : MessageElement.bodyTypes (qualify scope name.value) body ⊆ ctx.file.schema.types :=
      fun x hx => hsub (List.mem_cons_of_mem _ hx)
    refine Yields.bind (fieldShell_bare _ _ _ _ _ _ _) fun fd hfd => ?_
    have hfield : ctx.ResolvesAll
        ({ fd with type := some FieldType.group.number,
                   typeName := some ("." ++ qualify scope name.value) } : FieldDescriptor).typeRefs :=
      resolvesAll_of_ownType (t := .group) (FieldDescriptor.extendee_eq_none hfd : fd.extendee = none) rfl
        (by decide) rfl (hsub (by simp))
    refine Yields.seq fun _ => Yields.seq fun _ => ?_
    refine Yields.bind (fieldOptionsOf_resolves _ _ _ _ _ hfield) fun fd' hfd' => Yields.seq fun _ => ?_
    refine Yields.bind (ih hbody .empty) fun mb hmb => ?_
    exact Yields.bind (finishMessage_resolves _ _ name hmb) fun m hm => Yields.pure ⟨hfd', hm⟩
  case case12 =>
    intro path full b _ hb
    rw [elements]
    exact Yields.pure hb
  case case13 =>
    intro path full e rest b ih₁ ih₂ hsub hb
    rw [elements]
    rw [MessageElement.bodyTypes, List.append_subset] at hsub
    exact Yields.bind (ih₁ hsub.1 hb) fun b₁ h₁ => ih₂ b₁ hsub.2 h₁
  case case14 =>
    intro path full index acc _ hb
    rw [oneofMembers]
    exact Yields.pure hb
  case case15 =>
    intro path full index f rest b n ih hsub hb
    rw [oneofMembers]
    rw [OneofElement.bodyTypes] at hsub
    exact Yields.bind (plainField_resolves hT _ full f _) fun fd hfd =>
      ih fd hsub ⟨Array.forall_mem_push.mpr ⟨hfd, hb.fields⟩, hb.nested, hb.extensions⟩
  case case16 =>
    intro path full index g rest b n ihg ih hsub hb
    rw [oneofMembers]
    rw [OneofElement.bodyTypes, List.append_subset] at hsub
    refine Yields.bind (ihg hsub.1) fun r hr => ?_
    obtain ⟨fd, nested⟩ := r
    exact ih fd nested hsub.2
      ⟨Array.forall_mem_push.mpr ⟨hr.1, hb.fields⟩, Array.forall_mem_push.mpr ⟨hr.2, hb.nested⟩, hb.extensions⟩
  case case17 =>
    intro path full index o rest acc ih hsub hb
    rw [oneofMembers]
    rw [OneofElement.bodyTypes] at hsub
    exact ih hsub hb
  case case18 =>
    intro extBase typeBase scope extendeeSpan extendee acc _ _ hf hn
    rw [extendMembers]
    exact Yields.pure ⟨hf, hn⟩
  case case19 =>
    intro extBase typeBase scope extendeeSpan extendee f rest exts types ih hx hsub hf hn
    rw [extendMembers]
    rw [ExtendElement.bodyTypes] at hsub
    refine Yields.bind (plainField_resolves hT _ scope f .extension) fun fd hfd => ?_
    exact Yields.bind (finishExtension_resolves _ extendeeSpan hx hfd f.number) fun fd' hfd' =>
      ih fd' hx hsub (Array.forall_mem_push.mpr ⟨hfd', hf⟩) hn
  case case20 =>
    intro extBase typeBase scope extendeeSpan extendee g rest exts types epath ihg ih hx hsub hf hn
    rw [extendMembers]
    rw [ExtendElement.bodyTypes, List.append_subset] at hsub
    refine Yields.bind (ihg hsub.1) fun r hr => ?_
    obtain ⟨fd, nested⟩ := r
    exact Yields.bind (finishExtension_resolves _ extendeeSpan hx hr.1 g.number) fun fd' hfd' =>
      ih nested fd' hx hsub.2 (Array.forall_mem_push.mpr ⟨hfd', hf⟩) (Array.forall_mem_push.mpr ⟨hr.2, hn⟩)

theorem message_resolves (path : List Int) (scope : String) (m : Message)
    (hm : Message.types scope m ⊆ ctx.file.schema.types) :
    Yields ctx (message path scope m) fun md => ctx.ResolvesAll md.typeRefs := by
  obtain ⟨name, body, decl⟩ := m
  rw [message]
  rw [Message.types] at hm
  have hbody : MessageElement.bodyTypes (qualify scope name.value) body ⊆ ctx.file.schema.types :=
    fun x hx => hm (List.mem_cons_of_mem _ hx)
  refine Yields.seq fun _ => Yields.bind ((body_resolves hT).1 _ _ body {} hbody .empty) fun mb hmb => ?_
  exact finishMessage_resolves path _ name hmb

theorem extendBlock_resolves (extBase typeBase : List Int) (scope : String) (x : Extend)
    (acc : Array FieldDescriptor × Array MessageDescriptor)
    (hx : ExtendElement.bodyTypes scope x.body ⊆ ctx.file.schema.types)
    (hf : ∀ fd ∈ acc.1, ctx.ResolvesAll fd.typeRefs) (hn : ∀ md ∈ acc.2, ctx.ResolvesAll md.typeRefs) :
    Yields ctx (extendBlock extBase typeBase scope x acc) fun r =>
      (∀ fd ∈ r.1, ctx.ResolvesAll fd.typeRefs) ∧ (∀ md ∈ r.2, ctx.ResolvesAll md.typeRefs) := by
  obtain ⟨extendee, body, decl⟩ := x
  rw [extendBlock]
  exact Yields.bind (startExtend_declares hT _ _ _ _) fun resolved hres =>
    (body_resolves hT).2.2.1 _ _ _ _ _ _ _ hres hx hf hn

/-! ### Services and the file -/

theorem method_resolves (path : List Int) (service : String) (m : Method) :
    Yields ctx (method path service m) fun d => ctx.ResolvesAll d.typeRefs := by
  unfold method
  dsimp only
  repeat' (first
    | refine Yields.bind (resolveMessage_declares hT m.input.name _) fun input hin => ?_
    | refine Yields.bind (resolveMessage_declares hT m.output.name _) fun output hout => ?_
    | exact Yields.seq fun _ => Yields.pure (CompileContext.resolvesAll_append.mpr
        ⟨resolvesAll_resolvedMessage hin, resolvesAll_resolvedMessage hout⟩)
    | split
    | with_reducible refine Yields.seq fun _ => ?_)

theorem service_resolves (path : List Int) (scope : String) (s : Service) :
    Yields ctx (service path scope s) fun d => ∀ md ∈ d.method, ctx.ResolvesAll md.typeRefs := by
  unfold service
  refine Yields.seq fun _ => Yields.seq fun _ => ?_
  refine Yields.bind (Yields.foldlM (fun _ acc => ∀ md ∈ acc.1, ctx.ResolvesAll md.typeRefs)
    (fun _ el acc hacc => ?_) _ [] _ (by simp)) fun r hr => ?_
  · obtain ⟨ms, ds⟩ := acc
    cases el with
    | method m =>
      exact (method_resolves hT _ _ m).bind fun d hd => Yields.pure (Array.forall_mem_push.mpr ⟨hd, hacc⟩)
    | option o => exact Yields.pure hacc
  · obtain ⟨methods, decls⟩ := r
    exact Yields.seq fun _ => Yields.pure fun md hmd => hr md (Array.mem_toList_iff.mp hmd)

theorem messages_resolves (scope : String) (ms : List Message)
    (hms : ∀ m ∈ ms, Message.types scope m ⊆ ctx.file.schema.types) :
    Yields ctx (ms.foldlM (fun (acc : Array MessageDescriptor) m => do
        return acc.push (← message [4, (acc.size : Int)] scope m)) #[]) fun acc =>
      ∀ md ∈ acc, ctx.ResolvesAll md.typeRefs := by
  refine (Yields.foldlM (fun d (acc : Array MessageDescriptor) =>
      (∀ m ∈ d, m ∈ ms) → ∀ md ∈ acc, ctx.ResolvesAll md.typeRefs)
    (fun d m acc hacc => Yields.of_imp fun hd => ?_) ms [] #[] (by simp)).imp fun _ h => h fun _ => id
  exact (message_resolves hT _ _ m (hms m (hd m (by simp)))).bind fun md hmd =>
    Yields.pure (Array.forall_mem_push.mpr ⟨hmd, hacc fun m' hm' => hd m' (by simp [hm'])⟩)

theorem services_resolves (scope : String) (ss : List Service) :
    Yields ctx (ss.foldlM (fun (acc : Array ServiceDescriptor) svc => do
        return acc.push (← service [6, (acc.size : Int)] scope svc)) #[]) fun acc =>
      ∀ sd ∈ acc, ∀ md ∈ sd.method, ctx.ResolvesAll md.typeRefs :=
  (Yields.foldlM (fun _ (acc : Array ServiceDescriptor) => ∀ sd ∈ acc, ∀ md ∈ sd.method, ctx.ResolvesAll md.typeRefs)
    (fun _ svc acc hacc => (service_resolves hT _ _ svc).bind fun sd hsd =>
      Yields.pure (Array.forall_mem_push.mpr ⟨hsd, hacc⟩)) ss [] #[] (by simp))

theorem extendBlocks_resolves (scope : String) (xs : List Extend)
    (hxs : ∀ x ∈ xs, ExtendElement.bodyTypes scope x.body ⊆ ctx.file.schema.types)
    (init : Array FieldDescriptor × Array MessageDescriptor)
    (hf : ∀ fd ∈ init.1, ctx.ResolvesAll fd.typeRefs) (hn : ∀ md ∈ init.2, ctx.ResolvesAll md.typeRefs) :
    Yields ctx (xs.foldlM (fun acc x => extendBlock [7] [4] scope x acc) init) fun r =>
      (∀ fd ∈ r.1, ctx.ResolvesAll fd.typeRefs) ∧ (∀ md ∈ r.2, ctx.ResolvesAll md.typeRefs) := by
  refine (Yields.foldlM (fun d (acc : Array FieldDescriptor × Array MessageDescriptor) =>
      (∀ x ∈ d, x ∈ xs) → (∀ fd ∈ acc.1, ctx.ResolvesAll fd.typeRefs) ∧ (∀ md ∈ acc.2, ctx.ResolvesAll md.typeRefs))
    (fun d x acc hacc => Yields.of_imp fun hd => ?_) xs [] init fun _ => ⟨hf, hn⟩).imp fun _ h => h fun _ => id
  obtain ⟨hf', hn'⟩ := hacc fun y hy => hd y (by simp [hy])
  exact extendBlock_resolves hT _ _ _ x acc (hxs x (hd x (by simp))) hf' hn'

theorem file_resolves : Yields ctx file fun d => ctx.ResolvesAll d.typeRefs := by
  unfold file
  apply Yields.read
  dsimp only
  refine Yields.seq fun _ => ?_
  -- the version and package declarations only add locations: the rest is met four times
  split <;> (try refine Yields.seq (m := locateDecl _ _) fun _ => ?_) <;> split <;>
    (try refine Yields.seq (m := locateDecl _ _) fun _ => ?_)
  all_goals
    refine Yields.seq fun _ => Yields.seq fun _ => ?_
    refine Yields.bind (messages_resolves hT _ _ fun _ => SchemaFile.message_types_subset) fun messages hm => ?_
    refine Yields.seq fun _ => Yields.bind (services_resolves hT _ _) fun services hs => ?_
    refine Yields.bind (extendBlocks_resolves hT _ _ (fun _ => SchemaFile.extend_types_subset) _ (by simp) hm)
      fun r hr => Yields.seq fun _ => Yields.pure ?_
    simp only [FileDescriptor.typeRefs, CompileContext.resolvesAll_append, CompileContext.resolvesAll_flatMap,
      List.forall_mem_map, Array.mem_toList_iff]
    exact ⟨⟨hr.2, hr.1⟩, hs⟩

end Table

end CompileM

/-- Every type name the compiled descriptor writes, for a field, an extendee, or a method's input
or output, is a dot and the full name of a type of the kind asked for, declared by the compiled
file or a file visible from it, whatever the compiler reports on the way. -/
theorem compileFile_resolves {ctx : CompileContext} (hT : Collected.TypesDeclared ctx.files { table := ctx.table }) :
    ctx.ResolvesAll (compileFile ctx).1.typeRefs :=
  CompileM.file_resolves hT {}

end ProtoSchema
