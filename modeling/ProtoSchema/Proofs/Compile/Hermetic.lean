import ProtoSchema.Proofs.Compile.Agree

/-!
Linking a file reads the rest of its build only through what the file can see. Compiled in
two builds whose contexts are alike for it (`LinksAlike`), a file gets the same descriptor
and alike annotations (`compileFile_hermetic`): the same reports at the same places, in the
same order, whose messages differ only where one of them names the file outside the
compiled file's imports that declares a name it could not resolve.

Each compiling function agrees with itself across the two contexts; the functions that pass
on a resolved name give alike values, and those that take one agree on alike arguments.
-/

namespace ProtoSchema

namespace CompileM

def FoundAlike (files₁ files₂ : Array ParsedFile) (p₁ p₂ : String × Symbol) : Prop :=
  p₁.1 = p₂.1 ∧ Symbol.Alike files₁ files₂ p₁.2 p₂.2

/-- A field type resolved in two builds: the same type and type name, of alike symbols that
are no packages, with the same information. -/
structure ResolvedAlike (files₁ files₂ : Array ParsedFile) (r₁ r₂ : ResolvedType) : Prop where
  type : r₁.type = r₂.type
  typeName : r₁.typeName = r₂.typeName
  symbol : Option.Rel (fun s₁ s₂ => Symbol.Alike files₁ files₂ s₁ s₂ ∧ s₁.kind ≠ .package) r₁.symbol r₂.symbol
  info : r₁.symbol.map (·.info) = r₂.symbol.map (·.info)

theorem FoundAlike.map_eq {β : Type} {files₁ files₂ : Array ParsedFile} {o₁ o₂ : Option (String × Symbol)}
    {f : String × Symbol → β} (hf : ∀ p q : String × Symbol, p.1 = q.1 → f p = f q)
    (ho : Option.Rel (FoundAlike files₁ files₂) o₁ o₂) : o₁.map f = o₂.map f := by
  cases ho with
  | none => rfl
  | some hp => exact congrArg some (hf _ _ hp.1)

theorem ResolvedAlike.map_type {files₁ files₂ : Array ParsedFile} {v₁ v₂ : Option ResolvedType}
    (hv : Option.Rel (ResolvedAlike files₁ files₂) v₁ v₂) : v₁.map (·.type) = v₂.map (·.type) := by
  cases hv with
  | none => rfl
  | some h => simp [h.type]

theorem ResolvedAlike.bind_typeName {files₁ files₂ : Array ParsedFile} {v₁ v₂ : Option ResolvedType}
    (hv : Option.Rel (ResolvedAlike files₁ files₂) v₁ v₂) : v₁.bind (·.typeName) = v₂.bind (·.typeName) := by
  cases hv with
  | none => rfl
  | some h => simp [h.typeName]

section Links

variable {c d : CompileContext} (h : LinksAlike c d)
include h

/-! ### Locating and resolving -/

theorem locate_agree (path : List Int) (span : Span) (comments : Option Comments) :
    Agree c d Eq (locate path span comments) (locate path span comments) := by
  unfold locate
  refine Agree.read ?_
  rw [h.sourceInfo]
  split
  · exact Agree.modify fun s₁ s₂ hs => ⟨by simp only [hs.locations], hs.annotations⟩
  · exact Agree.pure rfl

theorem locateDecl_agree (path : List Int) (decl : Declaration) :
    Agree c d Eq (locateDecl path decl) (locateDecl path decl) :=
  locate_agree h _ _ _

theorem resolve_agree (name : Spanned String) (relativeTo : String) (typesOnly : Bool) :
    Agree c d (Option.Rel (FoundAlike c.files d.files)) (resolve name relativeTo typesOnly)
      (resolve name relativeTo typesOnly) := by
  unfold resolve
  refine Agree.read ?_
  dsimp only
  rcases SymbolTable.lookup_alike h.seen name.value relativeTo typesOnly with
    ⟨full, s₁, s₂, h₁, h₂, hs⟩ | ⟨hint, hidden₁, hidden₂, h₁, h₂⟩
  · rw [h₁, h₂]
    exact Agree.pure (.some ⟨rfl, hs⟩)
  · rw [h₁, h₂]
    -- a miss reported as not imported names a hidden file; otherwise both say the same
    rcases hidden₁ with _ | ⟨n₁, f₁⟩
    · rcases hidden₂ with _ | ⟨n₂, f₂⟩
      · rcases hint with _ | hint <;> dsimp only [SymbolTable.missing] <;>
          exact Agree.seq (report_agree_same _ _) fun _ => Agree.pure Option.Rel.none
      · rcases hint with _ | hint <;> dsimp only [SymbolTable.missing] <;>
          exact (report_agree _ (.inr (.inr ⟨n₂, _, _, rfl⟩))).seq fun _ => Agree.pure Option.Rel.none
    · rcases hidden₂ with _ | ⟨n₂, f₂⟩ <;> rcases hint with _ | hint <;> dsimp only [SymbolTable.missing] <;>
        exact (report_agree _ (.inr (.inl ⟨n₁, _, _, rfl⟩))).seq fun _ => Agree.pure Option.Rel.none

theorem resolveMessage_agree (name : Spanned String) (relativeTo : String) :
    Agree c d (Option.Rel (FoundAlike c.files d.files)) (resolveMessage name relativeTo)
      (resolveMessage name relativeTo) := by
  unfold resolveMessage
  refine (resolve_agree h name relativeTo true).bind fun r₁ r₂ hr => ?_
  cases hr with
  | none => exact Agree.pure .none
  | @some p₁ p₂ hp =>
    obtain ⟨full₁, s₁⟩ := p₁
    obtain ⟨full₂, s₂⟩ := p₂
    obtain ⟨rfl, hs⟩ := hp
    dsimp only
    rw [hs.kind]
    split
    · exact Agree.pure (.some ⟨rfl, hs⟩)
    · exact Agree.seq (report_agree_same _ _) fun _ => Agree.pure Option.Rel.none

theorem fieldType_agree (ty : Spanned String) (relativeTo : String) :
    Agree c d (Option.Rel (ResolvedAlike c.files d.files)) (fieldType ty relativeTo)
      (fieldType ty relativeTo) := by
  unfold fieldType
  split
  · refine Agree.pure ?_
    cases FieldType.ofScalar? ty.value with
    | none => exact .none
    | some t => exact .some ⟨rfl, rfl, .none, rfl⟩
  · refine (resolve_agree h ty relativeTo true).bind fun r₁ r₂ hr => ?_
    cases hr with
    | none => exact Agree.pure .none
    | @some p₁ p₂ hp =>
      obtain ⟨full₁, s₁⟩ := p₁
      obtain ⟨full₂, s₂⟩ := p₂
      obtain ⟨rfl, hs⟩ := hp
      dsimp only at hs ⊢
      -- a message or an enum is no package, so both symbols carry the same information
      rw [← hs.kind]
      split
      next hk => exact Agree.pure (.some ⟨rfl, rfl, .some ⟨hs, by simp [hk]⟩, by simp [hs.info_eq (by simp [hk])]⟩)
      next hk => exact Agree.pure (.some ⟨rfl, rfl, .some ⟨hs, by simp [hk]⟩, by simp [hs.info_eq (by simp [hk])]⟩)
      next => exact Agree.seq (report_agree_same _ _) fun _ => Agree.pure Option.Rel.none

/-! ### Options -/

theorem resolveCustomOption_agree (optionsName scope : String) (decl : OptionDecl) (first : OptionNamePart) :
    Agree c d Eq (resolveCustomOption optionsName scope decl first)
      (resolveCustomOption optionsName scope decl first) := by
  unfold resolveCustomOption
  refine Agree.read ?_
  dsimp only
  rcases SymbolTable.lookup_alike h.seen first.name (qualify scope "option") false with
    ⟨full, s₁, s₂, h₁, h₂, hs⟩ | ⟨hint, hidden₁, hidden₂, h₁, h₂⟩
  · rw [h₁, h₂]
    dsimp only
    rcases hs.info with hinfo | ⟨-, fs₁, fs₂, hp₁, hp₂⟩
    · rw [← hinfo]
      cases hi : s₁.info with
      | extension extendee extensionScope number =>
        -- the extended message is found under the same name in both builds, or in neither
        have hsame := h.extendees full s₁ extendee extensionScope number
          (SymbolTable.visibleEntry_of_lookup_found h₁) hi
        dsimp only
        cases he₁ : c.table.lookup extendee extensionScope true none with
        | found x₁ t₁ =>
          obtain ⟨t₂, he₂⟩ := (hsame x₁).mp ⟨t₁, he₁⟩
          rw [he₂]
          dsimp only
          split
          · exact Agree.seq (report_agree_same _ _) fun _ => Agree.pure rfl
          · exact Agree.pure rfl
        | notImported _ _ | notFound _ =>
          cases he₂ : d.table.lookup extendee extensionScope true none with
          | found x₂ t₂ => exact absurd ((hsame x₂).mpr ⟨t₂, he₂⟩) (by simp [he₁])
          | notImported _ _ | notFound _ => exact Agree.pure rfl
      | _ =>
        dsimp only
        rw [hs.kind]
        exact Agree.seq (report_agree_same _ _) fun _ => Agree.pure rfl
    · -- two packages: neither is an extension
      rw [hp₁, hp₂]
      dsimp only
      rw [hs.kind]
      exact Agree.seq (report_agree_same _ _) fun _ => Agree.pure rfl
  · rw [h₁, h₂]
    rcases hidden₁ with _ | ⟨n₁, f₁⟩
    · rcases hidden₂ with _ | ⟨n₂, f₂⟩ <;> dsimp only [SymbolTable.missing]
      · exact Agree.seq (report_agree_same _ _) fun _ => Agree.pure rfl
      · exact (report_agree _ (.inr (.inr ⟨n₂, _, _, rfl⟩))).seq fun _ => Agree.pure rfl
    · rcases hidden₂ with _ | ⟨n₂, f₂⟩ <;> dsimp only [SymbolTable.missing] <;>
        exact (report_agree _ (.inr (.inl ⟨n₁, _, _, rfl⟩))).seq fun _ => Agree.pure rfl

theorem interpretOne_agree {α : Type} (schema : OptionsSchema α) (path : List Int) (scope : String)
    (o : α) (seen : List String) (decl : OptionDecl) :
    Agree c d Eq (interpretOne schema path scope o seen decl) (interpretOne schema path scope o seen decl) := by
  unfold interpretOne
  repeat' (first
    | with_reducible exact Agree.pure rfl
    | with_reducible exact report_agree_same _ _
    | with_reducible exact locateDecl_agree h _ _
    | with_reducible exact resolveCustomOption_agree h _ _ _ _
    | with_reducible refine Agree.seq ?_ fun _ => ?_
    | split
    | dsimp only)

theorem interpretOptions_agree {α : Type} [Inhabited α] (schema : OptionsSchema α) (path : List Int)
    (scope : String) (decls : List OptionDecl) :
    Agree c d Eq (interpretOptions schema path scope decls) (interpretOptions schema path scope decls) := by
  unfold interpretOptions
  split
  · exact Agree.pure rfl
  · refine (Agree.foldlM (fun acc decl => ?_) _ _).seq fun r => ?_
    · obtain ⟨o, seen⟩ := acc
      exact interpretOne_agree h _ _ _ _ _ _
    · obtain ⟨o, seen⟩ := r
      exact Agree.pure rfl

/-! ### Enums -/

theorem rangeLocations_agree (path : List Int) (r : NumberRange) :
    Agree c d Eq (rangeLocations path r) (rangeLocations path r) := by
  unfold rangeLocations
  exact (locate_agree h _ _ _).seq fun _ => (locate_agree h _ _ _).seq fun _ => locate_agree h _ _ _

theorem enumElement_agree (path : List Int) (scope : String) (b : EnumBuild) (e : EnumElement) :
    Agree c d Eq (enumElement path scope b e) (enumElement path scope b e) := by
  unfold enumElement
  repeat' (first
    | with_reducible exact Agree.pure rfl
    | with_reducible exact report_agree_same _ _
    | with_reducible exact locate_agree h _ _ _
    | with_reducible exact locateDecl_agree h _ _
    | with_reducible exact rangeLocations_agree h _ _
    | with_reducible exact interpretOptions_agree h _ _ _ _
    | with_reducible refine Agree.foldlM (fun _ _ => ?_) _ _
    | with_reducible refine Agree.seq ?_ fun _ => ?_
    | split
    | dsimp only)

theorem validateEnum_agree (full : String) (name : Spanned String) (e : EnumDescriptor) (spans : List Span) :
    Agree c d Eq (validateEnum full name e spans) (validateEnum full name e spans) := by
  unfold validateEnum
  repeat' (first
    | with_reducible exact Agree.pure rfl
    | with_reducible exact report_agree_same _ _
    | ((with_reducible refine Agree.read ?_); rw [h.proto3])
    | with_reducible refine Agree.foldlM (fun _ _ => ?_) _ _
    | with_reducible refine Agree.seq ?_ fun _ => ?_
    | split
    | dsimp only)

theorem enumeration_agree (path : List Int) (scope : String) (e : Enum) :
    Agree c d Eq (enumeration path scope e) (enumeration path scope e) := by
  unfold enumeration
  repeat' (first
    | with_reducible exact Agree.pure rfl
    | with_reducible exact locate_agree h _ _ _
    | with_reducible exact locateDecl_agree h _ _
    | with_reducible exact interpretOptions_agree h _ _ _ _
    | with_reducible exact validateEnum_agree h _ _ _ _
    | with_reducible exact Agree.foldlM (enumElement_agree h _ _) _ _
    | with_reducible refine Agree.seq ?_ fun _ => ?_)

/-! ### Fields -/

omit h in
theorem fieldNumber_agree (number : Spanned Int) (site : FieldSite) :
    Agree c d Eq (fieldNumber number site) (fieldNumber number site) := by
  unfold fieldNumber
  repeat' (first
    | with_reducible exact Agree.pure rfl
    | with_reducible exact report_agree_same _ _
    | with_reducible refine Agree.seq ?_ fun _ => ?_
    | split
    | dsimp only)

theorem fieldShell_agree (path : List Int) (label : Option (Spanned LabelKind)) (name : String)
    (nameSpan : Span) (number : Spanned Int) (decl : Declaration) (site : FieldSite) :
    Agree c d Eq (fieldShell path label name nameSpan number decl site)
      (fieldShell path label name nameSpan number decl site) := by
  unfold fieldShell
  repeat' (first
    | with_reducible exact Agree.pure rfl
    | with_reducible exact locate_agree h _ _ _
    | with_reducible exact locateDecl_agree h _ _
    | with_reducible exact fieldNumber_agree _ _
    | ((with_reducible refine Agree.read ?_); rw [h.proto3])
    | with_reducible refine Agree.seq ?_ fun _ => ?_
    | split)

theorem jsonNameOption_agree (path : List Int) (fd : FieldDescriptor) (decl : OptionDecl) :
    Agree c d Eq (jsonNameOption path fd decl) (jsonNameOption path fd decl) := by
  unfold jsonNameOption
  repeat' (first
    | with_reducible exact Agree.pure rfl
    | with_reducible exact report_agree_same _ _
    | with_reducible exact locate_agree h _ _ _
    | with_reducible refine Agree.seq ?_ fun _ => ?_
    | split)

theorem defaultOption_agree (path : List Int) (fd : FieldDescriptor) {r₁ r₂ : Option ResolvedType}
    (hr : Option.Rel (ResolvedAlike c.files d.files) r₁ r₂) (decl : OptionDecl) :
    Agree c d Eq (defaultOption path fd r₁ decl) (defaultOption path fd r₂ decl) := by
  unfold defaultOption
  refine (locate_agree h _ _ _).seq fun _ => ?_
  split
  · exact (report_agree_same _ _).seq fun _ => Agree.pure rfl
  · cases hr with
    | none => exact Agree.pure rfl
    | @some ft₁ ft₂ hft =>
      dsimp only
      rw [hft.type, hft.info]
      repeat' (first
        | with_reducible exact Agree.pure rfl
        | with_reducible exact report_agree_same _ _
        | with_reducible refine Agree.seq ?_ fun _ => ?_
        | split)

theorem pseudoOptions_agree (path : List Int) {r₁ r₂ : Option ResolvedType}
    (hr : Option.Rel (ResolvedAlike c.files d.files) r₁ r₂) (site : FieldSite) :
    ∀ (decls : List OptionDecl) (acc : FieldDescriptor × Bool × Bool),
      Agree c d Eq (pseudoOptions path r₁ site decls acc) (pseudoOptions path r₂ site decls acc)
  | [], _ => Agree.pure rfl
  | decl :: rest, (fd, defaultSeen, jsonSeen) => by
    have ih := pseudoOptions_agree path hr site rest
    unfold pseudoOptions
    repeat' (first
      | with_reducible exact ih _
      | with_reducible exact report_agree_same _ _
      | with_reducible exact defaultOption_agree h _ _ hr _
      | with_reducible exact jsonNameOption_agree h _ _ _
      | with_reducible refine Agree.seq ?_ fun _ => ?_
      | split)

theorem fieldOptionsOf_agree (path : List Int) (fd : FieldDescriptor) (fieldFull : String)
    (decls : List OptionDecl) {r₁ r₂ : Option ResolvedType}
    (hr : Option.Rel (ResolvedAlike c.files d.files) r₁ r₂) (site : FieldSite) :
    Agree c d Eq (fieldOptionsOf path fd fieldFull decls r₁ site) (fieldOptionsOf path fd fieldFull decls r₂ site) := by
  unfold fieldOptionsOf
  refine (pseudoOptions_agree h path hr site _ _).seq fun acc => ?_
  obtain ⟨fd', -, -⟩ := acc
  refine (interpretOptions_agree h _ _ _ _).seq fun options => ?_
  cases hr <;> try simp only [Option.any_some, ‹ResolvedAlike _ _ _ _›.type]
  all_goals repeat' (first
    | with_reducible exact Agree.pure rfl
    | with_reducible exact report_agree_same _ _
    | with_reducible refine Agree.seq ?_ fun _ => ?_
    | split
    | dsimp only)

theorem plainField_agree (path : List Int) (scope : String) (field : Field) (site : FieldSite) :
    Agree c d Eq (plainField path scope field site) (plainField path scope field site) := by
  unfold plainField
  refine (fieldShell_agree h _ _ _ _ _ _ _).seq fun fd => ?_
  dsimp only
  refine (locate_agree h _ _ _).seq fun _ => ?_
  refine (fieldType_agree h _ _).bind fun r₁ r₂ hr => ?_
  -- the options are read last, on the same descriptor in both builds
  have hopt := fun fd' => fieldOptionsOf_agree h path fd' (qualify scope field.name.value) field.options hr site
  cases hr with
  | none => exact (Agree.pure rfl).seq hopt
  | @some ft₁ ft₂ hft =>
    dsimp only
    refine Agree.read ?_
    rw [h.proto3, hft.type, hft.typeName]
    split
    · have hs := hft.symbol
      generalize ft₁.symbol = o₁ at hs ⊢
      generalize ft₂.symbol = o₂ at hs ⊢
      cases hs with
      | none => exact (Agree.pure rfl).seq hopt
      | @some s₁ s₂ hs =>
        dsimp only
        refine Agree.read ?_
        rw [hs.1.dialect hs.2]
        split
        · exact (report_agree_same _ _).seq fun _ => (Agree.pure rfl).seq hopt
        · exact (Agree.pure rfl).seq hopt
    · exact (Agree.pure rfl).seq hopt

theorem mapField_agree (fieldPath entryPath : List Int) (scope : String) (m : MapField) :
    Agree c d Eq (mapField fieldPath entryPath scope m) (mapField fieldPath entryPath scope m) := by
  unfold mapField
  refine (fieldShell_agree h _ _ _ _ _ _ _).seq fun fd => ?_
  dsimp only
  refine (locate_agree h _ _ _).seq fun _ => ?_
  refine (fieldType_agree h _ _).bind fun r₁ r₂ hr => ?_
  cases hr <;> dsimp only <;> try (rename_i ft₁ ft₂ hft; rw [hft.type])
  all_goals repeat' (first
    | with_reducible exact Agree.pure rfl
    | with_reducible exact report_agree_same _ _
    | with_reducible exact locate_agree h _ _ _
    | with_reducible exact fieldOptionsOf_agree h _ _ _ _ .none _
    | (with_reducible refine (fieldType_agree h _ _).bind fun v₁ v₂ hv => ?_
       rw [ResolvedAlike.map_type hv, ResolvedAlike.bind_typeName hv])
    | with_reducible refine Agree.seq ?_ fun _ => ?_
    | split)

omit h in
theorem checkRange_agree (r : NumberRange) (start stop limit : Int) (what : String) :
    Agree c d Eq (checkRange r start stop limit what) (checkRange r start stop limit what) := by
  unfold checkRange
  repeat' (first
    | with_reducible exact Agree.pure rfl
    | with_reducible exact report_agree_same _ _
    | split)

/-! ### Messages -/

theorem validateMessage_agree (full : String) (fields : List FieldDescriptor) (reserved : List ReservedRange)
    (reservedNames : List String) (ranges : List ExtensionRange) (numbered : List (Int × String × Span)) :
    Agree c d Eq (validateMessage full fields reserved reservedNames ranges numbered)
      (validateMessage full fields reserved reservedNames ranges numbered) := by
  unfold validateMessage
  repeat' (first
    | with_reducible exact Agree.pure rfl
    | with_reducible exact report_agree_same _ _
    | ((with_reducible refine Agree.read ?_); rw [h.proto3])
    | with_reducible refine Agree.foldlM (fun _ _ => ?_) _ _
    | with_reducible refine Agree.forIn (fun _ _ => ?_) _ _
    | with_reducible refine Agree.seq ?_ fun _ => ?_
    | split
    | dsimp only)

theorem startMessage_agree (path : List Int) (decl : Declaration) (name : Spanned String) :
    Agree c d Eq (startMessage path decl name) (startMessage path decl name) :=
  (locateDecl_agree h _ _).seq fun _ => locate_agree h _ _ _

theorem finishMessage_agree (path : List Int) (full : String) (name : Spanned String) (b : MessageBuild) :
    Agree c d Eq (finishMessage path full name b) (finishMessage path full name b) := by
  unfold finishMessage
  refine (interpretOptions_agree h _ _ _ _).seq fun _ => ?_
  split
  exact (validateMessage_agree h _ _ _ _ _ _).seq fun _ => Agree.pure rfl

theorem startExtend_agree (path : List Int) (scope : String) (extendee : Spanned String) (decl : Declaration) :
    Agree c d (Option.Rel (FoundAlike c.files d.files)) (startExtend path scope extendee decl)
      (startExtend path scope extendee decl) := by
  unfold startExtend
  refine (locateDecl_agree h _ _).seq fun _ => ?_
  refine (resolveMessage_agree h _ _).bind fun r₁ r₂ hr => ?_
  cases hr with
  | none => exact Agree.pure .none
  | @some p₁ p₂ hp =>
    obtain ⟨full₁, s₁⟩ := p₁
    obtain ⟨full₂, s₂⟩ := p₂
    obtain ⟨rfl, hs⟩ := hp
    dsimp only
    refine Agree.read ?_
    rw [h.proto3]
    split
    · exact (report_agree_same _ _).seq fun _ => Agree.pure (.some ⟨rfl, hs⟩)
    · exact Agree.pure (.some ⟨rfl, hs⟩)

theorem finishExtension_agree (path : List Int) (extendeeSpan : Span) {e₁ e₂ : Option (String × Symbol)}
    (he : Option.Rel (FoundAlike c.files d.files) e₁ e₂) (fd : FieldDescriptor) (number : Spanned Int) :
    Agree c d Eq (finishExtension path extendeeSpan e₁ fd number) (finishExtension path extendeeSpan e₂ fd number) := by
  unfold finishExtension
  refine (locate_agree h _ _ _).seq fun _ => ?_
  cases he with
  | none => exact Agree.pure rfl
  | @some p₁ p₂ hp =>
    obtain ⟨full₁, s₁⟩ := p₁
    obtain ⟨full₂, s₂⟩ := p₂
    obtain ⟨rfl, hs⟩ := hp
    dsimp only at hs ⊢
    -- the same ranges, or two packages, which have none
    rcases hs.info with hinfo | ⟨-, fs₁, fs₂, hp₁, hp₂⟩
    · rw [hinfo]
      repeat' (first
        | with_reducible exact Agree.pure rfl
        | with_reducible exact report_agree_same _ _
        | with_reducible refine Agree.seq ?_ fun _ => ?_
        | split)
    · rw [hp₁, hp₂]
      exact Agree.pure rfl

theorem extensionRanges_agree (path : List Int) (full : String) (r : ExtensionRanges) (b : MessageBuild) :
    Agree c d Eq (extensionRanges path full r b) (extensionRanges path full r b) := by
  unfold extensionRanges
  repeat' (first
    | with_reducible exact Agree.pure rfl
    | with_reducible exact locateDecl_agree h _ _
    | with_reducible exact rangeLocations_agree h _ _
    | with_reducible exact checkRange_agree _ _ _ _ _
    | with_reducible exact interpretOptions_agree h _ _ _ _
    | with_reducible refine Agree.foldlM (fun _ _ => ?_) _ _
    | with_reducible refine Agree.seq ?_ fun _ => ?_
    | split)

theorem reservedOf_agree (path : List Int) (r : Reserved) (b : MessageBuild) :
    Agree c d Eq (reservedOf path r b) (reservedOf path r b) := by
  unfold reservedOf
  repeat' (first
    | with_reducible exact Agree.pure rfl
    | with_reducible exact locate_agree h _ _ _
    | with_reducible exact locateDecl_agree h _ _
    | with_reducible exact rangeLocations_agree h _ _
    | with_reducible exact checkRange_agree _ _ _ _ _
    | with_reducible refine Agree.foldlM (fun _ _ => ?_) _ _
    | with_reducible refine Agree.seq ?_ fun _ => ?_
    | split)

theorem body_agree :
    (∀ path full es b, Agree c d Eq (elements path full es b) (elements path full es b)) ∧
    (∀ path full e b, Agree c d Eq (element path full e b) (element path full e b)) ∧
    (∀ extBase typeBase scope extendeeSpan e₁ es acc, ∀ e₂, Option.Rel (FoundAlike c.files d.files) e₁ e₂ →
      Agree c d Eq (extendMembers extBase typeBase scope extendeeSpan e₁ es acc)
        (extendMembers extBase typeBase scope extendeeSpan e₂ es acc)) ∧
    (∀ fieldPath typePath scope site g,
      Agree c d Eq (group fieldPath typePath scope site g) (group fieldPath typePath scope site g)) ∧
    (∀ path full index es acc,
      Agree c d Eq (oneofMembers path full index es acc) (oneofMembers path full index es acc)) := by
  apply elements.mutual_induct
  -- each case unfolds one equation of the block; the induction hypotheses are the agreements
  -- of its recursive calls
  all_goals
    intros
    first | unfold element | unfold group | unfold elements | unfold oneofMembers | unfold extendMembers
  all_goals repeat' (first
    | with_reducible exact Agree.pure rfl
    | with_reducible exact report_agree_same _ _
    | with_reducible refine (startExtend_agree h _ _ _ _).bind fun r₁ r₂ hr => ?_
    | with_reducible refine Agree.seq ?_ fun _ => ?_
    | split
    | with_reducible exact locate_agree h _ _ _
    | with_reducible exact locateDecl_agree h _ _
    | with_reducible exact plainField_agree h _ _ _ _
    | with_reducible exact mapField_agree h _ _ _ _
    | with_reducible exact enumeration_agree h _ _ _
    | with_reducible exact extensionRanges_agree h _ _ _ _
    | with_reducible exact reservedOf_agree h _ _ _
    | with_reducible exact startMessage_agree h _ _ _
    | with_reducible exact finishMessage_agree h _ _ _ _
    | with_reducible exact fieldShell_agree h _ _ _ _ _ _ _
    | with_reducible exact fieldOptionsOf_agree h _ _ _ _ (.some ⟨rfl, rfl, .none, rfl⟩) _
    | with_reducible exact finishExtension_agree h _ _ ‹_› _ _
    | with_reducible apply_assumption
    | with_reducible exact interpretOptions_agree h _ _ _ _)

theorem message_agree (path : List Int) (scope : String) (m : Message) :
    Agree c d Eq (message path scope m) (message path scope m) := by
  obtain ⟨name, body, decl⟩ := m
  unfold message
  exact (startMessage_agree h _ _ _).seq fun _ =>
    ((body_agree h).1 _ _ _ _).seq fun _ => finishMessage_agree h _ _ _ _

theorem extendBlock_agree (extBase typeBase : List Int) (scope : String) (x : Extend)
    (acc : Array FieldDescriptor × Array MessageDescriptor) :
    Agree c d Eq (extendBlock extBase typeBase scope x acc) (extendBlock extBase typeBase scope x acc) := by
  obtain ⟨extendee, body, decl⟩ := x
  unfold extendBlock
  exact (startExtend_agree h _ _ _ _).bind fun _ _ hr => (body_agree h).2.2.1 _ _ _ _ _ _ _ _ hr

/-! ### Files -/

theorem method_agree (path : List Int) (service : String) (m : Method) :
    Agree c d Eq (method path service m) (method path service m) := by
  unfold method
  refine (locateDecl_agree h _ _).seq fun _ => (locate_agree h _ _ _).seq fun _ => ?_
  repeat' (first
    | with_reducible exact locate_agree h _ _ _
    | with_reducible refine Agree.seq (locate_agree h _ _ _) fun _ => ?_
    | split
    | dsimp only)
  all_goals
    refine (resolveMessage_agree h _ _).bind fun i₁ i₂ hi => ?_
    refine (resolveMessage_agree h _ _).bind fun o₁ o₂ ho => ?_
    refine (interpretOptions_agree h _ _ _ _).seq fun _ => Agree.pure ?_
    rw [FoundAlike.map_eq ?_ hi, FoundAlike.map_eq ?_ ho]
    all_goals
      rintro ⟨n, s⟩ ⟨n', s'⟩ (rfl : n = n')
      rfl

theorem service_agree (path : List Int) (scope : String) (s : Service) :
    Agree c d Eq (service path scope s) (service path scope s) := by
  unfold service
  refine (locateDecl_agree h _ _).seq fun _ => (locate_agree h _ _ _).seq fun _ => ?_
  refine (Agree.foldlM (fun acc el => ?_) _ _).seq fun r => ?_
  · obtain ⟨ms, ds⟩ := acc
    cases el with
    | method m => exact (method_agree h _ _ _).seq fun _ => Agree.pure rfl
    | option o => exact Agree.pure rfl
  · obtain ⟨methods, decls⟩ := r
    exact (interpretOptions_agree h _ _ _ _).seq fun _ => Agree.pure rfl

theorem imports_agree (is : List Import) : Agree c d Eq (imports is) (imports is) := by
  unfold imports
  refine (Agree.foldlM (fun acc ik => ?_) _ _).seq fun r => ?_
  · obtain ⟨deps, pub, weak⟩ := acc
    obtain ⟨i, k⟩ := ik
    dsimp only
    refine (locateDecl_agree h _ _).seq fun _ => ?_
    split
    all_goals first
      | exact (locate_agree h _ _ _).seq fun _ => Agree.pure rfl
      | exact Agree.pure rfl
  · obtain ⟨deps, pub, weak⟩ := r
    exact Agree.pure rfl

theorem file_agree : Agree c d Eq file file := by
  unfold file
  refine Agree.read ?_
  rw [h.schema, h.name, h.sourceInfo, h.proto3]
  -- the binds and branches first: the lemmas of the parts are tried only on what is left;
  -- the locations are read from alike states, so that bind is not one of equal values
  repeat' (first
    | with_reducible exact Agree.get fun s₁ s₂ hs => by rw [hs.locations]; exact Agree.pure rfl
    | with_reducible exact Agree.pure rfl
    | with_reducible refine Agree.seq ?_ fun _ => ?_
    | split
    | with_reducible exact locate_agree h _ _ _
    | with_reducible exact locateDecl_agree h _ _
    | with_reducible exact imports_agree h _
    | with_reducible exact Agree.foldlM (fun _ _ => extendBlock_agree h _ _ _ _ _) _ _
    | with_reducible refine Agree.foldlM (fun _ _ => ?_) _ _
    | with_reducible exact message_agree h _ _ _
    | with_reducible exact enumeration_agree h _ _ _
    | with_reducible exact service_agree h _ _ _
    | with_reducible exact interpretOptions_agree h _ _ _ _)

end Links

end CompileM

/-- Linking a file in two builds whose contexts are alike for it gives the same descriptor
and alike annotations: the same reports, at the same places and in the same order, whose
messages differ only where one says a name is declared in a file that is not imported. -/
theorem compileFile_hermetic {c d : CompileContext} (h : LinksAlike c d) :
    (compileFile c).1 = (compileFile d).1 ∧
      List.Forall₂ Annotation.Alike (compileFile c).2 (compileFile d).2 := by
  obtain ⟨hv, hs⟩ := CompileM.file_agree h {} {} ⟨rfl, .nil⟩
  exact ⟨hv, hs.annotations⟩

end ProtoSchema
