import ProtoSchema.Proofs.Descriptor.References
import ProtoSchema.Proofs.SymbolTable.Declared
import ProtoSchema.Proofs.Compile.Enums
import ProtoSchema.Proofs.Compile.Oneofs

/-!
The types a compiled file declares. Compiling a message builds a descriptor for it and for every
message and enum declared inside it: its nested messages, the entry messages of its map fields and
the messages of its groups, also of the groups in its oneofs and extend blocks, at any depth. So,
whatever the compiler reports on the way, the descriptor of a file declares every type its schema
declares, under the same full name and kind (`compileFile_types`): every type the symbol table
records for the file.

A finished message is read off what its body built (`finishMessage_shape`): its name, nested
messages, enums and extensions as built, and its fields as built but for the oneofs given to
proto3 `optional` fields.
-/

namespace ProtoSchema

namespace CompileM

def MessageBuild.types (full : String) (b : MessageBuild) : List (String × SymbolKind) :=
  b.nested.toList.flatMap (MessageDescriptor.types full) ++
    b.enums.toList.map fun e => (qualify full (e.name.getD ""), .enum)

namespace MessageBuild

variable {full : String} {b b' : MessageBuild}

theorem types_congr (hn : b'.nested = b.nested) (he : b'.enums = b.enums) : b'.types full = b.types full := by
  rw [types, types, hn, he]

theorem types_subset_of_eq (hn : b'.nested = b.nested) (he : b'.enums = b.enums) : b.types full ⊆ b'.types full := by
  rw [types_congr hn he]
  exact List.Subset.refl _

theorem subset_types_of_nested {X : List (String × SymbolKind)}
    (hn : b.nested.toList.flatMap (MessageDescriptor.types full) ++ X ⊆
      b'.nested.toList.flatMap (MessageDescriptor.types full))
    (he : b'.enums = b.enums) : b.types full ++ X ⊆ b'.types full := by
  intro x hx
  simp only [types, List.mem_append, he] at hx ⊢
  rcases hx with (hx | hx) | hx
  · exact .inl (hn (List.mem_append_left _ hx))
  · exact .inr hx
  · exact .inl (hn (List.mem_append_right _ hx))

theorem subset_types_push_nested {m : MessageDescriptor} {X : List (String × SymbolKind)} (hX : X ⊆ m.types full)
    (hn : b'.nested = b.nested.push m) (he : b'.enums = b.enums) : b.types full ++ X ⊆ b'.types full := by
  refine subset_types_of_nested (fun x hx => ?_) he
  rw [hn, Array.toList_push, List.flatMap_append, List.flatMap_singleton]
  rcases List.mem_append.mp hx with hx | hx
  · exact List.mem_append_left _ hx
  · exact List.mem_append_right _ (hX hx)

theorem subset_types_push_enum {e : EnumDescriptor} (hn : b'.nested = b.nested) (he : b'.enums = b.enums.push e) :
    b.types full ++ [(qualify full (e.name.getD ""), .enum)] ⊆ b'.types full := by
  simp [types, hn, he]

end MessageBuild

variable {ctx : CompileContext}

/-! ### What the steps build -/

/-- A finished message has the name given, the nested messages, enums and extensions its body
built, and the fields its body built up to their oneofs. -/
theorem finishMessage_shape (path : List Int) (full : String) (name : Spanned String) (b : MessageBuild)
    {β : Type} {k : FieldDescriptor → β} (hk : ∀ f i, k { f with oneofIndex := i } = k f) :
    Yields ctx (finishMessage path full name b) fun md =>
      md.name = some name.value ∧ md.nestedType = b.nested.toList ∧ md.enumType = b.enums.toList ∧
        md.extension = b.extensions.toList ∧ md.field.map k = b.fields.toList.map k := by
  unfold finishMessage
  refine Yields.seq fun options => ?_
  dsimp only
  refine Yields.seq fun _ => Yields.pure ⟨rfl, rfl, rfl, rfl, ?_⟩
  split
  · rfl
  · exact syntheticOneofs_map hk _ _ _

theorem enumeration_name (path : List Int) (scope : String) (e : Enum) :
    Yields ctx (enumeration path scope e) fun ed => ed.name = some e.name.value := by
  unfold enumeration
  repeat' refine Yields.seq fun _ => ?_
  exact Yields.pure rfl

theorem mapField_entry_name (fieldPath entryPath : List Int) (scope : String) (m : MapField) :
    Yields ctx (mapField fieldPath entryPath scope m) fun r => r.2.name = some (mapEntryName m.name.value) := by
  unfold mapField
  dsimp only
  repeat' (first | with_reducible refine Yields.seq fun _ => ?_ | split)
  all_goals exact Yields.pure rfl

theorem mapField_types (fieldPath entryPath : List Int) (scope : String) (m : MapField) :
    Yields ctx (mapField fieldPath entryPath scope m) fun r =>
      r.2.types scope = [(qualify scope (mapEntryName m.name.value), .message)] := by
  intro s
  obtain ⟨hnested, henums⟩ := mapField_entry_bare fieldPath entryPath scope m s
  rw [MessageDescriptor.types_eq, hnested, henums, mapField_entry_name fieldPath entryPath scope m s]
  rfl

theorem finishMessage_types (path : List Int) (scope : String) (name : Spanned String) (b : MessageBuild)
    {X : List (String × SymbolKind)} (hX : X ⊆ b.types (qualify scope name.value)) :
    Yields ctx (finishMessage path (qualify scope name.value) name b) fun md =>
      (qualify scope name.value, .message) :: X ⊆ md.types scope := by
  refine (finishMessage_shape path _ name b (k := fun _ => ()) fun _ _ => rfl).imp ?_
  rintro md ⟨hname, hnested, henums, -, -⟩
  rw [MessageDescriptor.types_eq, hname, hnested, henums, Option.getD_some]
  exact List.cons_subset_cons _ hX

/-! ### The message compiler -/

theorem body_types :
    (∀ path full body (b : MessageBuild), Yields ctx (elements path full body b) fun b' =>
      b.types full ++ MessageElement.bodyTypes full body ⊆ b'.types full) ∧
    (∀ path full (e : MessageElement) (b : MessageBuild), Yields ctx (element path full e b) fun b' =>
      b.types full ++ MessageElement.types full e ⊆ b'.types full) ∧
    (∀ extBase typeBase scope extendeeSpan extendee body (acc : Array FieldDescriptor × Array MessageDescriptor),
      Yields ctx (extendMembers extBase typeBase scope extendeeSpan extendee body acc) fun r =>
        acc.2.toList.flatMap (MessageDescriptor.types scope) ++ ExtendElement.bodyTypes scope body ⊆
          r.2.toList.flatMap (MessageDescriptor.types scope)) ∧
    (∀ fieldPath typePath scope site (g : Group), Yields ctx (group fieldPath typePath scope site g) fun r =>
      Group.types scope g ⊆ r.2.types scope) ∧
    (∀ path full index body (acc : MessageBuild × Nat), Yields ctx (oneofMembers path full index body acc) fun r =>
      acc.1.types full ++ OneofElement.bodyTypes full body ⊆ r.1.types full) := by
  apply elements.mutual_induct
  case case1 =>
    intro path full f b
    rw [element]
    refine Yields.seq fun fd => Yields.pure ?_
    rw [MessageElement.types, List.append_nil]
    -- a proto3 `optional` field is only noted
    split <;> exact MessageBuild.types_subset_of_eq rfl rfl
  case case2 =>
    intro path full m b
    rw [element]
    refine Yields.bind (mapField_types _ _ full m) fun r hr => Yields.pure ?_
    rw [MessageElement.types]
    exact MessageBuild.subset_types_push_nested (by rw [hr]; exact List.Subset.refl _) rfl rfl
  case case3 =>
    intro path full g b ih
    rw [element]
    exact Yields.bind ih fun r hr => Yields.pure (MessageBuild.subset_types_push_nested hr rfl rfl)
  case case4 =>
    intro path full name body decl b index ih
    rw [element]
    refine Yields.seq fun _ => Yields.seq fun _ => Yields.seq fun options => ?_
    refine Yields.bind (ih options) fun r hr => ?_
    rw [MessageElement.types]
    obtain ⟨b', members⟩ := r
    dsimp only
    split
    · exact Yields.seq fun _ => Yields.pure hr
    · exact Yields.pure hr
  case case5 =>
    intro path full name body decl b mpath mfull ih
    rw [element]
    refine Yields.seq fun _ => Yields.bind ih fun mb hmb => ?_
    have hbody : MessageElement.bodyTypes mfull body ⊆ mb.types mfull := fun x hx =>
      hmb (List.mem_append_right _ hx)
    refine Yields.bind (finishMessage_types mpath full name mb hbody) fun m hm => Yields.pure ?_
    rw [MessageElement.types, Message.types]
    exact MessageBuild.subset_types_push_nested hm rfl rfl
  case case6 =>
    intro path full e b
    rw [element]
    refine Yields.bind (enumeration_name _ full e) fun d hd => Yields.pure ?_
    have h : b.types full ++ [(qualify full (d.name.getD ""), .enum)] ⊆
        ({ b with enums := b.enums.push d } : MessageBuild).types full :=
      MessageBuild.subset_types_push_enum rfl rfl
    rwa [hd, Option.getD_some] at h
  case case7 =>
    intro path full extendee body decl b ih
    rw [element]
    refine Yields.seq fun resolved => Yields.bind (ih resolved) fun r hr => Yields.pure ?_
    rw [MessageElement.types]
    exact MessageBuild.subset_types_of_nested hr rfl
  case case8 =>
    intro path full r b
    rw [element]
    refine (extensionRanges_frame path full r b).imp ?_
    rintro _ ⟨rs, rfl⟩
    rw [MessageElement.types, List.append_nil]
    exact MessageBuild.types_subset_of_eq rfl rfl
  case case9 =>
    intro path full r b
    rw [element]
    refine (reservedOf_frame path r b).imp ?_
    rintro _ ⟨rs, ns, rfl⟩
    rw [MessageElement.types, List.append_nil]
    exact MessageBuild.types_subset_of_eq rfl rfl
  case case10 =>
    intro path full o b
    rw [element]
    refine Yields.pure ?_
    rw [MessageElement.types, List.append_nil]
    exact MessageBuild.types_subset_of_eq rfl rfl
  case case11 =>
    intro fieldPath typePath scope site label keywordSpan name number options body decl ih
    rw [group]
    refine Yields.seq fun _ => Yields.seq fun _ => Yields.seq fun _ => Yields.seq fun _ => ?_
    refine Yields.seq fun _ => Yields.bind ih fun mb hmb => ?_
    have hbody : MessageElement.bodyTypes (qualify scope name.value) body ⊆ mb.types (qualify scope name.value) :=
      fun x hx => hmb (List.mem_append_right _ hx)
    refine Yields.bind (finishMessage_types typePath scope name mb hbody) fun m hm => Yields.pure ?_
    rw [Group.types]
    exact hm
  case case12 =>
    intro path full b
    rw [elements]
    exact Yields.pure (by simp [MessageElement.bodyTypes])
  case case13 =>
    intro path full e rest b ih₁ ih₂
    rw [elements]
    refine Yields.bind ih₁ fun b₁ h₁ => (ih₂ b₁).imp fun b₂ h₂ => ?_
    obtain ⟨h₂₁, h₂₂⟩ := List.append_subset.mp h₂
    obtain ⟨h₁₁, h₁₂⟩ := List.append_subset.mp h₁
    rw [MessageElement.bodyTypes, ← List.append_assoc]
    exact List.append_subset.mpr ⟨List.append_subset.mpr ⟨List.Subset.trans h₁₁ h₂₁, List.Subset.trans h₁₂ h₂₁⟩, h₂₂⟩
  case case14 =>
    intro path full index acc
    rw [oneofMembers]
    exact Yields.pure (by simp [OneofElement.bodyTypes])
  case case15 =>
    intro path full index f rest b n ih
    rw [oneofMembers]
    refine Yields.seq fun fd => (ih fd).imp fun r hr => ?_
    rw [OneofElement.bodyTypes]
    exact hr
  case case16 =>
    intro path full index g rest b n ihg ih
    rw [oneofMembers]
    refine Yields.bind ihg fun r hg => ?_
    obtain ⟨fd, nested⟩ := r
    refine (ih fd nested).imp fun r hr => ?_
    obtain ⟨hr₁, hr₂⟩ := List.append_subset.mp hr
    rw [OneofElement.bodyTypes, ← List.append_assoc]
    refine List.append_subset.mpr ⟨List.Subset.trans ?_ hr₁, hr₂⟩
    exact MessageBuild.subset_types_push_nested hg rfl rfl
  case case17 =>
    intro path full index o rest acc ih
    rw [oneofMembers]
    exact ih
  case case18 =>
    intro extBase typeBase scope extendeeSpan extendee acc
    rw [extendMembers]
    exact Yields.pure (by simp [ExtendElement.bodyTypes])
  case case19 =>
    intro extBase typeBase scope extendeeSpan extendee f rest exts types ih
    rw [extendMembers]
    refine Yields.seq fun fd => Yields.seq fun fd' => (ih fd').imp fun r hr => ?_
    rwa [ExtendElement.bodyTypes]
  case case20 =>
    intro extBase typeBase scope extendeeSpan extendee g rest exts types epath ihg ih
    rw [extendMembers]
    refine Yields.bind ihg fun r hg => ?_
    obtain ⟨fd, nested⟩ := r
    refine Yields.seq fun fd' => (ih nested fd').imp fun r hr => ?_
    rw [Array.toList_push, List.flatMap_append, List.flatMap_singleton] at hr
    obtain ⟨hr₁, hr₂⟩ := List.append_subset.mp hr
    obtain ⟨hbefore, hgroup⟩ := List.append_subset.mp hr₁
    rw [ExtendElement.bodyTypes, ← List.append_assoc]
    exact List.append_subset.mpr ⟨List.append_subset.mpr ⟨hbefore, List.Subset.trans hg hgroup⟩, hr₂⟩

theorem message_types (path : List Int) (scope : String) (m : Message) :
    Yields ctx (message path scope m) fun md => Message.types scope m ⊆ md.types scope := by
  obtain ⟨name, body, decl⟩ := m
  rw [message]
  refine Yields.seq fun _ => Yields.bind (body_types.1 _ _ body {}) fun mb hmb => ?_
  have hbody : MessageElement.bodyTypes (qualify scope name.value) body ⊆ mb.types (qualify scope name.value) :=
    fun x hx => hmb (List.mem_append_right _ hx)
  exact finishMessage_types path scope name mb hbody

theorem extendBlock_types (extBase typeBase : List Int) (scope : String) (x : Extend)
    (acc : Array FieldDescriptor × Array MessageDescriptor) :
    Yields ctx (extendBlock extBase typeBase scope x acc) fun r =>
      acc.2.toList.flatMap (MessageDescriptor.types scope) ++ ExtendElement.bodyTypes scope x.body ⊆
        r.2.toList.flatMap (MessageDescriptor.types scope) := by
  obtain ⟨extendee, body, decl⟩ := x
  rw [extendBlock]
  exact Yields.seq fun resolved => body_types.2.2.1 _ _ _ _ _ _ _

theorem Yields.foldlM_push {α γ : Type} {R : γ → α → Prop} (f : Nat → γ → CompileM α) (l : List γ)
    (hf : ∀ i x, Yields ctx (f i x) (R x)) :
    Yields ctx (l.foldlM (fun acc x => do return acc.push (← f acc.size x)) #[]) fun acc =>
      ∀ x ∈ l, ∃ a ∈ acc.toList, R x a := by
  refine (Yields.foldlM (fun d acc => ∀ x ∈ d, ∃ a ∈ acc.toList, R x a) (fun d x acc hacc => ?_) l [] #[]
    (by simp)).imp fun _ h => by simpa using h
  refine (hf acc.size x).bind fun a ha => Yields.pure fun y hy => ?_
  rcases List.mem_append.mp hy with hy | hy
  · obtain ⟨b, hb, hyb⟩ := hacc y hy
    exact ⟨b, by simp [hb], hyb⟩
  · rw [List.mem_singleton.mp hy]
    exact ⟨a, by simp, ha⟩

theorem file_types : Yields ctx file fun d => ctx.file.schema.types ⊆ d.types := by
  unfold file
  apply Yields.read
  dsimp only
  refine Yields.seq fun _ => ?_
  -- the version and package declarations only add locations: the rest is met four times
  split <;> (try refine Yields.seq (m := locateDecl _ _) fun _ => ?_) <;> split <;>
    (try refine Yields.seq (m := locateDecl _ _) fun _ => ?_)
  all_goals
    refine Yields.seq fun _ => Yields.seq fun _ => ?_
    refine Yields.bind (Yields.foldlM_push (fun i m => message [4, (i : Int)] ctx.file.schema.scope m) _
      fun _ m => message_types _ _ m) fun messages hm => ?_
    refine Yields.bind (Yields.foldlM_push (fun i e => enumeration [5, (i : Int)] ctx.file.schema.scope e) _
      fun _ e => enumeration_name _ _ e) fun enums he => Yields.seq fun _ => ?_
    refine Yields.bind (Yields.foldlM (fun d acc =>
        messages.toList.flatMap (MessageDescriptor.types ctx.file.schema.scope) ++
          d.flatMap (fun x => ExtendElement.bodyTypes ctx.file.schema.scope x.body) ⊆
            acc.2.toList.flatMap (MessageDescriptor.types ctx.file.schema.scope))
      (fun d x acc hacc => (extendBlock_types _ _ _ x acc).imp fun r hr => ?_) _ [] _ (by simp)) fun r hr => ?_
    · rw [List.flatMap_append, List.flatMap_singleton, ← List.append_assoc]
      obtain ⟨hbefore, hx⟩ := List.append_subset.mp hr
      exact List.append_subset.mpr ⟨List.Subset.trans hacc hbefore, hx⟩
    refine Yields.seq fun _ => Yields.pure ?_
    rw [List.nil_append] at hr
    intro x hx
    simp only [SchemaFile.types, List.mem_append, List.mem_flatMap, List.mem_map] at hx
    rcases hx with (⟨m, hm', hxm⟩ | ⟨e, he', rfl⟩) | ⟨b, hb, hxb⟩
    · -- a type of a top-level message is declared by its descriptor
      obtain ⟨md, hmd, hsub⟩ := hm m hm'
      have hin : x ∈ messages.toList.flatMap (MessageDescriptor.types ctx.file.schema.scope) :=
        List.mem_flatMap.mpr ⟨md, hmd, hsub hxm⟩
      exact List.mem_append_left _ (hr (List.mem_append_left _ hin))
    · -- a top-level enum has a descriptor of its name
      obtain ⟨ed, hed, hname⟩ := he e he'
      refine List.mem_append_right _ (List.mem_map.mpr ⟨ed, hed, ?_⟩)
      rw [hname, Option.getD_some]
      rfl
    · -- a type of a group of an extend block is declared by the group's message
      have hin : x ∈ ctx.file.schema.extendBlocks.flatMap (fun x => ExtendElement.bodyTypes ctx.file.schema.scope x.body) :=
        List.mem_flatMap.mpr ⟨b, hb, hxb⟩
      exact List.mem_append_left _ (hr (List.mem_append_right _ hin))

end CompileM

/-- The descriptor of a compiled file declares, under the same full name and kind, every type its
schema declares, whatever the compiler reports. -/
theorem compileFile_types (ctx : CompileContext) : ctx.file.schema.types ⊆ (compileFile ctx).1.types :=
  CompileM.file_types {}

end ProtoSchema
