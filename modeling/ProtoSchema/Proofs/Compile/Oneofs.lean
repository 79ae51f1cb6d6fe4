import ProtoSchema.Proofs.Compile.Synthetic
import ProtoSchema.Proofs.Compile.Enums
import ProtoSchema.Proofs.Source.Labels

/-!
The oneofs of every message a clean compile builds. The members of a oneof are compiled one
after the other, each given the oneof's index, the size of the oneof list when the oneof is
declared, and a oneof without fields is reported. A proto3 `optional` field written directly
in a message is recorded, and nothing else is marked proto3 `optional`: the parser refuses a
label on a member of a oneof and a group in a proto3 file (`SchemaFile.LabelRules`). So a
message body builds oneofs that are blocks of consecutive fields, with its proto3 `optional`
fields recorded and in no oneof (`MessageBuild.OneofsSound`), and fields and oneofs named as
its syntax declares them, distinct when its full names are. Finishing the message gives the
proto3 `optional` fields their oneofs (`syntheticOneofs_layout`), so every message of a file
compiled without annotations is laid out as a descriptor requires (`compileFile_oneofs`).
-/

namespace ProtoSchema

def MessageElement.oneofNames : MessageElement → List String
  | .oneof (.mk name _ _) => [name.value]
  | _ => []

theorem MessageElement.declaredNames_sublist (full : String) (e : MessageElement) :
    List.Sublist ((e.oneofNames ++ e.fieldNames).map (qualify full)) (MessageElement.fullNames full e) := by
  have h := MessageElement.fieldNames_sublist full e
  cases e
  case oneof o =>
    obtain ⟨name, body, decl⟩ := o
    exact (OneofElement.fieldNames_sublist full body).cons_cons _
  all_goals exact h

theorem MessageElement.bodyDeclaredNames_sublist (full : String) :
    ∀ body : List MessageElement,
      List.Sublist ((body.flatMap fun e => e.oneofNames ++ e.fieldNames).map (qualify full))
        (MessageElement.bodyFullNames full body)
  | [] => List.Sublist.slnil
  | e :: rest => by
    rw [List.flatMap_cons, List.map_append, MessageElement.bodyFullNames]
    exact (e.declaredNames_sublist full).append (bodyDeclaredNames_sublist full rest)

theorem MessageElement.bodyDeclaredNames_nodup {full : String} {body : List MessageElement}
    (h : (MessageElement.bodyFullNames full body).Nodup) :
    (body.flatMap MessageElement.fieldNames ++ body.flatMap MessageElement.oneofNames).Nodup := by
  rw [List.nodup_append_comm]
  exact (List.flatMap_append_perm _ _ _).nodup_iff.mpr
    ((h.sublist (bodyDeclaredNames_sublist full body)).of_map _)

def FieldSite.oneofIndex? : FieldSite → Option Int
  | .oneof i => some i
  | _ => none

def FieldDescriptor.SamePlace (fd fd' : FieldDescriptor) : Prop :=
  fd'.name = fd.name ∧ fd'.oneofIndex = fd.oneofIndex ∧ fd'.proto3Optional = fd.proto3Optional

theorem FieldDescriptor.SamePlace.trans {fd fd' fd'' : FieldDescriptor} (h : fd.SamePlace fd')
    (h' : fd'.SamePlace fd'') : fd.SamePlace fd'' :=
  ⟨h'.1.trans h.1, h'.2.1.trans h.2.1, h'.2.2.trans h.2.2⟩

def optionalPositions (fields : List FieldDescriptor) : List Nat :=
  (List.range fields.length).filter fun n => fields[n]?.bind (·.proto3Optional) == some true

section OptionalPositions

variable {fields ms : List FieldDescriptor}

theorem mem_optionalPositions {n : Nat} :
    n ∈ optionalPositions fields ↔ fields[n]?.bind (·.proto3Optional) = some true := by
  unfold optionalPositions
  rw [List.mem_filter, List.mem_range, beq_iff_eq]
  refine ⟨And.right, fun h => ⟨?_, h⟩⟩
  obtain ⟨f, hf, -⟩ := Option.bind_eq_some_iff.mp h
  exact (List.getElem?_eq_some_iff.mp hf).1

theorem optionalPositions_nodup (fields : List FieldDescriptor) : (optionalPositions fields).Nodup :=
  List.nodup_range.filter _

theorem optionalPositions_append (fields ms : List FieldDescriptor) :
    optionalPositions (fields ++ ms) =
      optionalPositions fields ++ (optionalPositions ms).map (fields.length + ·) := by
  unfold optionalPositions
  rw [List.length_append, List.range_add, List.filter_append, List.filter_map]
  congr 1
  · refine List.filter_congr fun n hn => ?_
    rw [List.getElem?_append_left (List.mem_range.mp hn)]
  · congr 1
    refine List.filter_congr fun n _ => ?_
    simp [List.getElem?_append_right]

theorem optionalPositions_singleton (fd : FieldDescriptor) :
    optionalPositions [fd] = if fd.proto3Optional = some true then [0] else [] := by
  by_cases h : fd.proto3Optional = some true <;> simp [optionalPositions, h]

theorem optionalPositions_eq_nil (h : ∀ f ∈ ms, f.proto3Optional ≠ some true) : optionalPositions ms = [] := by
  rw [List.eq_nil_iff_forall_not_mem]
  intro n hn
  obtain ⟨f, hf, hopt⟩ := Option.bind_eq_some_iff.mp (mem_optionalPositions.mp hn)
  exact h f (List.mem_of_getElem? hf) hopt

end OptionalPositions

theorem entry_oneofsWellFormed (entryName : String) (keyType valueType : Option FieldType)
    (valueName : Option String) (options : Option MessageOptions) :
    (MessageDescriptor.mk (some entryName)
      [CompileM.entryField "key" 1 keyType none, CompileM.entryField "value" 2 valueType valueName]
      [] [] [] [] options [] [] []).OneofsWellFormed := by
  refine .intro ⟨⟨?_, ?_⟩, ⟨0, le_refl _, ?_, ?_⟩, ?_, ?_⟩ (by simp [MessageDescriptor.nestedType])
  all_goals simp [MessageDescriptor.field, MessageDescriptor.oneofDecl, CompileM.entryField]

namespace CompileM

variable {ctx : CompileContext}

theorem Clean.with_yields {α : Type} {H : Prop} {m : CompileM α} {P Q : α → Prop} (hm : Clean ctx H m P)
    (hy : Yields ctx m Q) : Clean ctx H m fun a => P a ∧ Q a :=
  fun s => ⟨(hm s).1, fun hsize hH => ⟨(hm s).2 hsize hH, hy s⟩⟩

theorem Yields.imp {α : Type} {m : CompileM α} {P Q : α → Prop} (hm : Yields ctx m P) (h : ∀ a, P a → Q a) :
    Yields ctx m Q :=
  fun s => h _ (hm s)

/-! ### Where a field is placed -/

theorem defaultOption_samePlace (path : List Int) (fd : FieldDescriptor) (resolved : Option ResolvedType)
    (decl : OptionDecl) : Yields ctx (defaultOption path fd resolved decl) fd.SamePlace := by
  unfold defaultOption
  repeat' (first | with_reducible refine Yields.seq fun _ => ?_ | split | dsimp only)
  all_goals exact Yields.pure ⟨rfl, rfl, rfl⟩

theorem jsonNameOption_samePlace (path : List Int) (fd : FieldDescriptor) (decl : OptionDecl) :
    Yields ctx (jsonNameOption path fd decl) fd.SamePlace := by
  unfold jsonNameOption
  repeat' (first | with_reducible refine Yields.seq fun _ => ?_ | split)
  all_goals exact Yields.pure ⟨rfl, rfl, rfl⟩

theorem pseudoOptions_samePlace (path : List Int) (resolved : Option ResolvedType) (site : FieldSite)
    (fd : FieldDescriptor) :
    ∀ (decls : List OptionDecl) (acc : FieldDescriptor × Bool × Bool), fd.SamePlace acc.1 →
      Yields ctx (pseudoOptions path resolved site decls acc) fun r => fd.SamePlace r.1
  | [], acc, h => by
    rw [pseudoOptions]
    exact Yields.pure h
  | d :: rest, (fd', defaultSeen, jsonSeen), h => by
    rw [pseudoOptions]
    have ih := pseudoOptions_samePlace path resolved site fd rest
    -- each pseudo-option is reported, set or passed over
    split
    · split
      · exact Yields.seq fun _ => ih _ h
      · exact (defaultOption_samePlace _ _ _ _).bind fun _ h' => ih _ (h.trans h')
    · split
      · split
        · exact Yields.seq fun _ => ih _ h
        · split
          · exact Yields.seq fun _ => ih _ h
          · exact (jsonNameOption_samePlace _ _ _).bind fun _ h' => ih _ (h.trans h')
      · exact ih _ h

theorem fieldOptionsOf_samePlace (path : List Int) (fd : FieldDescriptor) (fieldFull : String)
    (decls : List OptionDecl) (resolved : Option ResolvedType) (site : FieldSite) :
    Yields ctx (fieldOptionsOf path fd fieldFull decls resolved site) fd.SamePlace := by
  unfold fieldOptionsOf
  refine (pseudoOptions_samePlace path resolved site fd _ (fd, false, false) ⟨rfl, rfl, rfl⟩).bind
    fun r hr => ?_
  obtain ⟨fd', _, _⟩ := r
  refine Yields.seq fun _ => ?_
  dsimp only
  repeat' (first | with_reducible refine Yields.seq fun _ => ?_ | split)
  all_goals exact Yields.pure hr

theorem fieldShell_place (path : List Int) (label : Option (Spanned LabelKind)) (name : String)
    (nameSpan : Span) (number : Spanned Int) (decl : Declaration) (site : FieldSite) :
    Yields ctx (fieldShell path label name nameSpan number decl site) fun fd =>
      fd.name = some name ∧ fd.oneofIndex = site.oneofIndex? ∧
        (fd.proto3Optional = some true → ctx.proto3 = true ∧ label.map (·.value) = some .optional) := by
  unfold fieldShell
  refine Yields.seq fun _ => Yields.seq fun _ => ?_
  dsimp only
  -- the label only adds a location
  split
  all_goals
    simp only [pure_bind]
    repeat' (first
      | with_reducible refine Yields.read ?_
      | with_reducible refine Yields.seq fun _ => ?_)
    refine Yields.pure ⟨rfl, by cases site <;> rfl, fun h => ?_⟩
    dsimp only at h
    split at h
    · rename_i hc
      simp only [Bool.and_eq_true, beq_iff_eq] at hc
      exact ⟨hc.1.1, hc.1.2⟩
    · cases h

theorem plainField_place (path : List Int) (scope : String) (field : Field) (site : FieldSite) :
    Yields ctx (plainField path scope field site) fun fd =>
      fd.name = some field.name.value ∧ fd.oneofIndex = site.oneofIndex? ∧
        (fd.proto3Optional = some true → ctx.proto3 = true ∧ field.label.map (·.value) = some .optional) := by
  unfold plainField
  refine (fieldShell_place _ _ _ _ _ _ _).bind fun fd hfd => ?_
  refine Yields.seq fun _ => Yields.seq fun resolved => ?_
  dsimp only
  repeat' (first
    | simp only [pure_bind]
    | with_reducible refine Yields.seq fun _ => ?_
    | with_reducible refine Yields.read ?_
    | split)
  all_goals exact (fieldOptionsOf_samePlace _ _ _ _ _ _).imp fun _ h => ⟨h.1.trans hfd.1, h.2.1.trans hfd.2.1,
    fun hopt => hfd.2.2 (h.2.2.symm.trans hopt)⟩

theorem mapField_place (fieldPath entryPath : List Int) (scope : String) (m : MapField) :
    Yields ctx (mapField fieldPath entryPath scope m) fun r =>
      r.1.name = some m.name.value ∧ r.1.oneofIndex = none ∧ r.1.proto3Optional ≠ some true ∧
        r.2.OneofsWellFormed := by
  unfold mapField
  refine (fieldShell_place _ _ _ _ _ _ _).bind fun fd hfd => ?_
  dsimp only
  repeat' (first
    | with_reducible refine (fieldOptionsOf_samePlace _ _ _ _ _ _).bind fun fd' h' => ?_
    | with_reducible refine Yields.seq fun _ => ?_
    | split)
  all_goals
    refine Yields.pure ⟨h'.1.trans hfd.1, h'.2.1.trans hfd.2.1, fun h => ?_, entry_oneofsWellFormed _ _ _ _ _⟩
    have := (hfd.2.2 (h'.2.2.symm.trans h)).2
    cases this

theorem group_place (fieldPath typePath : List Int) (scope : String) (site : FieldSite) (g : Group) :
    Yields ctx (group fieldPath typePath scope site g) fun r =>
      r.1.name = some (groupFieldName g.name.value) ∧ r.1.oneofIndex = site.oneofIndex? ∧
        (r.1.proto3Optional = some true → ctx.proto3 = true ∧ g.label.map (·.value) = some .optional) := by
  obtain ⟨label, keywordSpan, name, number, options, body, decl⟩ := g
  rw [group]
  refine (fieldShell_place _ _ _ _ _ _ _).bind fun fd hfd => ?_
  refine Yields.seq fun _ => Yields.seq fun _ => ?_
  refine (fieldOptionsOf_samePlace _ _ _ _ _ _).bind fun fd' h' => ?_
  refine Yields.seq fun _ => Yields.seq fun _ => Yields.seq fun _ => Yields.pure ?_
  exact ⟨h'.1.trans hfd.1, h'.2.1.trans hfd.2.1, fun h => hfd.2.2 (h'.2.2.symm.trans h)⟩

/-! ### The oneofs of a message body -/

/-- What a message body keeps of the oneofs it has built: the written oneofs are blocks of
consecutive fields; the proto3 `optional` fields are recorded, in order, and are in no oneof;
and every message built so far is laid out as a descriptor requires. -/
structure MessageBuild.OneofsSound (b : MessageBuild) : Prop where
  blocks : OneofBlocks b.fields.toList b.oneofs.size
  optional : b.proto3Optional.toList = optionalPositions b.fields.toList
  optional_plain : ∀ f ∈ b.fields.toList, f.proto3Optional = some true → f.oneofIndex = none
  nested : ∀ md ∈ b.nested.toList, md.OneofsWellFormed

def MessageBuild.NamesDistinct (b : MessageBuild) : Prop :=
  ∃ names oneofNames : List String, b.fields.toList.map (·.name) = names.map some ∧
    b.oneofs.toList.map (·.name) = oneofNames.map some ∧ (names ++ oneofNames).Nodup

/-- Part way through the members of the oneof `index` declared after the build `b`: the members
so far follow the fields of `b`, all in the oneof and none proto3 `optional`. -/
structure OneofMembersSound (b : MessageBuild) (index : Nat) (acc : MessageBuild × Nat) : Prop where
  index_eq : index = b.oneofs.size
  members : ∃ ms, acc.1.fields.toList = b.fields.toList ++ ms ∧ ms.length = acc.2 ∧
    ∀ f ∈ ms, f.oneofIndex = some (index : Int) ∧ f.proto3Optional ≠ some true
  oneofs : acc.1.oneofs.size = b.oneofs.size + 1
  optional : acc.1.proto3Optional = b.proto3Optional
  nested : ∀ md ∈ acc.1.nested.toList, md.OneofsWellFormed

namespace MessageBuild.OneofsSound

variable {b : MessageBuild}

theorem empty : ({} : MessageBuild).OneofsSound :=
  ⟨⟨by simp, fun _ hk => absurd hk (Nat.not_lt_zero _)⟩, rfl, by simp, by simp⟩

theorem congr (hs : b.OneofsSound) {b' : MessageBuild} (hfields : b'.fields = b.fields)
    (hoptional : b'.proto3Optional = b.proto3Optional) (honeofs : b'.oneofs = b.oneofs)
    (hnested : ∀ md ∈ b'.nested.toList, md.OneofsWellFormed) : b'.OneofsSound where
  blocks := by rw [hfields, honeofs]; exact hs.blocks
  optional := by rw [hoptional, hfields]; exact hs.optional
  optional_plain := by rw [hfields]; exact hs.optional_plain
  nested := hnested

theorem push_nested (hs : b.OneofsSound) {md : MessageDescriptor} (hmd : md.OneofsWellFormed) :
    ({ b with nested := b.nested.push md } : MessageBuild).OneofsSound :=
  hs.congr rfl rfl rfl (forall_mem_toList_push hs.nested hmd)

theorem push_field (hs : b.OneofsSound) {fd : FieldDescriptor} (hf : fd.oneofIndex = none)
    {mds : List MessageDescriptor} (hmds : ∀ md ∈ mds, md.OneofsWellFormed) {b' : MessageBuild}
    (hfields : b'.fields = b.fields.push fd) (honeofs : b'.oneofs = b.oneofs)
    (hoptional : b'.proto3Optional.toList =
      b.proto3Optional.toList ++ (optionalPositions [fd]).map (b.fields.size + ·))
    (hnested : b'.nested.toList = b.nested.toList ++ mds) : b'.OneofsSound where
  blocks := by
    rw [hfields, honeofs, Array.toList_push]
    exact hs.blocks.push_plain hf
  optional := by
    rw [hoptional, hs.optional, hfields, Array.toList_push, optionalPositions_append, Array.length_toList]
  optional_plain f hf' hopt := by
    rw [hfields, Array.toList_push, List.mem_append, List.mem_singleton] at hf'
    rcases hf' with hf' | rfl
    · exact hs.optional_plain f hf' hopt
    · exact hf
  nested md hmd := by
    rw [hnested, List.mem_append] at hmd
    exact hmd.elim (hs.nested md) (hmds md)

theorem of_members (hs : b.OneofsSound) {index : Nat} {acc : MessageBuild × Nat}
    (hm : OneofMembersSound b index acc) (hn : acc.2 ≠ 0) : acc.1.OneofsSound := by
  obtain ⟨ms, hfields, hlen, hms⟩ := hm.members
  refine ⟨?_, ?_, ?_, hm.nested⟩
  · rw [hfields, hm.oneofs]
    refine hs.blocks.append_members (fun hnil => hn (by rw [← hlen, hnil, List.length_nil])) fun f hf => ?_
    rw [(hms f hf).1, hm.index_eq]
  · rw [hm.optional, hs.optional, hfields, optionalPositions_append,
      optionalPositions_eq_nil fun f hf => (hms f hf).2, List.map_nil, List.append_nil]
  · intro f hf hopt
    rw [hfields, List.mem_append] at hf
    rcases hf with hf | hf
    · exact hs.optional_plain f hf hopt
    · exact absurd hopt (hms f hf).2

end MessageBuild.OneofsSound

namespace OneofMembersSound

variable {b : MessageBuild} {index : Nat} {acc : MessageBuild × Nat}

theorem start (hs : b.OneofsSound) (o : OneofDescriptor) :
    OneofMembersSound b b.oneofs.size ({ b with oneofs := b.oneofs.push o }, 0) :=
  ⟨rfl, ⟨[], by simp, rfl, by simp⟩, by simp, rfl, hs.nested⟩

theorem push (hm : OneofMembersSound b index acc) {fd : FieldDescriptor}
    (hfi : fd.oneofIndex = some (index : Int)) (hfo : fd.proto3Optional ≠ some true)
    {mds : List MessageDescriptor} (hmds : ∀ md ∈ mds, md.OneofsWellFormed) {b' : MessageBuild}
    (hfields : b'.fields = acc.1.fields.push fd) (honeofs : b'.oneofs = acc.1.oneofs)
    (hoptional : b'.proto3Optional = acc.1.proto3Optional)
    (hnested : b'.nested.toList = acc.1.nested.toList ++ mds) :
    OneofMembersSound b index (b', acc.2 + 1) := by
  obtain ⟨ms, hms, hlen, hall⟩ := hm.members
  refine ⟨hm.index_eq, ⟨ms ++ [fd], ?_, ?_, ?_⟩, ?_, ?_, ?_⟩
  · rw [hfields, Array.toList_push, hms, List.append_assoc]
  · rw [List.length_append, hlen, List.length_singleton]
  · intro f hf
    rcases List.mem_append.mp hf with hf | hf
    · exact hall f hf
    · rw [List.mem_singleton.mp hf]
      exact ⟨hfi, hfo⟩
  · rw [honeofs]
    exact hm.oneofs
  · rw [hoptional]
    exact hm.optional
  · intro md hmd
    rw [hnested, List.mem_append] at hmd
    exact hmd.elim (hm.nested md) (hmds md)

end OneofMembersSound

theorem MessageBuild.namesDistinct_of_body {b : MessageBuild} {full : String} {body : List MessageElement}
    (hnd : (MessageElement.bodyFullNames full body).Nodup)
    (hfields : b.fields.toList.map (·.name) =
      ({} : MessageBuild).fields.toList.map (·.name) ++ (body.flatMap MessageElement.fieldNames).map some)
    (honeofs : b.oneofs.toList.map (·.name) =
      ({} : MessageBuild).oneofs.toList.map (·.name) ++ (body.flatMap MessageElement.oneofNames).map some) :
    b.NamesDistinct :=
  ⟨_, _, by simpa using hfields, by simpa using honeofs, MessageElement.bodyDeclaredNames_nodup hnd⟩

theorem finishMessage_oneofs (path : List Int) (full : String) (name : Spanned String) (b : MessageBuild) :
    Clean ctx (b.OneofsSound ∧ b.NamesDistinct) (finishMessage path full name b) fun md =>
      md.OneofsWellFormed := by
  unfold finishMessage
  refine (Clean.of_kept fun _ => interpretOptions_spec _ _ _ _).bind fun options => ?_
  dsimp only
  refine (Clean.of_kept fun _ => validateMessage_spec _ _ _ _ _ _).bind fun _ => Clean.pure ?_
  rintro ⟨hs, names, oneofNames, hnames, honeofs, hnd⟩
  refine .intro ?_ hs.nested
  -- the recorded fields are the proto3 `optional` ones, in no oneof
  have hplain : ∀ n ∈ b.proto3Optional.toList, b.fields.toList[n]?.bind (·.oneofIndex) = none := by
    intro n hn
    rw [hs.optional] at hn
    obtain ⟨f, hf, hopt⟩ := Option.bind_eq_some_iff.mp (mem_optionalPositions.mp hn)
    rw [hf, Option.bind_some]
    exact hs.optional_plain f (List.mem_of_getElem? hf) hopt
  have hlayout := syntheticOneofs_layout hs.blocks (fun n => by rw [hs.optional]; exact mem_optionalPositions.symm)
    (hs.optional ▸ optionalPositions_nodup _) hplain hnames honeofs hnd
  split
  · rename_i hempty
    have hnil : b.proto3Optional.toList = [] := by simpa using hempty
    rw [hnil] at hlayout
    exact hlayout
  · exact hlayout

theorem body_oneofs_clean :
    (∀ path full body (b : MessageBuild), (MessageElement.bodyFullNames full body).Nodup →
      MessageElement.BodyLabelRules ctx.proto3 body →
      Clean ctx b.OneofsSound (elements path full body b) fun b' => b'.OneofsSound ∧
        b'.fields.toList.map (·.name) =
          b.fields.toList.map (·.name) ++ (body.flatMap MessageElement.fieldNames).map some ∧
        b'.oneofs.toList.map (·.name) =
          b.oneofs.toList.map (·.name) ++ (body.flatMap MessageElement.oneofNames).map some) ∧
    (∀ path full (e : MessageElement) (b : MessageBuild), (MessageElement.fullNames full e).Nodup →
      e.LabelRules ctx.proto3 →
      Clean ctx b.OneofsSound (element path full e b) fun b' => b'.OneofsSound ∧
        b'.fields.toList.map (·.name) = b.fields.toList.map (·.name) ++ e.fieldNames.map some ∧
        b'.oneofs.toList.map (·.name) = b.oneofs.toList.map (·.name) ++ e.oneofNames.map some) ∧
    (∀ extBase typeBase scope extendeeSpan extendee body
        (acc : Array FieldDescriptor × Array MessageDescriptor), (ExtendElement.bodyFullNames scope body).Nodup →
      ExtendElement.BodyLabelRules ctx.proto3 body →
      Clean ctx (∀ md ∈ acc.2.toList, md.OneofsWellFormed)
        (extendMembers extBase typeBase scope extendeeSpan extendee body acc) fun r =>
          ∀ md ∈ r.2.toList, md.OneofsWellFormed) ∧
    (∀ fieldPath typePath scope site (g : Group), (Group.fullNames scope g).Nodup →
      g.LabelRules ctx.proto3 →
      Clean ctx True (group fieldPath typePath scope site g) fun r => r.2.OneofsWellFormed) ∧
    (∀ path full index body (acc : MessageBuild × Nat), (OneofElement.bodyFullNames full body).Nodup →
      OneofElement.BodyLabelRules ctx.proto3 body → ∀ b₀ : MessageBuild,
      Clean ctx (OneofMembersSound b₀ index acc) (oneofMembers path full index body acc) fun r =>
        OneofMembersSound b₀ index r ∧ r.1.oneofs = acc.1.oneofs ∧
          r.1.fields.toList.map (·.name) =
            acc.1.fields.toList.map (·.name) ++ (body.filterMap OneofElement.fieldName?).map some) := by
  apply elements.mutual_induct
  case case1 =>
    intro path full f b _ _
    rw [element]
    refine (Clean.of_yields (fun _ => plainField_spec _ _ f .message) (plainField_place _ _ f .message)).bind
      fun fd => Clean.pure ?_
    rintro ⟨hs, hn, hidx, -⟩
    -- a proto3 `optional` field is recorded at its index
    split
    all_goals refine ⟨hs.push_field hidx (by simp) rfl rfl ?_ (List.append_nil _).symm,
      by simp [hn, MessageElement.fieldNames], by simp [MessageElement.oneofNames]⟩
    all_goals simp_all [optionalPositions_singleton]
  case case2 =>
    intro path full m b _ _
    rw [element]
    refine (Clean.of_yields (fun _ => mapField_spec _ _ _ m) (mapField_place _ _ _ m)).bind fun r => Clean.pure ?_
    rintro ⟨hs, hn, hidx, hopt, hwf⟩
    refine ⟨hs.push_field hidx (by simpa using hwf) rfl rfl ?_ Array.toList_push,
      by simp [hn, MessageElement.fieldNames], by simp [MessageElement.oneofNames]⟩
    simp [optionalPositions_singleton, hopt]
  case case3 =>
    intro path full g b ih hd hl
    rw [element]
    refine (((ih hd hl.2).with_yields (group_place _ _ _ _ g)).frame fun _ => trivial).bind
      fun r => Clean.pure ?_
    rintro ⟨hs, hwf, hn, hidx, hopt⟩
    have hplain : r.1.proto3Optional ≠ some true := fun h => by
      have := (hopt h).1
      rw [hl.1] at this
      cases this
    refine ⟨hs.push_field hidx (by simpa using hwf) rfl rfl ?_ Array.toList_push,
      by simp [hn, MessageElement.fieldNames], by simp [MessageElement.oneofNames]⟩
    simp [optionalPositions_singleton, hplain]
  case case4 =>
    intro path full name body decl b index ih hd hl
    rw [element]
    refine Clean.locateDecl_bind (Clean.locate_bind ?_)
    refine (Clean.of_kept fun _ => interpretOptions_spec _ _ _ _).bind fun options => ?_
    refine ((ih options (List.nodup_cons.mp hd).2 hl b).frame fun hs => OneofMembersSound.start hs _).bind
      fun r => ?_
    obtain ⟨b', n⟩ := r
    dsimp only
    refine Clean.check_bind (Clean.pure ?_)
    rintro ⟨⟨hs, hm, honeofs, hnames⟩, hn⟩
    refine ⟨hs.of_members hm hn, by rw [hnames]; rfl, ?_⟩
    rw [honeofs]
    simp [MessageElement.oneofNames]
  case case5 =>
    intro path full name body decl b mpath mfull ih hd hl
    rw [element]
    refine (Clean.of_kept fun _ => startMessage_spec _ _ _).bind fun _ => ?_
    have hbody := (List.nodup_cons.mp hd).2
    refine ((ih hbody hl).frame fun _ => MessageBuild.OneofsSound.empty).bind fun mb => ?_
    refine ((finishMessage_oneofs _ _ _ mb).frame fun h =>
      ⟨h.2.1, MessageBuild.namesDistinct_of_body hbody h.2.2.1 h.2.2.2⟩).bind fun m => Clean.pure ?_
    rintro ⟨⟨hs, -⟩, hmd⟩
    exact ⟨hs.push_nested hmd, (List.append_nil _).symm, (List.append_nil _).symm⟩
  case case6 =>
    intro path full e b _ _
    rw [element]
    refine (Clean.of_kept fun _ => enumeration_spec _ _ _).bind fun d => Clean.pure fun hs => ?_
    exact ⟨hs.congr rfl rfl rfl hs.nested, (List.append_nil _).symm, (List.append_nil _).symm⟩
  case case7 =>
    intro path full extendee body decl b ih hd hl
    rw [element]
    refine (Clean.of_kept fun _ => startExtend_spec _ _ _ _).bind fun resolved => ?_
    refine ((ih resolved hd hl).frame fun hs => hs.nested).bind fun r => Clean.pure ?_
    rintro ⟨hs, hnested⟩
    exact ⟨hs.congr rfl rfl rfl hnested, (List.append_nil _).symm, (List.append_nil _).symm⟩
  case case8 =>
    intro path full r b _ _
    rw [element]
    refine (Clean.of_yields (fun _ => extensionRanges_spec path full r b) (extensionRanges_frame path full r b)).imp
      id ?_
    rintro _ hs ⟨-, rs, rfl⟩
    exact ⟨hs.congr rfl rfl rfl hs.nested, (List.append_nil _).symm, (List.append_nil _).symm⟩
  case case9 =>
    intro path full r b _ _
    rw [element]
    refine (Clean.of_yields (fun _ => reservedOf_spec path r b) (reservedOf_frame path r b)).imp id ?_
    rintro _ hs ⟨-, rs, ns, rfl⟩
    exact ⟨hs.congr rfl rfl rfl hs.nested, (List.append_nil _).symm, (List.append_nil _).symm⟩
  case case10 =>
    intro path full o b _ _
    rw [element]
    exact Clean.pure fun hs => ⟨hs.congr rfl rfl rfl hs.nested, (List.append_nil _).symm, (List.append_nil _).symm⟩
  case case11 =>
    intro fieldPath typePath scope site label keywordSpan name number options body decl ih hd hl
    rw [group]
    refine (Clean.of_kept fun _ => fieldShell_spec _ _ _ _ _ _ _).bind fun fd => ?_
    refine Clean.locate_bind (Clean.locate_bind ?_)
    refine (Clean.of_kept fun _ => fieldOptionsOf_spec _ _ _ _ _ _).bind fun fd' => ?_
    refine (Clean.of_kept fun _ => startMessage_spec _ _ _).bind fun _ => ?_
    have hbody := (List.nodup_cons.mp (List.nodup_cons.mp hd).2).2
    refine ((ih hbody hl).imp (fun _ => MessageBuild.OneofsSound.empty) fun _ _ h => h).bind fun mb => ?_
    refine ((finishMessage_oneofs _ _ _ mb).imp (fun h => ⟨h.1, MessageBuild.namesDistinct_of_body hbody h.2.1 h.2.2⟩)
      fun _ _ h => h).bind fun m => Clean.pure id
  case case12 =>
    intro path full b _ _
    rw [elements]
    exact Clean.pure fun hs => ⟨hs, (List.append_nil _).symm, (List.append_nil _).symm⟩
  case case13 =>
    intro path full e rest b ih₁ ih₂ hd hl
    rw [elements]
    rw [MessageElement.bodyFullNames, List.nodup_append] at hd
    refine (ih₁ hd.1 hl.1).bind fun b' => (ih₂ b' hd.2.1 hl.2).imp And.left ?_
    rintro b'' ⟨-, hf', ho'⟩ ⟨hs, hf'', ho''⟩
    refine ⟨hs, ?_, ?_⟩
    · rw [hf'', hf', List.flatMap_cons, List.map_append, List.append_assoc]
    · rw [ho'', ho', List.flatMap_cons, List.map_append, List.append_assoc]
  case case14 =>
    intro path full index acc _ _ b₀
    rw [oneofMembers]
    exact Clean.pure fun hm => ⟨hm, rfl, (List.append_nil _).symm⟩
  case case15 =>
    intro path full index f rest b n ih hd hl b₀
    rw [oneofMembers]
    refine (Clean.of_yields (fun _ => plainField_spec _ _ f (.oneof index))
      (plainField_place _ _ f (.oneof index))).bind fun fd => ?_
    refine (ih fd (List.nodup_cons.mp hd).2 hl.2 b₀).imp ?_ ?_
    · rintro ⟨hm, hn, hidx, hopt⟩
      refine hm.push hidx (fun h => ?_) (by simp) rfl rfl rfl (List.append_nil _).symm
      have := (hopt h).2
      rw [show f.label = none from hl.1] at this
      cases this
    · rintro r ⟨-, hn, -, -⟩ ⟨hm, ho, hf⟩
      refine ⟨hm, ho, ?_⟩
      rw [hf]
      simp [OneofElement.fieldName?, hn]
  case case16 =>
    intro path full index g rest b n ihg ih hd hl b₀
    rw [OneofElement.bodyFullNames, List.nodup_append] at hd
    rw [oneofMembers]
    obtain ⟨-, hp3, hg⟩ := hl.1
    refine (((ihg hd.1 hg).with_yields (group_place _ _ _ _ g)).frame fun _ => trivial).bind fun r => ?_
    obtain ⟨fd, nested⟩ := r
    refine (ih fd nested hd.2.1 hl.2 b₀).imp ?_ ?_
    · rintro ⟨hm, hwf, hn, hidx, hopt⟩
      refine hm.push hidx (fun h => ?_) (by simpa using hwf) rfl rfl rfl Array.toList_push
      have := (hopt h).1
      rw [hp3] at this
      cases this
    · rintro r ⟨-, -, hn, -, -⟩ ⟨hm, ho, hf⟩
      refine ⟨hm, ho, ?_⟩
      rw [hf]
      simp [OneofElement.fieldName?, show fd.name = _ from hn]
  case case17 =>
    intro path full index o rest acc ih hd hl b₀
    rw [oneofMembers]
    exact ih hd hl.2 b₀
  case case18 =>
    intro extBase typeBase scope extendeeSpan extendee acc _ _
    rw [extendMembers]
    exact Clean.pure id
  case case19 =>
    intro extBase typeBase scope extendeeSpan extendee f rest exts types ih hd hl
    rw [extendMembers]
    refine (Clean.of_kept fun _ => plainField_spec _ _ _ _).bind fun fd => ?_
    refine (Clean.of_kept fun _ => finishExtension_spec _ _ _ _ _).bind fun fd' => ?_
    exact ih fd' (List.nodup_cons.mp hd).2 hl.2
  case case20 =>
    intro extBase typeBase scope extendeeSpan extendee g rest exts types epath ihg ih hd hl
    rw [ExtendElement.bodyFullNames, List.nodup_append] at hd
    rw [extendMembers]
    refine ((ihg hd.1 hl.1.2).frame fun _ => trivial).bind fun r => ?_
    obtain ⟨fd, nested⟩ := r
    refine (Clean.of_kept fun _ => finishExtension_spec _ _ _ _ _).bind fun fd' => ?_
    exact (ih nested fd' hd.2.1 hl.2).imp (fun h => forall_mem_toList_push h.1 h.2) fun _ _ h => h

theorem message_oneofs (path : List Int) (scope : String) (m : Message) (hm : (Message.fullNames scope m).Nodup)
    (hl : m.LabelRules ctx.proto3) :
    Clean ctx True (message path scope m) fun md => md.OneofsWellFormed := by
  obtain ⟨name, body, decl⟩ := m
  rw [message]
  refine (Clean.of_kept fun _ => startMessage_spec _ _ _).bind fun _ => ?_
  have hbody := (List.nodup_cons.mp hm).2
  refine ((body_oneofs_clean.1 _ _ body {} hbody hl).imp (fun _ => MessageBuild.OneofsSound.empty)
    fun _ _ h => h).bind fun b => ?_
  exact (finishMessage_oneofs _ _ _ b).imp (fun h => ⟨h.1, MessageBuild.namesDistinct_of_body hbody h.2.1 h.2.2⟩)
    fun _ _ h => h

theorem extendBlock_oneofs (extBase typeBase : List Int) (scope : String) (x : Extend)
    (acc : Array FieldDescriptor × Array MessageDescriptor) (hx : (ExtendElement.bodyFullNames scope x.body).Nodup)
    (hl : ExtendElement.BodyLabelRules ctx.proto3 x.body) :
    Clean ctx (∀ md ∈ acc.2.toList, md.OneofsWellFormed) (extendBlock extBase typeBase scope x acc)
      fun r => ∀ md ∈ r.2.toList, md.OneofsWellFormed := by
  obtain ⟨extendee, body, decl⟩ := x
  rw [extendBlock]
  refine (Clean.of_kept fun _ => startExtend_spec _ _ _ _).bind fun resolved => ?_
  exact body_oneofs_clean.2.2.1 _ _ _ _ _ _ _ hx hl

theorem file_oneofs (hs : ctx.file.schema.fullNames.Nodup) (hl : ctx.file.schema.LabelRulesOf ctx.proto3) :
    Clean ctx True file fun fd => ∀ md ∈ fd.messageType, md.OneofsWellFormed := by
  obtain ⟨hmessages, -, hextends⟩ := SchemaFile.fullNames_parts hs
  unfold file
  refine Clean.read ?_
  dsimp only
  refine Clean.locate_bind ?_
  -- the version and package declarations only add locations: the rest is met four times
  split <;> (try refine Clean.locateDecl_bind ?_) <;> split <;> (try refine Clean.locateDecl_bind ?_)
  all_goals
    refine (Clean.of_kept fun _ => imports_spec _).bind fun _ => ?_
    refine (Clean.of_kept fun _ => interpretOptions_spec _ _ _ _).bind fun _ => ?_
    refine (Clean.foldlM_push (fun i m => message [4, (i : Int)] _ m) _
      fun _ m hm => message_oneofs _ _ m (hmessages m hm) (hl.1 m hm)).bind fun messages => ?_
    refine (Clean.foldlM (fun _ _ => _) _ [] #[]
      fun _ e _ _ => (Clean.of_kept fun _ => enumeration_spec _ _ _).bind fun _ => Clean.pure id).bind
      fun _ => ?_
    refine (Clean.foldlM (fun _ _ => _) _ [] #[]
      fun _ svc _ _ => (Clean.of_kept fun _ => service_spec _ _ _).bind fun _ => Clean.pure id).bind
      fun _ => ?_
    refine ((Clean.foldlM (fun _ acc => ∀ md ∈ acc.2.toList, md.OneofsWellFormed) _ [] (#[], messages)
      fun _ x acc hx => extendBlock_oneofs [7] [4] _ x acc (hextends x hx) (hl.2 x hx)).imp (fun h => h.2)
        fun _ _ h => h).bind fun r => ?_
    exact Clean.get_bind fun _ => Clean.pure id

end CompileM

/-- A file compiled without annotations, from a schema whose full names are distinct and
which keeps the label rules of the version it is compiled as, has messages laid out as a
descriptor requires, at any depth. -/
theorem compileFile_oneofs {ctx : CompileContext} (hs : ctx.file.schema.fullNames.Nodup)
    (hl : ctx.file.schema.LabelRulesOf ctx.proto3) (hclean : (compileFile ctx).2 = []) :
    ∀ md ∈ (compileFile ctx).1.messageType, md.OneofsWellFormed :=
  (CompileM.file_oneofs hs hl).of_run trivial {} rfl (Array.toList_eq_nil_iff.mp hclean)

end ProtoSchema
