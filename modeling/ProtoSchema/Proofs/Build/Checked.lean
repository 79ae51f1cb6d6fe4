import ProtoSchema.Proofs.Build.Result
import ProtoSchema.Proofs.Compile.Enums
import ProtoSchema.Proofs.Compile.Oneofs

/-!
What every file of a built image has passed. The compile pass stores a descriptor only when
compiling its file found no error (`compileAll_stored`), and a file that a symbol conflict
blames is broken before the compile pass and stays broken. So each file of the image is the
clean compile of a parsed file that declares each of its full names once
(`runBuild_compiled`), and the rules the compiler checks hold of the image as it is
returned: every message, at any depth, is well formed (`runBuild_messages_wellFormed`), and so
is every enum, at the top level or in a message at any depth (`runBuild_enums_wellFormed`).
-/

namespace ProtoSchema

open ImportGraph

/-- `d` is the descriptor of a clean compile in `ctx`: compiling found no error, and the file
was compiled as proto3 exactly when its schema says so. -/
structure CleanCompile (ctx : CompileContext) (d : FileDescriptor) : Prop where
  proto3 : ctx.proto3 = decide (ctx.file.schema.dialect = .proto3)
  clean : (compileFile ctx).2 = []
  descriptor : (compileFile ctx).1 = d

theorem CleanCompile.dialect_proto3 {ctx : CompileContext} {d : FileDescriptor}
    (hs : ctx.file.schema.DistinctFields) (hc : CleanCompile ctx d) :
    decide (d.dialect = some "proto3") = ctx.proto3 := by
  rw [← hc.descriptor, (compileFile_wellFormed hs hc.clean).1]
  cases ctx.proto3 <;> simp

section Stored

variable {files : Array ParsedFile} {table : SymbolTable} {sourceInfo : Bool}

def StoredClean (files : Array ParsedFile) (out : Array (Option FileDescriptor)) : Prop :=
  ∀ v d, out.getD v none = some d → ∃ ctx : CompileContext, files[v]? = some ctx.file ∧ CleanCompile ctx d

theorem compileStep_stored (r : ImportGraph × Array (Option FileDescriptor)) (i : Nat)
    (h : StoredClean files r.2) : StoredClean files (compileStep files table sourceInfo r i).2 := by
  obtain ⟨g, out⟩ := r
  unfold compileStep
  dsimp only
  split
  · exact h
  split
  · exact h
  split
  · exact h
  rename_i file hf
  split
  · -- a clean compile: its descriptor is stored at `i`, nothing else changes
    rename_i hfound
    intro v d hv
    rw [Array.getD_set!] at hv
    split at hv
    · rename_i hiv
      obtain ⟨rfl, -⟩ := hiv
      cases hv
      exact ⟨_, hf, rfl, by simpa using hfound, rfl⟩
    · exact h v d hv
  · exact h

/-- Every descriptor the compile pass keeps is a clean compile of its file. -/
theorem compileAll_stored (order : List Nat) (g : ImportGraph) :
    StoredClean files (compileAll files table sourceInfo order g).2 := by
  rw [compileAll_eq]
  refine List.foldlRecOn (motive := fun r => StoredClean files r.2) _ _ ?_ fun r hr i _ => compileStep_stored r i hr
  intro v d hv
  by_cases hlt : v < files.size <;> simp [Array.getD_eq_getD_getElem?, hlt] at hv

theorem compileAll_extends (order : List Nat) (g : ImportGraph) :
    Extends g (compileAll files table sourceInfo order g).1 := by
  rw [compileAll_eq]
  refine List.foldlRecOn (motive := fun r : ImportGraph × Array (Option FileDescriptor) => Extends g r.1) _ _
    (Extends.refl g) fun r hr i _ => ?_
  obtain ⟨g', out⟩ := r
  exact hr.trans (compileStep_extends table sourceInfo g' out i)

end Stored

theorem isBroken_foldl_conflictStep (files : Array ParsedFile) :
    ∀ (cs : List Conflict) (g : ImportGraph), ∀ c ∈ cs, c.file < g.broken.size →
      (cs.foldl (conflictStep files) g).isBroken c.file = true
  | [], _, _, hc, _ => absurd hc List.not_mem_nil
  | c' :: cs, g, c, hc, hlt => by
    rw [List.foldl_cons]
    rcases List.mem_cons.mp hc with rfl | hc
    · exact (foldl_conflictStep_extends files cs _).mono _ (isBroken_markBroken_self (by simpa using hlt))
    · exact isBroken_foldl_conflictStep files cs _ c hc (by simpa [conflictStep] using hlt)

theorem assemble_compiled (fs : FileSet) (p : Parsing) (sourceInfo : Bool)
    (hnamed : ∀ f ∈ p.files.toList, f.schema.PackageNamed) :
    ∀ imf ∈ (assemble fs p sourceInfo).2, ∃ ctx : CompileContext,
      ctx.file ∈ p.files.toList ∧ ctx.file.schema.fullNames.Nodup ∧ CleanCompile ctx imf.descriptor := by
  unfold assemble
  dsimp only
  generalize fs.files.filterMap (fun f => fileIndex? p.files f.name) = requested
  generalize hg₀ : ({ ofFiles p.files p.failed with
    annotations := p.annotations ++ (ofFiles p.files p.failed).annotations } : ImportGraph) = g₀
  have hs₀ : Shaped p.files g₀ := fun i => by rw [← hg₀]; exact deps_ofFiles p.files p.failed i
  have hb₀ : g₀.broken.size = p.files.size := by rw [← hg₀]; exact size_broken_ofFiles p.files p.failed
  obtain ⟨-, -, hext₁, -, -⟩ := order_spec hs₀ hb₀ requested
  generalize g₀.order p.files requested = ordered at hext₁
  obtain ⟨order, g₁⟩ := ordered
  dsimp only at hext₁ ⊢
  have hext₂ := propagate_extends p.files order g₁
  generalize propagate p.files order g₁ = g₂ at hext₂ ⊢
  have hb₂ : g₂.broken.size = p.files.size := by rw [hext₂.size, hext₁.size, hb₀]
  have hconf := SymbolTable.build_conflicts p.files (order.filter fun i => !g₂.isBroken i)
  generalize hbuilt : SymbolTable.build p.files (order.filter fun i => !g₂.isBroken i) = built at hconf ⊢
  -- the graph only gains marks from the conflicts to the end of the compile pass
  have hext₃ := (propagate_extends p.files order (built.2.foldl (conflictStep p.files) g₂)).trans
    (@compileAll_extends p.files built.1 sourceInfo order _)
  have hstored := @compileAll_stored p.files built.1 sourceInfo order
    (propagate p.files order (built.2.foldl (conflictStep p.files) g₂))
  generalize compileAll p.files built.1 sourceInfo order
    (propagate p.files order (built.2.foldl (conflictStep p.files) g₂)) = compiled at hext₃ hstored ⊢
  obtain ⟨g₅, out⟩ := compiled
  dsimp only at hext₃ hstored ⊢
  intro imf himf
  obtain ⟨v, hv, himf⟩ := List.mem_filterMap.mp himf
  unfold imageFileOf at himf
  split at himf
  · cases himf
  rename_i hbroken
  have hb₅ : g₅.isBroken v = false := by simpa using hbroken
  split at himf
  · rename_i d f hd hf
    cases himf
    obtain ⟨ctx, hctx, hclean⟩ := hstored v d hd
    rw [hf] at hctx
    cases hctx
    refine ⟨ctx, Array.mem_toList_iff.mpr (Array.mem_of_getElem? hf), ?_, hclean⟩
    have hclear : ∀ x ∈ built.2, x.file ≠ v := by
      rintro x hx rfl
      have hbx := isBroken_foldl_conflictStep p.files built.2 g₂ x hx (by rw [hb₂]; exact (hconf x hx).2)
      rw [hext₃.mono _ hbx] at hb₅
      cases hb₅
    have hv₂ : g₂.isBroken v = false :=
      (foldl_conflictStep_extends p.files built.2 g₂).isBroken_false (hext₃.isBroken_false hb₅)
    rw [← hbuilt] at hclear
    exact SymbolTable.build_fullNames_nodup hnamed (List.mem_filter.mpr ⟨hv, by simp [hv₂]⟩) hf hclear
  · cases himf

theorem runBuild_compiled_parsed {bucket : Bucket} {fs : FileSet} {includeImports sourceInfo cancelled : Bool}
    {r : BuildResult} (h : runBuild bucket fs includeImports sourceInfo cancelled = .ok r) :
    ∀ imf ∈ r.image.files, ∃ ctx : CompileContext,
      ctx.file.schema.fullNames.Nodup ∧ ctx.file.schema.LabelRules ∧ CleanCompile ctx imf.descriptor := by
  cases cancelled with
  | true =>
    -- a cancelled build stops at once
    simp only [runBuild, if_true] at h
    obtain ⟨_, h, -⟩ := Except.bind_eq_ok.mp h
    cases h
  | false =>
    cases hp : parseAll bucket fs with
    | error e =>
      rw [runBuild_of_error hp] at h
      cases h
    | ok p =>
      rw [runBuild_eq hp, Except.bind_eq_ok] at h
      obtain ⟨image, himage, h⟩ := h
      cases h
      obtain ⟨-, rfl⟩ := Image.validate_eq_ok.mp (Except.mapError_eq_ok.mp himage)
      have hnamed : ∀ f ∈ p.files.toList, f.schema.PackageNamed := by
        intro f hf
        obtain ⟨src, -, -, hload⟩ := (parseAll_inv hp).1.files f hf
        exact loadSource_packageNamed hload
      intro imf himf
      have hmem : imf ∈ (assemble fs p sourceInfo).2 := by
        cases includeImports
        · exact List.mem_of_mem_filter himf
        · exact himf
      obtain ⟨ctx, hfile, hnd, hclean⟩ := assemble_compiled fs p sourceInfo hnamed imf hmem
      obtain ⟨src, -, -, hload⟩ := (parseAll_inv hp).1.files ctx.file hfile
      exact ⟨ctx, hnd, loadSource_labelRules hload, hclean⟩

/-- Every file of an image a build returns is the clean compile of a parsed file that declares
each of its full names once. -/
theorem runBuild_compiled {bucket : Bucket} {fs : FileSet} {includeImports sourceInfo cancelled : Bool}
    {r : BuildResult} (h : runBuild bucket fs includeImports sourceInfo cancelled = .ok r) :
    ∀ imf ∈ r.image.files, ∃ ctx : CompileContext,
      ctx.file.schema.fullNames.Nodup ∧ CleanCompile ctx imf.descriptor :=
  fun imf himf => (runBuild_compiled_parsed h imf himf).imp fun _ hc => ⟨hc.1, hc.2.2⟩

/-- Every message of every file of an image a build returns, at any depth, is well formed: its
fields have distinct names and distinct numbers, each a field number outside the numbers the
protocol keeps, outside the message's reserved and extension ranges and of no reserved name;
its ranges are non-empty ranges of field numbers; and in a proto3 file the default JSON names of
its fields, the camel-case forms of their names, are distinct up to ASCII case. -/
theorem runBuild_messages_wellFormed {bucket : Bucket} {fs : FileSet}
    {includeImports sourceInfo cancelled : Bool} {r : BuildResult}
    (h : runBuild bucket fs includeImports sourceInfo cancelled = .ok r) :
    ∀ f ∈ r.image.files, ∀ md ∈ f.descriptor.messageType,
      md.WellFormed (f.descriptor.dialect = some "proto3") := by
  intro f hf md hmd
  obtain ⟨ctx, hnd, hclean⟩ := runBuild_compiled h f hf
  have hs := SchemaFile.distinctFields_of_nodup hnd
  rw [hclean.dialect_proto3 hs]
  rw [← hclean.descriptor] at hmd
  exact (compileFile_wellFormed hs hclean.clean).2 md hmd

/-! ### A file whose custom JSON name repeats a default one

The proto3 check compares the default JSON names of the fields, not the names a `json_name`
option sets: a field `a` named `b` in JSON beside a field `b` builds, and the image holds two
fields whose JSON names are equal. -/

def jsonClashText : String :=
  "syntax = \"proto3\";\nmessage A \x7b int32 a = 1 [json_name = \"b\"]; int32 b = 2; \x7d"

def jsonClashBucket : Bucket := ⟨[("a.proto", jsonClashText.toUTF8.toList)]⟩

def jsonClashFileSet : FileSet := { roots := ["."], files := [⟨".", "a.proto", "a.proto"⟩] }

def jsonClashParsed : Parsing := (parseAll jsonClashBucket jsonClashFileSet).toOption.getD {}

theorem jsonClash_inputs :
    Bucket.ofFiles [("a.proto", jsonClashText.toUTF8.toList)] = .ok jsonClashBucket ∧
      FileSet.resolve jsonClashBucket {} = .ok jsonClashFileSet :=
  ⟨Except.eq_ok_iff_toOption.mpr (by decide +kernel), Except.eq_ok_iff_toOption.mpr (by decide +kernel)⟩

theorem parseAll_jsonClash : parseAll jsonClashBucket jsonClashFileSet = .ok jsonClashParsed :=
  parseAll_eq_of_isSome (by decide +kernel)

theorem runBuild_jsonClash :
    runBuild jsonClashBucket jsonClashFileSet true false false =
      .ok { image := ⟨(assemble jsonClashFileSet jsonClashParsed false).2⟩,
            annotations :=
              Annotation.sortAndDedup (assemble jsonClashFileSet jsonClashParsed false).1.annotations.toList } :=
  runBuild_eq_assembled jsonClash_inputs.1 jsonClash_inputs.2 parseAll_jsonClash false

theorem runBuild_messages_wellFormed_jsonClash :
    ∃ r, runBuild jsonClashBucket jsonClashFileSet true false false = .ok r ∧
      ∀ f ∈ r.image.files, ∀ md ∈ f.descriptor.messageType,
        md.WellFormed (f.descriptor.dialect = some "proto3") :=
  ⟨_, runBuild_jsonClash, runBuild_messages_wellFormed runBuild_jsonClash⟩

theorem assemble_jsonClash_repeats :
    ∃ f ∈ (assemble jsonClashFileSet jsonClashParsed false).2, f.descriptor.dialect = some "proto3" ∧
      ∃ md ∈ f.descriptor.messageType, ¬(md.field.map fun fd => (fd.jsonName.getD "").map asciiLower).Nodup := by
  unfold assemble
  dsimp only
  -- the table itself is never read here; its conflicts are, and the file declares no name twice
  generalize hB : SymbolTable.build jsonClashParsed.files _ = B
  have hnil : B.2 = [] := by
    rw [← hB]
    apply SymbolTable.build_conflicts_nil
    · intro i _ f hf
      have hpkg : ∀ f ∈ jsonClashParsed.files.toList, f.schema.package.isNone = true := by decide +kernel
      exact Option.isNone_iff_eq_none.mp (hpkg f (Array.mem_toList_iff.mpr (Array.mem_of_getElem? hf)))
    · decide +kernel
  obtain ⟨t, cs⟩ := B
  simp only at hnil
  subst hnil
  have ht := congrArg Prod.fst hB
  simp only at ht
  subst ht
  decide +kernel

/-- A build returns an image with a proto3 message whose fields' JSON names, lower-cased, are not
distinct. -/
theorem runBuild_jsonName_repeated :
    Bucket.ofFiles [("a.proto", jsonClashText.toUTF8.toList)] = .ok jsonClashBucket ∧
      FileSet.resolve jsonClashBucket {} = .ok jsonClashFileSet ∧
      ∃ r, runBuild jsonClashBucket jsonClashFileSet true false false = .ok r ∧
        ∃ f ∈ r.image.files, f.descriptor.dialect = some "proto3" ∧
          ∃ md ∈ f.descriptor.messageType,
            ¬(md.field.map fun fd => (fd.jsonName.getD "").map asciiLower).Nodup :=
  ⟨jsonClash_inputs.1, jsonClash_inputs.2, _, runBuild_jsonClash, assemble_jsonClash_repeats⟩

/-- Every enum of every file of an image a build returns, at the top level or in a message at any
depth, is well formed: it has a value, each value has a 32-bit number, in a proto3 file the first
is zero, the value names are distinct, two values share a number exactly when the enum allows
aliases, no value uses a reserved number or name, and each reserved range, both ends included,
starts at most where it ends. -/
theorem runBuild_enums_wellFormed {bucket : Bucket} {fs : FileSet}
    {includeImports sourceInfo cancelled : Bool} {r : BuildResult}
    (h : runBuild bucket fs includeImports sourceInfo cancelled = .ok r) :
    ∀ f ∈ r.image.files,
      (∀ ed ∈ f.descriptor.enumType, ed.WellFormed (f.descriptor.dialect = some "proto3")) ∧
        ∀ md ∈ f.descriptor.messageType, md.EnumsWellFormed (f.descriptor.dialect = some "proto3") := by
  intro f hf
  obtain ⟨ctx, hnd, hclean⟩ := runBuild_compiled h f hf
  rw [hclean.dialect_proto3 (SchemaFile.distinctFields_of_nodup hnd), ← hclean.descriptor]
  exact compileFile_enums hnd hclean.clean

def enumSampleText : String :=
  "syntax = \"proto3\";\nenum Mode \x7b option allow_alias = true; OFF = 0; NONE = 0; ON = 1; " ++
    "reserved 5 to 9; reserved \"AUTO\"; \x7d\nmessage Lamp \x7b enum Kind \x7b BULB = 0; \x7d Kind kind = 1; " ++
    "Mode mode = 2; \x7d"

def enumSampleBucket : Bucket := ⟨[("a.proto", enumSampleText.toUTF8.toList)]⟩

def enumSampleFileSet : FileSet := { roots := ["."], files := [⟨".", "a.proto", "a.proto"⟩] }

theorem enumSample_inputs :
    Bucket.ofFiles [("a.proto", enumSampleText.toUTF8.toList)] = .ok enumSampleBucket ∧
      FileSet.resolve enumSampleBucket {} = .ok enumSampleFileSet :=
  ⟨Except.eq_ok_iff_toOption.mpr (by decide +kernel), Except.eq_ok_iff_toOption.mpr (by decide +kernel)⟩

theorem runBuild_enumSample :
    runBuild enumSampleBucket enumSampleFileSet true false false =
      .ok { image := ⟨(assemble enumSampleFileSet ((parseAll enumSampleBucket enumSampleFileSet).toOption.getD {})
              false).2⟩,
            annotations := Annotation.sortAndDedup (assemble enumSampleFileSet
              ((parseAll enumSampleBucket enumSampleFileSet).toOption.getD {}) false).1.annotations.toList } :=
  runBuild_eq_assembled enumSample_inputs.1 enumSample_inputs.2 (parseAll_eq_of_isSome (by decide +kernel)) false

theorem runBuild_enums_wellFormed_sample :
    ∃ r, runBuild enumSampleBucket enumSampleFileSet true false false = .ok r ∧
      ∀ f ∈ r.image.files,
        (∀ ed ∈ f.descriptor.enumType, ed.WellFormed (f.descriptor.dialect = some "proto3")) ∧
          ∀ md ∈ f.descriptor.messageType, md.EnumsWellFormed (f.descriptor.dialect = some "proto3") :=
  ⟨_, runBuild_enumSample, runBuild_enums_wellFormed runBuild_enumSample⟩

/-- Every message of every file of an image a build returns, at any depth, has its fields and
oneofs laid out as a descriptor requires: each field names an existing oneof, the members of
each oneof are a non-empty run of consecutive fields, the proto3 `optional` fields are exactly
the members of the oneofs after the written ones, one field to each, and the oneofs have
distinct names, none the name of a field. -/
theorem runBuild_oneofs_wellFormed {bucket : Bucket} {fs : FileSet}
    {includeImports sourceInfo cancelled : Bool} {r : BuildResult}
    (h : runBuild bucket fs includeImports sourceInfo cancelled = .ok r) :
    ∀ f ∈ r.image.files, ∀ md ∈ f.descriptor.messageType, md.OneofsWellFormed := by
  intro f hf
  obtain ⟨ctx, hnd, hl, hclean⟩ := runBuild_compiled_parsed h f hf
  rw [← hclean.descriptor]
  have hl' : ctx.file.schema.LabelRulesOf ctx.proto3 := by
    rw [hclean.proto3]
    exact hl
  exact compileFile_oneofs hnd hl' hclean.clean

def oneofSampleText : String :=
  "syntax = \"proto3\";\nmessage Pet \x7b oneof _age \x7b string dog = 1; string cat = 2; \x7d " ++
    "optional int32 age = 3; int32 X_age = 4; \x7d"

def oneofSampleBucket : Bucket := ⟨[("a.proto", oneofSampleText.toUTF8.toList)]⟩

def oneofSampleFileSet : FileSet := { roots := ["."], files := [⟨".", "a.proto", "a.proto"⟩] }

theorem oneofSample_inputs :
    Bucket.ofFiles [("a.proto", oneofSampleText.toUTF8.toList)] = .ok oneofSampleBucket ∧
      FileSet.resolve oneofSampleBucket {} = .ok oneofSampleFileSet :=
  ⟨Except.eq_ok_iff_toOption.mpr (by decide +kernel), Except.eq_ok_iff_toOption.mpr (by decide +kernel)⟩

theorem runBuild_oneofSample :
    runBuild oneofSampleBucket oneofSampleFileSet true false false =
      .ok { image := ⟨(assemble oneofSampleFileSet ((parseAll oneofSampleBucket oneofSampleFileSet).toOption.getD {})
              false).2⟩,
            annotations := Annotation.sortAndDedup (assemble oneofSampleFileSet
              ((parseAll oneofSampleBucket oneofSampleFileSet).toOption.getD {}) false).1.annotations.toList } :=
  runBuild_eq_assembled oneofSample_inputs.1 oneofSample_inputs.2 (parseAll_eq_of_isSome (by decide +kernel)) false

theorem runBuild_oneofs_wellFormed_pet :
    ∃ r, runBuild oneofSampleBucket oneofSampleFileSet true false false = .ok r ∧
      ∀ f ∈ r.image.files, ∀ md ∈ f.descriptor.messageType, md.OneofsWellFormed :=
  ⟨_, runBuild_oneofSample, runBuild_oneofs_wellFormed runBuild_oneofSample⟩

end ProtoSchema
