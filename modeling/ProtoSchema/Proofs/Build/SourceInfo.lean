import ProtoSchema.Proofs.Build.Checked
import ProtoSchema.Proofs.Compile.FileLocations
import ProtoSchema.Proofs.SymbolTable.Records

/-!
The source info of a built image. The compile pass compiles each file with the build's source
info flag and stores a descriptor only when compiling found no error (`compileAll_storedFrom`),
so every file of an image a build returns is such a compile of its parsed file. With source
info wanted, each file then carries it, and every path in it is one the descriptor admits, but
the path of a version statement that leaves the version unset (`runBuild_sourcePaths_admitted`).
-/

namespace ProtoSchema

open ImportGraph

def StoredFrom (files : Array ParsedFile) (table : SymbolTable) (sourceInfo : Bool)
    (out : Array (Option FileDescriptor)) : Prop :=
  ∀ v d, out.getD v none = some d → ∃ ctx : CompileContext, files[v]? = some ctx.file ∧ ctx.table = table ∧
    ctx.sourceInfo = sourceInfo ∧ (compileFile ctx).2 = [] ∧ (compileFile ctx).1 = d

section Stored

variable {files : Array ParsedFile} {table : SymbolTable} {sourceInfo : Bool}

theorem compileStep_storedFrom (r : ImportGraph × Array (Option FileDescriptor)) (i : Nat)
    (h : StoredFrom files table sourceInfo r.2) :
    StoredFrom files table sourceInfo (compileStep files table sourceInfo r i).2 := by
  obtain ⟨g, out⟩ := r
  unfold compileStep
  dsimp only
  split
  · exact h
  split
  · exact h
  split
  · exact h
  rename_i file hf
  split
  · -- a clean compile: its descriptor is stored at `i`, nothing else changes
    rename_i hfound
    intro v d hv
    rw [Array.getD_set!] at hv
    split at hv
    · rename_i hiv
      obtain ⟨rfl, -⟩ := hiv
      cases hv
      exact ⟨_, hf, rfl, rfl, by simpa using hfound, rfl⟩
    · exact h v d hv
  · exact h

/-- Every descriptor the compile pass keeps is a clean compile of its file with the build's source
info flag. -/
theorem compileAll_storedFrom (order : List Nat) (g : ImportGraph) :
    StoredFrom files table sourceInfo (compileAll files table sourceInfo order g).2 := by
  rw [compileAll_eq]
  refine List.foldlRecOn (motive := fun r => StoredFrom files table sourceInfo r.2) _ _ ?_
    fun r hr i _ => compileStep_storedFrom r i hr
  intro v d hv
  by_cases hlt : v < files.size <;> simp [Array.getD_eq_getD_getElem?, hlt] at hv

end Stored

theorem assemble_storedFrom (fs : FileSet) (p : Parsing) (sourceInfo : Bool) :
    ∀ imf ∈ (assemble fs p sourceInfo).2, ∃ ctx : CompileContext, ctx.sourceInfo = sourceInfo ∧
      (compileFile ctx).2 = [] ∧ (compileFile ctx).1 = imf.descriptor ∧
      imf.syntaxUnspecified = ctx.file.schema.dialectDecl.isNone ∧
      ∃ order, ctx.table = (SymbolTable.build p.files order).1 := by
  intro imf himf
  unfold assemble at himf
  obtain ⟨v, -, himf⟩ := List.mem_filterMap.mp himf
  unfold imageFileOf at himf
  split at himf
  · cases himf
  split at himf
  · rename_i d f hd hf
    cases himf
    obtain ⟨ctx, hctx, htable, hinfo, hclean, hd⟩ := compileAll_storedFrom _ _ v d hd
    rw [hf] at hctx
    cases hctx
    exact ⟨ctx, hinfo, hclean, hd, rfl, _, htable⟩
  · cases himf

theorem runBuild_assembled {bucket : Bucket} {fs : FileSet} {includeImports sourceInfo cancelled : Bool}
    {r : BuildResult} (h : runBuild bucket fs includeImports sourceInfo cancelled = .ok r) :
    ∃ p, parseAll bucket fs = .ok p ∧ ∀ imf ∈ r.image.files, imf ∈ (assemble fs p sourceInfo).2 := by
  cases cancelled with
  | true =>
    -- a cancelled build stops at once
    simp only [runBuild, if_true] at h
    obtain ⟨_, h, -⟩ := Except.bind_eq_ok.mp h
    cases h
  | false =>
    cases hp : parseAll bucket fs with
    | error e =>
      rw [runBuild_of_error hp] at h
      cases h
    | ok p =>
      rw [runBuild_eq hp, Except.bind_eq_ok] at h
      obtain ⟨image, himage, h⟩ := h
      cases h
      obtain ⟨-, rfl⟩ := Image.validate_eq_ok.mp (Except.mapError_eq_ok.mp himage)
      refine ⟨p, rfl, fun imf himf => ?_⟩
      cases includeImports
      · exact List.mem_of_mem_filter himf
      · exact himf

def DeclaredExtensionNumber (files : Array ParsedFile) (k : Int) : Prop :=
  ∃ (i : Nat) (f : ParsedFile), files[i]? = some f ∧ ∃ d ∈ f.schema.decls i, ∃ extendee scope n,
    d.info = .extension extendee scope n ∧ k = wrapInt32 n

theorem declaredExtensionNumber_of_build {files : Array ParsedFile} {order : List Nat}
    (hnamed : ∀ f ∈ files.toList, f.schema.PackageNamed) {ctx : CompileContext}
    (ht : ctx.table = (SymbolTable.build files order).1) {k : Int} (hk : ctx.ExtensionNumber k) :
    DeclaredExtensionNumber files k := by
  obtain ⟨full, s, extendee, scope, n, hget, hinfo, rfl⟩ := hk
  rw [ht] at hget
  obtain ⟨i, -, f, hf, d, hd, hdi⟩ := (SymbolTable.build_recorded_of_named hnamed order).declared_of_get hget
    fun fs h => by rw [hinfo] at h; cases h
  exact ⟨i, f, hf, d, hd, extendee, scope, n, hdi.symm.trans hinfo, rfl⟩

/-- A build that wants source info returns each file of its image with source info, and every
path in it designates an element of the file's descriptor, or ends, after an options message
that keeps a custom option, in the field number of an extension a parsed file declares; the
one exception is the path of the version statement of a file whose statement leaves the
version unset. -/
theorem runBuild_sourcePaths_admitted {bucket : Bucket} {fs : FileSet} {includeImports cancelled : Bool}
    {r : BuildResult} (h : runBuild bucket fs includeImports true cancelled = .ok r) :
    ∃ p, parseAll bucket fs = .ok p ∧ ∀ imf ∈ r.image.files, ∃ ls, imf.descriptor.sourceCodeInfo = some ls ∧
      ∀ l ∈ ls, imf.descriptor.toValue.Admits (DeclaredExtensionNumber p.files) l.path ∨
        (l.path = [12] ∧ imf.descriptor.dialect = none ∧ imf.syntaxUnspecified = false) := by
  obtain ⟨p, hp, hmem⟩ := runBuild_assembled h
  refine ⟨p, hp, fun imf himf => ?_⟩
  obtain ⟨ctx, hinfo, hclean, hd, hunset, order, htable⟩ := assemble_storedFrom fs p true imf (hmem imf himf)
  obtain ⟨hsome, hpaths⟩ := compileFile_sourcePaths ctx hclean
  rw [hd] at hsome hpaths
  rw [hinfo] at hsome
  obtain ⟨ls, hls⟩ := Option.isSome_iff_exists.mp hsome
  have hnumber := fun k => declaredExtensionNumber_of_build (parseAll_named_distinct hp).1 htable (k := k)
  refine ⟨ls, hls, fun l hl => (hpaths ls hls l hl).imp (fun ha => ha.mono hnumber)
    fun h => ⟨h.1, h.2.1, ?_⟩⟩
  have hdecl := h.2.2
  rw [hunset]
  revert hdecl
  cases ctx.file.schema.dialectDecl <;> simp

/-- A build of the enum sample with source info wanted. -/
theorem runBuild_sourcePaths_enumSample :
    ∃ r, runBuild enumSampleBucket enumSampleFileSet true true false = .ok r ∧
      ∃ p, parseAll enumSampleBucket enumSampleFileSet = .ok p ∧ ∀ imf ∈ r.image.files, ∃ ls,
        imf.descriptor.sourceCodeInfo = some ls ∧
        ∀ l ∈ ls, imf.descriptor.toValue.Admits (DeclaredExtensionNumber p.files) l.path ∨
          (l.path = [12] ∧ imf.descriptor.dialect = none ∧ imf.syntaxUnspecified = false) :=
  have hrun := runBuild_eq_assembled enumSample_inputs.1 enumSample_inputs.2
    (parseAll_eq_of_isSome (by decide +kernel)) true
  ⟨_, hrun, runBuild_sourcePaths_admitted hrun⟩

end ProtoSchema
