import ProtoSchema.Proofs.Build.Checked
import ProtoSchema.Proofs.Build.Visible
import ProtoSchema.Proofs.Compile.Resolved

/-!
Where the type references of a built image lead. Every descriptor the compile pass keeps was
compiled in the build's files and symbol table, with the files visible from its file
(`compileAll_linked`); the table's types are declared by the files it names, so every reference
resolves to a type of the file or of a file it re-exports (`compileFile_resolves`). Each of those
is assembled too, and the file sees it in the image, through its imports and then public imports,
each of which its importer lists among its public dependencies (`reexports_sees`); in a valid
image it stands before the file. So every type reference of a built image is declared by its file
or by a file of the image that the file sees and that stands before it
(`runBuild_typeRefs_declared`).
-/

namespace ProtoSchema

namespace CompileM

variable {ctx : CompileContext}

theorem imports_public (is : List Import) :
    Yields ctx (imports is) fun r => ∀ (k : Nat) (imp : Import), is[k]? = some imp → imp.kind = .exported →
      (k : Int) ∈ r.2.1 := by
  unfold imports
  refine (Yields.foldlM (fun d acc => ∀ x ∈ d, x.1.kind = .exported → (x.2 : Int) ∈ acc.2.1) ?_ is.zipIdx [] _
    (by simp)).bind ?_
  · rintro d ⟨i, k⟩ ⟨deps, pub, weak⟩ h
    -- a public import is listed by its index; the others list nothing
    have hother : i.kind ≠ .exported → ∀ x ∈ d ++ [(i, k)], x.1.kind = .exported → (x.2 : Int) ∈ pub := by
      intro hi x hx hk
      rcases List.mem_append.mp hx with hx | hx
      · exact h x hx hk
      · rw [List.mem_singleton.mp hx] at hk
        exact absurd hk hi
    refine Yields.seq fun _ => ?_
    split
    · refine Yields.seq fun _ => Yields.pure fun x hx hk => ?_
      rcases List.mem_append.mp hx with hx | hx
      · exact Array.mem_push_of_mem _ (h x hx hk)
      · rw [List.mem_singleton.mp hx]
        exact Array.mem_push_self
    · rename_i hkind
      exact Yields.seq fun _ => Yields.pure (hother (by simp [hkind]))
    · rename_i hkind
      exact Yields.pure (hother (by simp [hkind]))
  · rintro ⟨deps, pub, weak⟩ h
    exact Yields.pure fun k imp himp hk => by simpa using h (imp, k) (List.mem_zipIdx_iff_getElem?.mpr himp) hk

theorem file_publicDependency :
    Yields ctx file fun fd => ∀ (k : Nat) (imp : Import), ctx.file.schema.imports[k]? = some imp →
      imp.kind = .exported → (k : Int) ∈ fd.publicDependency := by
  unfold file
  apply Yields.read
  dsimp only
  repeat (first
    | refine Yields.bind (imports_public _) fun r hr => ?_
    | refine Yields.seq fun _ => ?_
    | exact Yields.pure hr
    | split)

end CompileM

theorem compileFile_publicDependency (ctx : CompileContext) {k : Nat} {imp : Import}
    (himp : ctx.file.schema.imports[k]? = some imp) (hk : imp.kind = .exported) :
    (k : Int) ∈ (compileFile ctx).1.publicDependency :=
  CompileM.file_publicDependency {} k imp himp hk

open ImportGraph

theorem ImportGraph.Reexports.of_shaped {files : Array ParsedFile} {g g' : ImportGraph} (hg : Shaped files g)
    (hg' : Shaped files g') {i x : Nat} (h : Reexports files g i x) : Reexports files g' i x := by
  induction h with
  | direct ht =>
    refine .direct ?_
    rwa [targets, hg', ← hg]
  | throughPublic _ he ih =>
    obtain ⟨f, k, imp, hf, himp, hkind, hk⟩ := he
    exact .throughPublic ih ⟨f, k, imp, hf, himp, hkind, by rwa [hg', ← hg]⟩

section Stored

variable {files : Array ParsedFile} {table : SymbolTable} {sourceInfo : Bool}

def StoredLinked (files : Array ParsedFile) (table : SymbolTable) (out : Array (Option FileDescriptor)) : Prop :=
  ∀ v d, out.getD v none = some d → ∃ ctx : CompileContext, ctx.files = files ∧ ctx.table = table ∧
    files[v]? = some ctx.file ∧ (∃ g, Shaped files g ∧ ctx.visible = g.visibleFiles files v) ∧
      (compileFile ctx).1 = d

theorem compileStep_linked (r : ImportGraph × Array (Option FileDescriptor)) (i : Nat) (hs : Shaped files r.1)
    (h : StoredLinked files table r.2) : StoredLinked files table (compileStep files table sourceInfo r i).2 := by
  obtain ⟨g, out⟩ := r
  unfold compileStep
  dsimp only
  split
  · exact h
  split
  · exact h
  split
  · exact h
  rename_i file hf
  split
  · -- a clean compile: its descriptor is stored at `i`, in the graph after the imports are checked
    intro v d hv
    rw [Array.getD_set!] at hv
    split at hv
    · rename_i hiv
      obtain ⟨rfl, -⟩ := hiv
      cases hv
      exact ⟨_, rfl, rfl, hf, ⟨_, (markBrokenImports_extends files g _).shaped hs, rfl⟩, rfl⟩
    · exact h v d hv
  · exact h

/-- Every descriptor the compile pass keeps is compiled in the build's files and table, with the
files visible from its file. The pass keeps where imports point, so its first graph has the
build's imports when its last one has. -/
theorem compileAll_linked (order : List Nat) {g : ImportGraph}
    (hs : Shaped files (compileAll files table sourceInfo order g).1) :
    StoredLinked files table (compileAll files table sourceInfo order g).2 := by
  have hs₀ : Shaped files g := fun i => by rw [← (compileAll_extends order g).deps]; exact hs i
  rw [compileAll_eq]
  refine (List.foldlRecOn (motive := fun r => Shaped files r.1 ∧ StoredLinked files table r.2) _ _ ?_
    fun r hr i _ => ⟨?_, compileStep_linked r i hr.1 hr.2⟩).2
  · refine ⟨hs₀, fun v d hv => ?_⟩
    by_cases hlt : v < files.size <;> simp [Array.getD_eq_getD_getElem?, hlt] at hv
  · obtain ⟨g', out⟩ := r
    exact (compileStep_extends table sourceInfo g' out i).shaped hr.1

end Stored

theorem assemble_linked (fs : FileSet) (p : Parsing) (sourceInfo : Bool)
    (hnamed : ∀ f ∈ p.files.toList, f.schema.PackageNamed) (hs : Shaped p.files (assemble fs p sourceInfo).1) :
    ∀ imf ∈ (assemble fs p sourceInfo).2, ∃ (v : Nat) (ctx : CompileContext), p.files[v]? = some ctx.file ∧
      ctx.files = p.files ∧ Collected.TypesDeclared ctx.files { table := ctx.table } ∧
      (∃ g, Shaped p.files g ∧ ctx.visible = g.visibleFiles p.files v) ∧ imf.descriptor = (compileFile ctx).1 := by
  intro imf himf
  unfold assemble at himf hs
  obtain ⟨v, -, himf⟩ := List.mem_filterMap.mp himf
  unfold imageFileOf at himf
  split at himf
  · cases himf
  split at himf
  · rename_i d f hd hf
    cases himf
    obtain ⟨ctx, hfiles, htable, hctx, hvis, hd'⟩ := compileAll_linked _ hs v d hd
    -- the table is built from the parsed files, so its types are declared where it says
    refine ⟨v, ctx, hctx, hfiles, ?_, hvis, hd'.symm⟩
    rw [hfiles, htable]
    exact SymbolTable.build_typesDeclared _ hnamed
  · cases himf

section Assembly

variable {files : Array ParsedFile} {requested : List Nat} {g : ImportGraph}
  {out : Array (Option FileDescriptor)} {order : List Nat}

theorem imageFileOf_compiled (hc : Compiled files order (g, out)) {v : Nat} (hv : v ∈ order)
    {imf : ImageFile} (h : imageFileOf files requested g out v = some imf) :
    ∃ ctx : CompileContext, files[v]? = some ctx.file ∧ imf.descriptor = (compileFile ctx).1 := by
  unfold imageFileOf at h
  split at h
  · cases h
  rename_i hb
  obtain ⟨-, ctx, hfile, hout⟩ := hc v hv (by simpa using hb)
  rw [hout, hfile] at h
  cases h
  exact ⟨ctx, hfile, rfl⟩

theorem import_assembled (hs : Shaped files g) (hc : Compiled files order (g, out)) {d : Nat} (hd : d ∈ order)
    (hdb : g.isBroken d = false) {f : ParsedFile} (hf : files[d]? = some f) {imp : Import}
    (himp : imp ∈ f.schema.imports) {t : Nat} (ht : fileIndex? files imp.path.value = some t) :
    t ∈ order ∧ g.isBroken t = false ∧
      ∃ G, imageFileOf files requested g out t = some G ∧ G.name = imp.path.value := by
  obtain ⟨htord, htb⟩ := (hc d hd hdb).1 t ((mem_targets hs hf).mpr ⟨imp, himp, ht⟩)
  obtain ⟨G, hG⟩ : ∃ G, imageFileOf files requested g out t = some G :=
    Option.isSome_iff_exists.mp (imageFileOf_isSome hc htord htb)
  obtain ⟨-, tf, htf, hGname, -⟩ := imageFileOf_eq_some hc htord hG
  obtain ⟨tf', htf', hname⟩ := name_of_fileIndex? ht
  rw [htf] at htf'
  cases htf'
  exact ⟨htord, htb, G, hG, hGname.trans hname⟩

/-- Every file an assembled file re-exports is assembled too, and the file sees it in the image:
the induction follows the public imports, each one listed by the compile of its importer. -/
theorem reexports_sees (hs : Shaped files g) (hc : Compiled files order (g, out)) {v : Nat} (hv : v ∈ order)
    {F : ImageFile} (hF : imageFileOf files requested g out v = some F) {x : Nat} (hx : Reexports files g v x) :
    x ∈ order ∧ g.isBroken x = false ∧ ∃ G, imageFileOf files requested g out x = some G ∧
      Image.Sees ⟨order.filterMap (imageFileOf files requested g out)⟩ F G := by
  obtain ⟨hvb, file, hfile, -, hFimports, -⟩ := imageFileOf_eq_some hc hv hF
  induction hx with
  | @direct t ht =>
    -- a file imported directly is named among the imports
    obtain ⟨imp, himp, hidx⟩ := (mem_targets hs hfile).mp ht
    obtain ⟨htord, htb, G, hG, hGname⟩ := import_assembled hs hc hv hvb hfile himp hidx
    refine ⟨htord, htb, G, hG, .imported (List.mem_filterMap.mpr ⟨t, htord, hG⟩) ?_⟩
    rw [hFimports, hGname]
    exact List.mem_map_of_mem himp
  | @throughPublic d t _ he ih =>
    obtain ⟨hdord, hdb, D, hD, hsees⟩ := ih
    obtain ⟨f, k, imp, hf, himp, hkind, hk⟩ := he
    have hidx : fileIndex? files imp.path.value = some t := by
      rw [hs d, importTargets, hf] at hk
      simpa [himp] using hk
    obtain ⟨htord, htb, G, hG, hGname⟩ := import_assembled hs hc hdord hdb hf (List.mem_of_getElem? himp) hidx
    obtain ⟨-, df, hdf, -, hDimports, -⟩ := imageFileOf_eq_some hc hdord hD
    obtain ⟨ctxd, hctxd, hDdesc⟩ := imageFileOf_compiled hc hdord hD
    rw [hf] at hdf hctxd
    cases hdf
    cases hctxd
    refine ⟨htord, htb, G, hG, .reexported hsees (List.mem_filterMap.mpr ⟨t, htord, hG⟩) ⟨k, ?_, ?_⟩⟩
    · rw [hDdesc]
      exact compileFile_publicDependency ctxd himp hkind
    · rw [hDimports, hGname, List.getElem?_map, himp]
      rfl

end Assembly

theorem assemble_typeRefs_declared (fs : FileSet) (p : Parsing) (sourceInfo : Bool)
    (hnamed : ∀ f ∈ p.files.toList, f.schema.PackageNamed) (hnames : (p.files.toList.map (·.name)).Nodup)
    (hvalid : Image.Valid true (assemble fs p sourceInfo).2) :
    ∀ f ∈ (assemble fs p sourceInfo).2, ∀ ref ∈ f.descriptor.typeRefs, ref.DeclaredIn f.descriptor ∨
      ∃ g, Image.Sees ⟨(assemble fs p sourceInfo).2⟩ f g ∧ Image.Precedes ⟨(assemble fs p sourceInfo).2⟩ g f ∧
        ref.DeclaredIn g.descriptor := by
  intro F hF ref href
  obtain ⟨order, out, himage, -, -, hs, hc, -⟩ := assemble_facts fs p sourceInfo
  obtain ⟨v', ctx, hctx, hfiles, hT, ⟨g', hs', hvis⟩, hdesc⟩ := assemble_linked fs p sourceInfo hnamed hs F hF
  obtain ⟨v, hv, hFv⟩ := List.mem_filterMap.mp (himage ▸ hF)
  obtain ⟨-, file, hfile, hFname, -⟩ := imageFileOf_eq_some hc hv hFv
  -- the file was compiled at its own index, the one file of its name
  have hvv : v' = v := by
    refine index_eq_of_name_eq hnames hctx hfile ?_
    rw [← hFname, ImageFile.name, hdesc, (compileFile_descriptor ctx).1, Option.getD_some]
  subst hvv
  obtain ⟨n, hname, hdecl⟩ := compileFile_resolves hT ref (hdesc ▸ href)
  rcases hdecl with hown | ⟨j, hj, fj, hfj, hmem⟩
  · exact .inl ⟨_, hdesc ▸ compileFile_types ctx hown, hname, rfl⟩
  rw [hvis, mem_visibleFiles] at hj
  rw [hfiles] at hfj
  rcases hj with rfl | hre
  · -- a type of the file itself
    rw [hctx] at hfj
    cases hfj
    exact .inl ⟨_, hdesc ▸ compileFile_types ctx hmem, hname, rfl⟩
  · -- a type of a file it re-exports, assembled before it
    obtain ⟨hjord, -, G, hG, hsees⟩ := reexports_sees hs hc hv hFv (hre.of_shaped hs' hs)
    obtain ⟨ctxj, hfilej, hdescj⟩ := imageFileOf_compiled hc hjord hG
    rw [hfilej] at hfj
    cases hfj
    rw [← himage] at hsees
    exact .inr ⟨G, hsees, hvalid.precedes_of_sees hF hsees, _, hdescj ▸ compileFile_types ctxj hmem, hname, rfl⟩

/-- Every type name a file of a built image writes, for a field of message, group or enum type at
any depth, map entries included, for an extension's extendee, or for a method's input or output,
is a dot and the full name of a type of the kind it asks for, an enum exactly for an enum field,
declared by the file itself or by a file of the image that stands before it and that the file
imports, directly or through public imports. -/
theorem runBuild_typeRefs_declared {bucket : Bucket} {fs : FileSet} {sourceInfo cancelled : Bool}
    {r : BuildResult} (h : runBuild bucket fs true sourceInfo cancelled = .ok r) :
    ∀ f ∈ r.image.files, ∀ ref ∈ f.descriptor.typeRefs, ref.DeclaredIn f.descriptor ∨
      ∃ g, r.image.Sees f g ∧ r.image.Precedes g f ∧ ref.DeclaredIn g.descriptor := by
  cases cancelled with
  | true =>
    -- a cancelled build stops at once
    simp only [runBuild, if_true] at h
    obtain ⟨_, h, -⟩ := Except.bind_eq_ok.mp h
    cases h
  | false =>
    cases hp : parseAll bucket fs with
    | error e =>
      rw [runBuild_of_error hp] at h
      cases h
    | ok p =>
      rw [runBuild_eq hp, Except.bind_eq_ok] at h
      obtain ⟨image, himage, h⟩ := h
      cases h
      obtain ⟨hvalid, rfl⟩ := Image.validate_eq_ok.mp (Except.mapError_eq_ok.mp himage)
      obtain ⟨hinv, -⟩ := parseAll_inv hp
      have hnamed : ∀ f ∈ p.files.toList, f.schema.PackageNamed := by
        intro f hf
        obtain ⟨src, -, -, hload⟩ := hinv.files f hf
        exact loadSource_packageNamed hload
      have hnames : (p.files.toList.map (·.name)).Nodup :=
        hinv.nodup.sublist (List.sublist_append_left _ _ |>.trans (List.sublist_append_left _ _))
      exact assemble_typeRefs_declared fs p sourceInfo hnamed hnames hvalid

theorem runBuild_typeRefs_declared_linkSample :
    ∃ r, runBuild linkSampleBucket linkSampleFileSet true false false = .ok r ∧
      ∀ f ∈ r.image.files, ∀ ref ∈ f.descriptor.typeRefs, ref.DeclaredIn f.descriptor ∨
        ∃ g, r.image.Sees f g ∧ r.image.Precedes g f ∧ ref.DeclaredIn g.descriptor :=
  ⟨_, runBuild_linkSample, runBuild_typeRefs_declared runBuild_linkSample⟩

end ProtoSchema
