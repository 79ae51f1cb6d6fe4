import ProtoSchema.Proofs.Build.Blame
import ProtoSchema.Proofs.Build.Parse
import ProtoSchema.Proofs.FileSet
import ProtoSchema.Proofs.Image

/-!
The image a build returns. After parsing, every file has a normalized name of
its own; the order, the two propagation passes, the symbol conflicts and the
compile pass only ever add marks, and the compile pass leaves each unbroken
file compiled after the files it imports. So the files a build assembles
always make a closed image, and its files not requested are exactly those
marked as imports.
-/

namespace ProtoSchema

open ImportGraph

def imageFileOf (files : Array ParsedFile) (requested : List Nat) (g : ImportGraph)
    (out : Array (Option FileDescriptor)) (i : Nat) : Option ImageFile :=
  if g.isBroken i then none
  else match out.getD i none, files[i]? with
    | some d, some f =>
      some { descriptor := d, isImport := !requested.contains i,
             syntaxUnspecified := f.schema.dialectDecl.isNone }
    | _, _ => none

theorem name_of_fileIndex? {files : Array ParsedFile} {name : String} {t : Nat}
    (h : fileIndex? files name = some t) : ∃ f, files[t]? = some f ∧ f.name = name := by
  obtain ⟨ht, hname, -⟩ := Array.findIdx?_eq_some_iff_getElem.mp h
  exact ⟨files[t], Array.getElem?_eq_getElem ht, beq_iff_eq.mp hname⟩

theorem index_eq_of_name_eq {files : Array ParsedFile} (hnames : (files.toList.map (·.name)).Nodup)
    {v w : Nat} {f f' : ParsedFile} (hf : files[v]? = some f) (hf' : files[w]? = some f')
    (hname : f.name = f'.name) : v = w := by
  obtain ⟨hv, rfl⟩ := Array.getElem?_eq_some_iff.mp hf
  obtain ⟨hw, rfl⟩ := Array.getElem?_eq_some_iff.mp hf'
  have hv' : v < (files.toList.map (·.name)).length := by simpa using hv
  have hw' : w < (files.toList.map (·.name)).length := by simpa using hw
  exact (@List.Nodup.getElem_inj_iff _ _ hnames v hv' w hw').mp (by simpa using hname)

theorem fileIndex?_of_name {files : Array ParsedFile} (hnames : (files.toList.map (·.name)).Nodup)
    {v : Nat} {f : ParsedFile} (hf : files[v]? = some f) : fileIndex? files f.name = some v := by
  obtain ⟨hv, rfl⟩ := Array.getElem?_eq_some_iff.mp hf
  rw [fileIndex?, Array.findIdx?_eq_some_iff_getElem]
  refine ⟨hv, by simp, fun j hj heq => ?_⟩
  have := index_eq_of_name_eq hnames (Array.getElem?_eq_getElem (Nat.lt_trans hj hv))
    (Array.getElem?_eq_getElem hv) (beq_iff_eq.mp heq)
  omega

section Assembly

variable {files : Array ParsedFile} {requested : List Nat} {g : ImportGraph}
  {out : Array (Option FileDescriptor)} {order : List Nat}

theorem imageFileOf_eq_some (hc : Compiled files order (g, out)) {v : Nat} (hv : v ∈ order)
    {imf : ImageFile} (h : imageFileOf files requested g out v = some imf) :
    g.isBroken v = false ∧ ∃ file, files[v]? = some file ∧ imf.name = file.name ∧
      imf.imports = file.schema.imports.map (·.path.value) ∧ imf.isImport = !requested.contains v := by
  unfold imageFileOf at h
  split at h
  · cases h
  rename_i hb
  have hb : g.isBroken v = false := by simpa using hb
  obtain ⟨-, ctx, hfile, hout⟩ := hc v hv hb
  rw [hout, hfile] at h
  cases h
  obtain ⟨hname, hdeps⟩ := compileFile_descriptor ctx
  exact ⟨hb, ctx.file, hfile, by simp [ImageFile.name, hname], by simp [ImageFile.imports, hdeps], rfl⟩

theorem imageFileOf_isSome (hc : Compiled files order (g, out)) {v : Nat} (hv : v ∈ order)
    (hb : g.isBroken v = false) : (imageFileOf files requested g out v).isSome := by
  obtain ⟨-, ctx, hfile, hout⟩ := hc v hv hb
  simp [imageFileOf, hb, hout, hfile]

theorem mem_image_of_compiled_first {table : SymbolTable} {sourceInfo : Bool} {i : Nat} {rest : List Nat}
    {n : String} (hi : i ∉ rest)
    (h : (imageFileOf files requested (compileStep files table sourceInfo (g, Array.replicate files.size none) i).1
        (compileStep files table sourceInfo (g, Array.replicate files.size none) i).2 i).map ImageFile.name =
          some n) :
    ∃ f ∈ (i :: rest).filterMap (imageFileOf files requested (compileAll files table sourceInfo (i :: rest) g).1
        (compileAll files table sourceInfo (i :: rest) g).2), f.name = n := by
  obtain ⟨f, hf, rfl⟩ := Option.map_eq_some_iff.mp h
  obtain ⟨hb, hout⟩ := foldl_compileStep_frame rest
    (compileStep files table sourceInfo (g, Array.replicate files.size none) i) hi
  refine ⟨f, List.mem_filterMap.mpr ⟨i, List.mem_cons_self, ?_⟩, rfl⟩
  rw [compileAll_eq, List.foldl_cons]
  unfold imageFileOf at hf ⊢
  rw [hb, hout]
  exact hf

theorem valid_imageFiles (hnames : (files.toList.map (·.name)).Nodup)
    (hnorm : ∀ f ∈ files.toList, Path.isNormalized f.name = true) (hnodup : order.Nodup)
    (hs : Shaped files g) (hc : Compiled files order (g, out))
    (hres : ∀ v ∈ order, g.isBroken v = false → Resolved files v)
    (hbefore : ∀ v ∈ order, g.isBroken v = false → ∀ t ∈ g.targets v, Before order t v) :
    Image.Valid true (order.filterMap (imageFileOf files requested g out)) := by
  refine Image.valid_of_before ?_ ?_ ?_
  · intro imf himf
    obtain ⟨v, hv, h⟩ := List.mem_filterMap.mp himf
    obtain ⟨-, file, hfile, hname, -⟩ := imageFileOf_eq_some hc hv h
    rw [hname]
    exact hnorm file (Array.mem_toList_iff.mpr (Array.mem_of_getElem? hfile))
  · -- two assembled files of one name come from one index
    rw [List.map_filterMap]
    refine List.Pairwise.filterMap _ (fun v w ⟨hv, hw, hvw⟩ n hn n' hn' heq => hvw ?_)
      (List.Pairwise.and_mem.mp hnodup)
    obtain ⟨imf, h, rfl⟩ := Option.map_eq_some_iff.mp hn
    obtain ⟨imf', h', rfl⟩ := Option.map_eq_some_iff.mp hn'
    obtain ⟨-, file, hfile, hname, -⟩ := imageFileOf_eq_some hc hv h
    obtain ⟨-, file', hfile', hname', -⟩ := imageFileOf_eq_some hc hw h'
    exact index_eq_of_name_eq hnames hfile hfile' (hname.symm.trans (heq.trans hname'))
  · intro l₁ imf l₂ hsplit dep hdep
    obtain ⟨o₁, o₂, rfl, rfl, h₂⟩ := List.filterMap_eq_append_iff.mp hsplit
    obtain ⟨o₃, v, o₄, rfl, hnone, hv, -⟩ := List.filterMap_eq_cons_iff.mp h₂
    have hvo : v ∈ o₁ ++ (o₃ ++ v :: o₄) := by simp
    obtain ⟨hb, file, hfile, -, himports, -⟩ := imageFileOf_eq_some hc hvo hv
    rw [himports] at hdep
    obtain ⟨imp, himp, rfl⟩ := List.mem_map.mp hdep
    obtain ⟨t, ht⟩ := Option.isSome_iff_exists.mp (hres v hvo hb file hfile imp himp)
    have htv : t ∈ g.targets v := (mem_targets hs hfile).mpr ⟨imp, himp, ht⟩
    -- the imported file stands before `v` and is assembled, so it is not a skipped one
    have hbef : t ∈ o₁ ++ o₃ := by
      have h := hbefore v hvo hb t htv
      rw [← List.append_assoc] at h hnodup
      exact h.mem_prefix hnodup
    obtain ⟨htord, htb⟩ := (hc v hvo hb).1 t htv
    obtain ⟨imt, himt⟩ := Option.isSome_iff_exists.mp (imageFileOf_isSome hc htord htb)
    rcases List.mem_append.mp hbef with ht₁ | ht₃
    · obtain ⟨-, tf, htf, htname, -⟩ := imageFileOf_eq_some hc htord himt
      obtain ⟨tf', htf', htname'⟩ := name_of_fileIndex? ht
      rw [htf] at htf'
      cases htf'
      exact List.mem_map.mpr ⟨imt, List.mem_filterMap.mpr ⟨t, ht₁, himt⟩, htname.trans htname'⟩
    · rw [hnone t ht₃] at himt
      cases himt

end Assembly

def assemble (fs : FileSet) (p : Parsing) (sourceInfo : Bool) : ImportGraph × List ImageFile :=
  let files := p.files
  let g₀ : ImportGraph :=
    { ofFiles files p.failed with annotations := p.annotations ++ (ofFiles files p.failed).annotations }
  let requested := fs.files.filterMap fun f => fileIndex? files f.name
  let ordered := g₀.order files requested
  let g₂ := ordered.2.propagate files ordered.1
  let built := SymbolTable.build files (ordered.1.filter fun i => !g₂.isBroken i)
  let g₃ := (built.2.foldl (conflictStep files) g₂).propagate files ordered.1
  let compiled := compileAll files built.1 sourceInfo ordered.1 g₃
  (compiled.1, ordered.1.filterMap (imageFileOf files requested compiled.1 compiled.2))

theorem assemble_facts (fs : FileSet) (p : Parsing) (sourceInfo : Bool) :
    ∃ (order : List Nat) (out : Array (Option FileDescriptor)),
      (assemble fs p sourceInfo).2 = order.filterMap (imageFileOf p.files
        (fs.files.filterMap fun f => fileIndex? p.files f.name) (assemble fs p sourceInfo).1 out) ∧
      order.Nodup ∧
      (∀ r ∈ fs.files.filterMap (fun f => fileIndex? p.files f.name), r < p.files.size → r ∈ order) ∧
      Shaped p.files (assemble fs p sourceInfo).1 ∧ Compiled p.files order ((assemble fs p sourceInfo).1, out) ∧
      (∀ v ∈ order, (assemble fs p sourceInfo).1.isBroken v = false → Resolved p.files v) ∧
      (∀ v ∈ order, (assemble fs p sourceInfo).1.isBroken v = false →
        ∀ t ∈ (assemble fs p sourceInfo).1.targets v, Before order t v) ∧
      p.annotations.toList <+: (assemble fs p sourceInfo).1.annotations.toList ∧
      Blame p.annotations.toList p.files (assemble fs p sourceInfo).1 ∧
      order = (({ ofFiles p.files p.failed with
          annotations := p.annotations ++ (ofFiles p.files p.failed).annotations } : ImportGraph).order
        p.files (fs.files.filterMap fun f => fileIndex? p.files f.name)).1 := by
  unfold assemble
  dsimp only
  generalize fs.files.filterMap (fun f => fileIndex? p.files f.name) = requested
  generalize hg₀ : ({ ofFiles p.files p.failed with
    annotations := p.annotations ++ (ofFiles p.files p.failed).annotations } : ImportGraph) = g₀
  have hs₀ : Shaped p.files g₀ := fun i => by rw [← hg₀]; exact deps_ofFiles p.files p.failed i
  have hb₀ : g₀.broken.size = p.files.size := by rw [← hg₀]; exact size_broken_ofFiles p.files p.failed
  have hres₀ : ∀ v, g₀.isBroken v = false → Resolved p.files v := fun v h =>
    resolved_of_ofFiles (by rw [← hg₀] at h; exact h)
  have hpre₀ : p.annotations.toList <+: g₀.annotations.toList := by rw [← hg₀]; simp
  have hblame₀ : Blame p.annotations.toList p.files g₀ := by
    rw [← hg₀]
    exact (blame_ofFiles p.failed).prepend p.annotations
  have hblame₁ := hblame₀.order hs₀ hb₀ requested
  obtain ⟨hnodup, hbound, hext₁, hroots, hordered⟩ := order_spec hs₀ hb₀ requested
  generalize hord : g₀.order p.files requested = ordered at hnodup hbound hext₁ hroots hordered hblame₁
  obtain ⟨order, g₁⟩ := ordered
  dsimp only at hnodup hbound hext₁ hroots hordered hblame₁ ⊢
  have hs₁ := hext₁.shaped hs₀
  have hb₁ : g₁.broken.size = p.files.size := hext₁.size.trans hb₀
  -- the passes before compiling only add marks and annotations
  have hext₂ := propagate_extends p.files order g₁
  have hblame₂ := hblame₁.of_propagate hs₁ hb₁ order
  generalize propagate p.files order g₁ = g₂ at hext₂ hblame₂ ⊢
  have hconf := SymbolTable.build_conflicts p.files (order.filter fun i => !g₂.isBroken i)
  generalize SymbolTable.build p.files (order.filter fun i => !g₂.isBroken i) = built at hconf ⊢
  have hext₂' := foldl_conflictStep_extends p.files built.2 g₂
  have hblame₃ := (hblame₂.of_conflicts (hext₂.size.trans hb₁) built.2 fun c hc => (hconf c hc).2).of_propagate
    ((hext₂.trans hext₂').shaped hs₁) ((hext₂.trans hext₂').size.trans hb₁) order
  have hext₃ := hext₂'.trans (propagate_extends p.files order _)
  generalize propagate p.files order (built.2.foldl (conflictStep p.files) g₂) = g₃ at hext₃ hblame₃ ⊢
  have hext₁₃ := hext₂.trans hext₃
  have hbefore₃ : ∀ v ∈ order, ∀ t ∈ g₃.targets v, g₃.isBroken v = true ∨ Before order t v := by
    intro v hv t ht
    rw [targets, hext₁₃.deps] at ht
    exact (hordered v hv t ht).imp_left (hext₁₃.mono v)
  have hs₃ := (hext₁.trans hext₁₃).shaped hs₀
  have hb₃ : g₃.broken.size = p.files.size := by rw [hext₁₃.size, hext₁.size, hb₀]
  have hblame₅ : Blame p.annotations.toList p.files (compileAll p.files built.1 sourceInfo order g₃).1 :=
    hblame₃.of_compileAll hs₃ hb₃ order
  obtain ⟨hext₅, hc⟩ := @compileAll_spec p.files built.1 sourceInfo g₃ order hs₃ hb₃ hnodup hbound hbefore₃
  generalize compileAll p.files built.1 sourceInfo order g₃ = compiled at hext₅ hc hblame₅ ⊢
  obtain ⟨g₅, out⟩ := compiled
  dsimp only at hext₅ hc hblame₅ ⊢
  have hext₀₅ := hext₁.trans (hext₁₃.trans hext₅)
  refine ⟨order, out, rfl, hnodup, hroots, hext₀₅.shaped hs₀, hc,
    fun v _ hv => hres₀ v (hext₀₅.isBroken_false hv), fun v hv hb t ht => ?_,
    hpre₀.trans hext₀₅.grows, hblame₅, rfl⟩
  rw [targets, (hext₁₃.trans hext₅).deps] at ht
  exact (hordered v hv t ht).resolve_left (by simp [(hext₁₃.trans hext₅).isBroken_false hb])

theorem assemble_spec {fs : FileSet} {p : Parsing} (sourceInfo : Bool)
    (hnames : (p.files.toList.map (·.name)).Nodup)
    (hnorm : ∀ f ∈ p.files.toList, Path.isNormalized f.name = true) :
    Image.Valid true (assemble fs p sourceInfo).2 ∧
      ∀ imf ∈ (assemble fs p sourceInfo).2, imf.isImport = true ↔ imf.name ∉ fs.files.map (·.name) := by
  obtain ⟨order, out, himage, hnodup, -, hs, hc, hres, hbefore, -, -⟩ := assemble_facts fs p sourceInfo
  rw [himage]
  refine ⟨valid_imageFiles hnames hnorm hnodup hs hc hres hbefore, ?_⟩
  intro imf himf
  obtain ⟨v, hv, h⟩ := List.mem_filterMap.mp himf
  obtain ⟨-, file, hfile, hname, -, himport⟩ := imageFileOf_eq_some hc hv h
  -- `v` is requested exactly when a file of the set has its name
  have hreqv : v ∈ fs.files.filterMap (fun f => fileIndex? p.files f.name) ↔
      file.name ∈ fs.files.map (·.name) := by
    rw [List.mem_filterMap, List.mem_map]
    constructor
    · rintro ⟨f, hf, hidx⟩
      obtain ⟨f', hf', hname'⟩ := name_of_fileIndex? hidx
      rw [hfile] at hf'
      cases hf'
      exact ⟨f, hf, hname'.symm⟩
    · rintro ⟨f, hf, hname'⟩
      exact ⟨f, hf, by rw [hname']; exact fileIndex?_of_name hnames hfile⟩
  rw [himport, hname, ← hreqv]
  simp

theorem runBuild_eq {bucket : Bucket} {fs : FileSet} {p : Parsing} (hp : parseAll bucket fs = .ok p)
    (includeImports sourceInfo : Bool) :
    runBuild bucket fs includeImports sourceInfo false =
      (Image.ofFiles (assemble fs p sourceInfo).2).mapError .image >>= fun image =>
        pure { image := if includeImports then image else image.withoutImports,
               annotations := Annotation.sortAndDedup (assemble fs p sourceInfo).1.annotations.toList } := by
  unfold runBuild
  rw [hp]
  rfl

theorem runBuild_of_error {bucket : Bucket} {fs : FileSet} {e : BuildError}
    (hp : parseAll bucket fs = .error e) (includeImports sourceInfo : Bool) :
    runBuild bucket fs includeImports sourceInfo false = .error e := by
  unfold runBuild
  rw [hp]
  rfl

theorem parsed_names_normalized {entries : List (String × List UInt8)} {bucket : Bucket}
    {options : FileSetOptions} {fs : FileSet} {p : Parsing} (hb : Bucket.ofFiles entries = .ok bucket)
    (hfs : FileSet.resolve bucket options = .ok fs) (hp : parseAll bucket fs = .ok p) :
    (p.files.toList.map (·.name)).Nodup ∧ ∀ f ∈ p.files.toList, Path.isNormalized f.name = true := by
  have hfsNorm : ∀ f ∈ fs.files, Path.isNormalized f.name = true := fun f hf =>
    FileSet.name_isNormalized (Bucket.ofFiles_normalized hb) hfs hf
  obtain ⟨hinv, -⟩ := parseAll_inv hp
  refine ⟨hinv.nodup.sublist (List.sublist_append_left _ _ |>.trans (List.sublist_append_left _ _)),
    fun f hf => ?_⟩
  obtain ⟨src, hsrc, -⟩ := hinv.files f hf
  exact isNormalized_of_sourceOf hfsNorm hsrc

theorem runBuild_eq_assembled {entries : List (String × List UInt8)} {bucket : Bucket}
    {options : FileSetOptions} {fs : FileSet} {p : Parsing} (hb : Bucket.ofFiles entries = .ok bucket)
    (hfs : FileSet.resolve bucket options = .ok fs) (hp : parseAll bucket fs = .ok p) (sourceInfo : Bool) :
    runBuild bucket fs true sourceInfo false =
      .ok { image := ⟨(assemble fs p sourceInfo).2⟩,
            annotations := Annotation.sortAndDedup (assemble fs p sourceInfo).1.annotations.toList } := by
  obtain ⟨hnames, hnorm⟩ := parsed_names_normalized hb hfs hp
  have himage : Image.ofFiles (assemble fs p sourceInfo).2 = .ok ⟨(assemble fs p sourceInfo).2⟩ :=
    Image.validate_eq_ok.mpr ⟨(assemble_spec sourceInfo hnames hnorm).1, rfl⟩
  rw [runBuild_eq hp, himage]
  rfl

/-- A build over a bucket and a file set resolved from it never fails the image check:
with imports included, what it returns is an image that passes the check again, with
distinct, non-empty, normalized names, every import naming a file at a smaller index,
every import present, and exactly the files not requested marked as imports. -/
theorem runBuild_image_valid {entries : List (String × List UInt8)} {bucket : Bucket}
    {options : FileSetOptions} {fs : FileSet} (hb : Bucket.ofFiles entries = .ok bucket)
    (hfs : FileSet.resolve bucket options = .ok fs) (sourceInfo : Bool) :
    (∀ e, runBuild bucket fs true sourceInfo false ≠ .error (.image e)) ∧
    ∀ r, runBuild bucket fs true sourceInfo false = .ok r →
      Image.ofFiles r.image.files = .ok r.image ∧ r.image.names.Nodup ∧
      (∀ n ∈ r.image.names, n ≠ "" ∧ Path.isNormalized n = true) ∧
      (∀ k (hk : k < r.image.files.length), ∀ dep ∈ r.image.files[k].imports,
        ∃ j < k, r.image.names[j]? = some dep) ∧
      r.image.isClosed = true ∧
      ∀ f ∈ r.image.files, f.isImport = true ↔ f.name ∉ fs.files.map (·.name) := by
  cases hp : parseAll bucket fs with
  | error e =>
    -- the parse fails only on the bucket, and the build stops there
    rw [runBuild_of_error hp]
    obtain ⟨b, rfl⟩ := parseAll_error hp
    refine ⟨fun _ h => ?_, fun _ h => ?_⟩ <;> cases h
  | ok p =>
    obtain ⟨hnames, hnorm⟩ := parsed_names_normalized hb hfs hp
    obtain ⟨hvalid, himport⟩ := assemble_spec sourceInfo hnames hnorm
    rw [runBuild_eq_assembled hb hfs hp]
    refine ⟨fun _ h => ?_, fun r hr => ?_⟩
    · cases h
    cases hr
    refine ⟨Image.validate_eq_ok.mpr ⟨hvalid, rfl⟩, hvalid.2.1, fun n hn => ?_,
      fun k hk dep hdep => hvalid.import_lt hk hdep, hvalid.isClosed, himport⟩
    obtain ⟨imf, himf, rfl⟩ := List.mem_map.mp hn
    exact ⟨Path.ne_empty_of_isNormalized (hvalid.1 imf himf), hvalid.1 imf himf⟩

theorem runBuild_linkSample :
    runBuild linkSampleBucket linkSampleFileSet true false false =
      .ok { image := ⟨(assemble linkSampleFileSet linkSampleParsed false).2⟩,
            annotations :=
              Annotation.sortAndDedup (assemble linkSampleFileSet linkSampleParsed false).1.annotations.toList } :=
  runBuild_eq_assembled linkSample_inputs.1 linkSample_inputs.2.1 linkSample_inputs.2.2 false

/-- The build of the sample, whose file publicly imports a well-known file, passes the image
check, with imports included. -/
theorem runBuild_image_valid_linkSample :
    Bucket.ofFiles [("a.proto", linkSampleText.toUTF8.toList)] = .ok linkSampleBucket ∧
      FileSet.resolve linkSampleBucket {} = .ok linkSampleFileSet ∧
      (∀ e, runBuild linkSampleBucket linkSampleFileSet true false false ≠ .error (.image e)) ∧
      ∃ r, runBuild linkSampleBucket linkSampleFileSet true false false = .ok r ∧
        Image.ofFiles r.image.files = .ok r.image ∧ r.image.names.Nodup ∧
        (∀ n ∈ r.image.names, n ≠ "" ∧ Path.isNormalized n = true) ∧
        (∀ k (hk : k < r.image.files.length), ∀ dep ∈ r.image.files[k].imports,
          ∃ j < k, r.image.names[j]? = some dep) ∧
        r.image.isClosed = true ∧
        ∀ f ∈ r.image.files, f.isImport = true ↔ f.name ∉ linkSampleFileSet.files.map (·.name) :=
  ⟨linkSample_inputs.1, linkSample_inputs.2.1,
    (runBuild_image_valid linkSample_inputs.1 linkSample_inputs.2.1 false).1, _, runBuild_linkSample,
    (runBuild_image_valid linkSample_inputs.1 linkSample_inputs.2.1 false).2 _ runBuild_linkSample⟩

end ProtoSchema
