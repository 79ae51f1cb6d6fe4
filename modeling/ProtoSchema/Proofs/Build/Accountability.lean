import ProtoSchema.Proofs.Build.Result
import ProtoSchema.Proofs.Annotation.Sorted
import ProtoSchema.Proofs.SymbolTable.Records

/-!
What the annotations of a build answer for. Each annotation stands at the path a name was
read from (its bucket path, or the name of an embedded file) for a name that is not in the
image; each file of the file set that is missing from the image has an annotation at its own
path or at the path of a file it reaches through its imports. So a build without annotations
puts every file of the file set into the image, none of them marked as an import.

The attribution is to the file read, not to a text: an embedded well-known file and a
failing bucket file can have one text as name and as path, and then the image holds the
first while an annotation stands at the path of the second.
-/

namespace ProtoSchema

open Relation ImportGraph

def ReadsImport (bucket : Bucket) (fs : FileSet) (n m : String) : Prop :=
  ∃ src file, sourceOf bucket fs n = some src ∧ loadSource bucket src = .ok (.parsed file) ∧
    ∃ imp ∈ file.schema.imports, imp.path.value = m

section Accounting

variable {bucket : Bucket} {fs : FileSet} {p : Parsing}

theorem sourceOf_of_mem (hnd : (fs.files.map (·.name)).Nodup) {f : FileRef} (hf : f ∈ fs.files) :
    sourceOf bucket fs f.name = some (.bucket f.name f.path) := by
  cases hfind : fs.files.find? (·.name == f.name) with
  | none => exact absurd (List.find?_eq_none.mp hfind f hf) (by simp)
  | some g =>
    have hg : g.name = f.name := by simpa using List.find?_some hfind
    obtain rfl := List.inj_on_of_nodup_map hnd (List.mem_of_find?_eq_some hfind) hf hg
    simp [sourceOf, hfind]

theorem WaveInv.name_not_failed {wave : List SourceOrigin} (h : WaveInv bucket fs p wave)
    {f : ParsedFile} (hf : f ∈ p.files.toList) : f.name ∉ p.failed := by
  have hnd := h.nodup
  rw [Parsing.names, List.append_assoc, List.nodup_append] at hnd
  exact fun hfail => hnd.2.2 f.name (List.mem_map_of_mem hf) f.name (List.mem_append_left _ hfail) rfl

theorem WaveInv.readsImport {wave : List SourceOrigin} (h : WaveInv bucket fs p wave) {i k : Nat}
    (hr : ReflTransGen (Imports p.files) i k) {fi fk : ParsedFile} (hi : p.files[i]? = some fi)
    (hk : p.files[k]? = some fk) : ReflTransGen (ReadsImport bucket fs) fi.name fk.name := by
  induction hr generalizing fk with
  | refl =>
    rw [hi] at hk
    cases hk
    exact .refl
  | tail _ hjk ih =>
    obtain ⟨fj, hj, imp, himp, hidx⟩ := hjk
    obtain ⟨fk', hk', hname⟩ := name_of_fileIndex? hidx
    rw [hk] at hk'
    cases hk'
    obtain ⟨src, hsrc, -, hload⟩ := h.files fj (Array.mem_toList_iff.mpr (Array.mem_of_getElem? hj))
    exact (ih hj).tail ⟨src, fj, hsrc, hload, imp, himp, hname.symm⟩

variable (sourceInfo : Bool)

theorem assemble_name_parsed {imf : ImageFile} (h : imf ∈ (assemble fs p sourceInfo).2) :
    ∃ v file, (assemble fs p sourceInfo).1.isBroken v = false ∧ p.files[v]? = some file ∧
      imf.name = file.name := by
  obtain ⟨order, out, himage, -, -, -, hc, -⟩ := assemble_facts fs p sourceInfo
  rw [himage] at h
  obtain ⟨v, hv, h⟩ := List.mem_filterMap.mp h
  obtain ⟨hb, file, hfile, hname, -⟩ := imageFileOf_eq_some hc hv h
  exact ⟨v, file, hb, hfile, hname⟩

theorem assemble_of_unbroken (hnames : (p.files.toList.map (·.name)).Nodup) {f : FileRef}
    (hf : f ∈ fs.files) {i : Nat} {file : ParsedFile} (hi : p.files[i]? = some file)
    (hname : file.name = f.name) (hb : (assemble fs p sourceInfo).1.isBroken i = false) :
    ∃ imf ∈ (assemble fs p sourceInfo).2, imf.name = f.name := by
  obtain ⟨order, out, himage, -, hroots, -, hc, -⟩ := assemble_facts fs p sourceInfo
  have hreq : i ∈ fs.files.filterMap (fun f => fileIndex? p.files f.name) :=
    List.mem_filterMap.mpr ⟨f, hf, hname ▸ fileIndex?_of_name hnames hi⟩
  have hord := hroots i hreq (Array.getElem?_eq_some_iff.mp hi).1
  obtain ⟨imf, himf⟩ : ∃ imf, imageFileOf p.files (fs.files.filterMap fun f => fileIndex? p.files f.name)
      (assemble fs p sourceInfo).1 out i = some imf :=
    Option.isSome_iff_exists.mp (imageFileOf_isSome hc hord hb)
  obtain ⟨-, file', hfile', hname', -⟩ := imageFileOf_eq_some hc hord himf
  rw [hi] at hfile'
  cases hfile'
  exact ⟨imf, himage ▸ List.mem_filterMap.mpr ⟨i, hord, himf⟩, hname'.trans hname⟩

theorem assemble_annotation_source (hinv : WaveInv bucket fs p [])
    (hnames : (p.files.toList.map (·.name)).Nodup) :
    ∀ a ∈ (assemble fs p sourceInfo).1.annotations.toList, ∃ name src,
      sourceOf bucket fs name = some src ∧ src.path = a.path ∧
        name ∉ (assemble fs p sourceInfo).2.map (·.name) := by
  obtain ⟨-, -, -, -, -, -, -, -, -, -, hblame, -⟩ := assemble_facts fs p sourceInfo
  intro a ha
  rcases hblame.attributed a ha with hpre | ⟨k, f, hk, hf, hat⟩
  case inl =>
    -- a failed parse: its name was never parsed, so nothing of that name is assembled
    obtain ⟨n, hn, src, hsrc, hpath⟩ := hinv.annotations a hpre
    refine ⟨n, src, hsrc, hpath, fun hmem => ?_⟩
    obtain ⟨imf, himf, rfl⟩ := List.mem_map.mp hmem
    obtain ⟨v, file, -, hfile, hname⟩ := assemble_name_parsed sourceInfo himf
    exact hinv.name_not_failed (Array.mem_toList_iff.mpr (Array.mem_of_getElem? hfile)) (hname ▸ hn)
  case inr =>
    obtain ⟨src, hsrc, hpath, -⟩ := hinv.files f (Array.mem_toList_iff.mpr (Array.mem_of_getElem? hf))
    refine ⟨f.name, src, hsrc, hpath.trans hat.symm, fun hmem => ?_⟩
    obtain ⟨imf, himf, hname⟩ := List.mem_map.mp hmem
    obtain ⟨v, file, hv, hfile, hname'⟩ := assemble_name_parsed sourceInfo himf
    obtain rfl := index_eq_of_name_eq hnames hfile hf (hname'.symm.trans hname)
    rw [hv] at hk
    cases hk

theorem assemble_missing_accounted (hinv : WaveInv bucket fs p [])
    (hread : ∀ f ∈ fs.files, f.name ∈ p.names []) (hnames : (p.files.toList.map (·.name)).Nodup)
    (hfs : (fs.files.map (·.name)).Nodup) :
    ∀ f ∈ fs.files, f.name ∉ (assemble fs p sourceInfo).2.map (·.name) →
      ∃ a ∈ (assemble fs p sourceInfo).1.annotations.toList, a.path = f.path ∨
        ∃ name src, TransGen (ReadsImport bucket fs) f.name name ∧
          sourceOf bucket fs name = some src ∧ src.path = a.path := by
  obtain ⟨-, -, -, -, -, -, -, -, -, hpre, hblame, -⟩ := assemble_facts fs p sourceInfo
  intro f hf hmiss
  have hsrc : sourceOf bucket fs f.name = some (.bucket f.name f.path) := sourceOf_of_mem hfs hf
  have hr := hread f hf
  simp only [Parsing.names, List.map_nil, List.append_nil, List.mem_append] at hr
  rcases hr with hparsed | hfailed
  case inl =>
    -- a parsed file is missing only when broken, and a broken file is blamed through its imports
    obtain ⟨file, hfile, hname⟩ := List.mem_map.mp hparsed
    obtain ⟨i, hi⟩ := List.mem_iff_getElem?.mp hfile
    rw [Array.getElem?_toList] at hi
    have hbroken : (assemble fs p sourceInfo).1.isBroken i = true := by
      by_contra hb
      obtain ⟨imf, himf, hname'⟩ := assemble_of_unbroken sourceInfo hnames hf hi hname (by simpa using hb)
      exact hmiss (List.mem_map.mpr ⟨imf, himf, hname'⟩)
    obtain ⟨k, fk, hreach, hk, a, ha, hpath⟩ := hblame.accounted i hbroken
    refine ⟨a, ha, ?_⟩
    obtain ⟨src, hsrck, hpathk, -⟩ := hinv.files fk (Array.mem_toList_iff.mpr (Array.mem_of_getElem? hk))
    have hreads := hinv.readsImport hreach hi hk
    rw [hname] at hreads
    rcases reflTransGen_iff_eq_or_transGen.mp hreads with heq | htrans
    · -- the blamed file is the file itself, read from its bucket path
      rw [heq, hsrc] at hsrck
      cases hsrck
      exact .inl (hpath.trans hpathk.symm)
    · exact .inr ⟨fk.name, src, htrans, hsrck, hpathk.trans hpath.symm⟩
  case inr =>
    obtain ⟨a, ha, src, hsrc', hpath⟩ := hinv.failed f.name hfailed
    rw [hsrc] at hsrc'
    cases hsrc'
    exact ⟨a, hpre.subset ha, .inl hpath.symm⟩

end Accounting

/-- What the annotations of a build answer for. Each stands at the source path of a name
that is not in the image; each file of the file set missing from the image has one at its
own bucket path or at the source path of a name it reaches through its imports; and a
build without annotations has every file of the file set in its image, not as an import. -/
theorem runBuild_annotations_accountable {entries : List (String × List UInt8)} {bucket : Bucket}
    {options : FileSetOptions} {fs : FileSet} (hb : Bucket.ofFiles entries = .ok bucket)
    (hfs : FileSet.resolve bucket options = .ok fs) (sourceInfo : Bool) {r : BuildResult}
    (hr : runBuild bucket fs true sourceInfo false = .ok r) :
    (∀ a ∈ r.annotations, ∃ name src, sourceOf bucket fs name = some src ∧ src.path = a.path ∧
      name ∉ r.image.names) ∧
    (∀ f ∈ fs.files, f.name ∉ r.image.names → ∃ a ∈ r.annotations, a.path = f.path ∨
      ∃ name src, TransGen (ReadsImport bucket fs) f.name name ∧
        sourceOf bucket fs name = some src ∧ src.path = a.path) ∧
    (r.annotations = [] → ∀ f ∈ fs.files, ∃ imf ∈ r.image.files, imf.name = f.name ∧ imf.isImport = false) := by
  cases hp : parseAll bucket fs with
  | error e =>
    rw [runBuild_of_error hp] at hr
    cases hr
  | ok p =>
    obtain ⟨hinv, hread⟩ := parseAll_inv hp
    obtain ⟨hnames, hnorm⟩ := parsed_names_normalized hb hfs hp
    rw [runBuild_eq_assembled hb hfs hp] at hr
    cases hr
    have himport : ∀ imf ∈ (assemble fs p sourceInfo).2,
        imf.isImport = true ↔ imf.name ∉ fs.files.map (·.name) :=
      (assemble_spec sourceInfo hnames hnorm).2
    have hmissing := assemble_missing_accounted sourceInfo hinv hread hnames (FileSet.names_nodup hfs)
    simp only [Image.names]
    refine ⟨fun a ha => ?_, fun f hf hmiss => ?_, fun hnil f hf => ?_⟩
    · exact assemble_annotation_source sourceInfo hinv hnames a (by simpa using ha)
    · obtain ⟨a, ha, h⟩ := hmissing f hf hmiss
      exact ⟨a, Annotation.mem_sortAndDedup.mpr ha, h⟩
    · -- a missing file would leave an annotation behind
      have hin : f.name ∈ (assemble fs p sourceInfo).2.map (·.name) := by
        by_contra hmiss
        obtain ⟨a, ha, -⟩ := hmissing f hf hmiss
        simpa [hnil] using Annotation.mem_sortAndDedup.mpr ha
      obtain ⟨imf, himf, hname⟩ := List.mem_map.mp hin
      refine ⟨imf, himf, hname, ?_⟩
      cases h : imf.isImport
      · rfl
      · exact absurd (List.mem_map_of_mem (f := (·.name)) hf) (hname ▸ (himport imf himf).mp h)

theorem anySample_resolve : FileSet.resolve anySampleBucket { roots := ["google"] } = .ok anySampleFileSet := by
  cbv

theorem runBuild_anySample :
    runBuild anySampleBucket anySampleFileSet true false false =
      .ok { image := ⟨(assemble anySampleFileSet anySampleParsed false).2⟩,
            annotations :=
              Annotation.sortAndDedup (assemble anySampleFileSet anySampleParsed false).1.annotations.toList } :=
  runBuild_eq_assembled anySample_inputs.1 anySample_resolve anySample_inputs.2 false

theorem anySample_annotated :
    ∃ a ∈ Annotation.sortAndDedup (assemble anySampleFileSet anySampleParsed false).1.annotations.toList,
      a.path = "google/protobuf/any.proto" := by
  obtain ⟨-, -, -, -, -, -, -, -, -, hpre, -, -⟩ := assemble_facts anySampleFileSet anySampleParsed false
  have hpath : "google/protobuf/any.proto" ∈ anySampleParsed.annotations.toList.map Annotation.path := by
    decide +kernel
  obtain ⟨a, ha, hp⟩ := List.mem_map.mp hpath
  exact ⟨a, Annotation.mem_sortAndDedup.mpr (hpre.subset ha), hp⟩

theorem anySample_embedded_in_image :
    ∃ f ∈ (assemble anySampleFileSet anySampleParsed false).2, f.name = "google/protobuf/any.proto" := by
  have hnamed := (parseAll_named_distinct anySample_inputs.2).1
  unfold assemble
  dsimp only
  generalize hB : SymbolTable.build _ _ = B
  have hB2 : B.2 = [] := by
    rw [← hB]
    exact (SymbolTable.build_recorded_of_named hnamed _).conflicts_eq_nil (List.isEmpty_iff.mp (by decide +kernel))
  rw [hB2]
  subst hB
  generalize ho : (ImportGraph.order _ _ _).1 = order
  obtain rfl : order = [1, 0] := by
    rw [← ho]
    decide +kernel
  exact mem_image_of_compiled_first (by decide) (by decide +kernel)

/-- The build under the root `google` of a file that fails to parse and of a file that imports
the embedded well-known file of the same text: one annotation, which answers for the failed file. -/
theorem runBuild_annotations_accountable_anySample :
    Bucket.ofFiles anySampleEntries = .ok anySampleBucket ∧
      FileSet.resolve anySampleBucket { roots := ["google"] } = .ok anySampleFileSet ∧
      ∃ r, runBuild anySampleBucket anySampleFileSet true false false = .ok r ∧ r.annotations ≠ [] ∧
        (∀ a ∈ r.annotations, ∃ name src, sourceOf anySampleBucket anySampleFileSet name = some src ∧
          src.path = a.path ∧ name ∉ r.image.names) ∧
        (∀ f ∈ anySampleFileSet.files, f.name ∉ r.image.names → ∃ a ∈ r.annotations, a.path = f.path ∨
          ∃ name src, TransGen (ReadsImport anySampleBucket anySampleFileSet) f.name name ∧
            sourceOf anySampleBucket anySampleFileSet name = some src ∧ src.path = a.path) ∧
        (r.annotations = [] → ∀ f ∈ anySampleFileSet.files,
          ∃ imf ∈ r.image.files, imf.name = f.name ∧ imf.isImport = false) := by
  obtain ⟨a, ha, -⟩ := anySample_annotated
  exact ⟨anySample_inputs.1, anySample_resolve, _, runBuild_anySample, List.ne_nil_of_mem ha,
    runBuild_annotations_accountable anySample_inputs.1 anySample_resolve false runBuild_anySample⟩

/-- Under the root `google`, the bucket file `google/protobuf/any.proto` fails to parse and is
annotated at its path, while the embedded well-known file of that name, which `a.proto` imports,
is in the image: an annotation stands at the path that a file of the image is read from. -/
theorem runBuild_anySample_annotates_imageFile :
    ∃ r, runBuild anySampleBucket anySampleFileSet true false false = .ok r ∧
      ∃ a ∈ r.annotations, ∃ f ∈ r.image.files, ∃ src,
        sourceOf anySampleBucket anySampleFileSet f.name = some src ∧ src.path = a.path := by
  obtain ⟨a, ha, hpath⟩ := anySample_annotated
  obtain ⟨f, hf, hname⟩ := anySample_embedded_in_image
  have hsrc : (sourceOf anySampleBucket anySampleFileSet f.name).map SourceOrigin.path =
      some "google/protobuf/any.proto" := by
    rw [hname]
    decide +kernel
  obtain ⟨src, hsrc, hsp⟩ := Option.map_eq_some_iff.mp hsrc
  exact ⟨_, runBuild_anySample, a, ha, f, hf, src, hsrc, hsp.trans hpath.symm⟩

end ProtoSchema
