import ProtoSchema.Image.Wire
import ProtoSchema.Proofs.Image.Closure

/-!
The invariant of images. Every image the library produces, by the checked
constructors, by decoding, or by dropping the imports of or selecting names from an
image it produced, names each file once, in normalized form, and lists every import
that is present before the file importing it (`WellFormed`). On such an image the
list searches behind `position?` and `file?` find the one file of a name, selecting
names fails only on a name that is not present, and selecting from a closed image
gives a closed image.

Only `withoutImports` builds an image without checking it; everything else ends in
`validate`, so the invariant is carried by one induction over how an image was
built (`Built`), with one case that needs an argument: dropping files keeps the
order of those left, and an import of a dropped file is simply absent.

Main statement: `Built.invariant`.
-/

namespace ProtoSchema

namespace Image

variable {img : Image}

/-- Each file named once, in normalized form, and every import that names a file of the
image naming one at a smaller index. -/
structure WellFormed (img : Image) : Prop where
  normalized : ∀ f ∈ img.files, Path.isNormalized f.name = true
  nodup : img.names.Nodup
  importsBefore : ∀ (k j : Nat) (hk : k < img.files.length) (hj : j < img.files.length),
    img.files[j].name ∈ img.files[k].imports → j < k

theorem wellFormed_iff_valid : img.WellFormed ↔ Valid false img.files := by
  constructor
  · rintro ⟨hn, hd, hb⟩
    refine ⟨hn, hd, fun k hk dep hdep => ?_⟩
    by_cases hin : dep ∈ img.names
    · -- the file of `dep` sits before the importer, so `dep` is among the names before it
      obtain ⟨j, hj, rfl⟩ := List.getElem_of_mem hin
      have hj' : j < img.files.length := by simpa [names] using hj
      have hjk : j < k := hb k j hk hj' (by simpa [names] using hdep)
      exact .inl (List.mem_take_iff_getElem.mpr ⟨j, by simp; omega, rfl⟩)
    · exact .inr ⟨hin, rfl⟩
  · rintro ⟨hn, hd, hi⟩
    refine ⟨hn, hd, fun k j hk hj hdep => ?_⟩
    rcases hi k hk _ hdep with hin | ⟨hout, -⟩
    · -- the name is found among the first `k`, and a name sits at one place only
      obtain ⟨j', hj', hget⟩ := List.mem_take_iff_getElem.mp hin
      have hj'k : j' < k := by simp at hj'; omega
      have hjl : j < img.names.length := by simpa [names] using hj
      have hj'l : j' < img.names.length := by simp [names] at hj' ⊢; omega
      have hsame : img.names[j'] = img.names[j] := by simpa [names] using hget
      have heq : j' = j := (List.Nodup.getElem_inj_iff hd).mp hsame
      omega
    · exact absurd (List.mem_map_of_mem (List.getElem_mem hj)) hout

theorem WellFormed.name_ne_empty (h : img.WellFormed) {f : ImageFile} (hf : f ∈ img.files) :
    f.name ≠ "" :=
  Path.ne_empty_of_isNormalized (h.normalized f hf)

theorem wellFormed_of_validate {closed : Bool} {files : List ImageFile} (h : validate closed files = .ok img) :
    img.WellFormed := by
  obtain ⟨⟨hn, hd, hi⟩, rfl⟩ := validate_eq_ok.mp h
  refine wellFormed_iff_valid.mpr ⟨hn, hd, fun k hk dep hdep => ?_⟩
  rcases hi k hk dep hdep with hin | ⟨hout, -⟩
  · exact .inl hin
  · exact .inr ⟨hout, rfl⟩

theorem wellFormed_of_decode {codec : DescriptorCodec} {bs : List UInt8}
    (h : Image.decodeWith codec bs = .ok img) : img.WellFormed := by
  unfold Image.decodeWith at h
  split at h
  · cases h
  · exact wellFormed_of_validate h

/-- Dropping the imports keeps the invariant: what is left keeps its order, and an import
whose file was dropped is no longer present. -/
theorem WellFormed.withoutImports (h : img.WellFormed) : img.withoutImports.WellFormed := by
  obtain ⟨hn, hd, hi⟩ := valid_iff_split.mp (wellFormed_iff_valid.mp h)
  refine wellFormed_iff_valid.mpr (valid_iff_split.mpr ⟨fun f hf => hn f (List.mem_filter.mp hf).1,
    hd.sublist (List.filter_sublist.map _), fun l₁ f l₂ hsplit dep hdep => ?_⟩)
  obtain ⟨L₁, L₂, hfiles, hL₁, hL₂⟩ := List.filter_eq_append_iff.mp hsplit
  obtain ⟨M₁, M₂, rfl, hM₁, hf, -⟩ := List.filter_eq_cons_iff.mp hL₂
  have hall : img.files = L₁ ++ M₁ ++ f :: M₂ := by simp [hfiles]
  rcases hi _ f M₂ hall dep hdep with hin | ⟨hout, -⟩
  · obtain ⟨g, hg, rfl⟩ := List.mem_map.mp hin
    by_cases hkeep : (!g.isImport) = true
    · -- the file of the import is kept, and it stands before the importer
      left
      have hgL₁ : g ∈ L₁ := by
        rcases List.mem_append.mp hg with hg | hg
        · exact hg
        · exact absurd hkeep (hM₁ g hg)
      rw [← hL₁]
      exact List.mem_map_of_mem (List.mem_filter.mpr ⟨hgL₁, hkeep⟩)
    · -- the file of the import is dropped, and no other file has its name
      right
      refine ⟨fun hin' => ?_, rfl⟩
      obtain ⟨g', hg', hname⟩ := List.mem_map.mp hin'
      have hg'f : g' ∈ img.files := (List.mem_filter.mp hg').1
      have hgf : g ∈ img.files := by rw [hall]; exact List.mem_append_left _ hg
      have : g' = g := List.inj_on_of_nodup_map hd hg'f hgf hname
      exact hkeep (this ▸ (List.mem_filter.mp hg').2)
  · right
    refine ⟨fun hin => hout ?_, rfl⟩
    obtain ⟨g, hg, rfl⟩ := List.mem_map.mp hin
    exact List.mem_map_of_mem (List.mem_filter.mp hg).1

theorem wellFormed_of_withNames {allowNotFound : Bool} {names : List String} {out : Image}
    (hw : img.withNames allowNotFound names = .ok out) : out.WellFormed := by
  cases ht : img.targetsOf allowNotFound names with
  | error e =>
    rw [withNames, ht] at hw
    cases hw
  | ok ts =>
    rw [withNames_of_targetsOf ht] at hw
    exact wellFormed_of_validate hw

theorem WellFormed.withNames_error (h : img.WellFormed) {allowNotFound : Bool} {names : List String}
    {e : ImageError} (he : img.withNames allowNotFound names = .error e) : ∃ n, e = .notPresent n := by
  cases ht : img.targetsOf allowNotFound names with
  | error e' =>
    rw [withNames, ht] at he
    cases he
    exact targetsOf_error ht
  | ok ts =>
    rw [withNames_of_targetsOf ht,
      validate_eq_ok.mpr ⟨valid_keep (wellFormed_iff_valid.mp h) ts, rfl⟩] at he
    cases he

theorem withNames_isClosed {allowNotFound : Bool} {names : List String} {out : Image}
    (hw : img.withNames allowNotFound names = .ok out) (hc : img.isClosed = true) : out.isClosed = true := by
  cases ht : img.targetsOf allowNotFound names with
  | error e =>
    rw [withNames, ht] at hw
    cases hw
  | ok ts =>
    rw [withNames_of_targetsOf ht, hc] at hw
    obtain ⟨hv, rfl⟩ := validate_eq_ok.mp hw
    exact hv.isClosed

/-- What holds of every image the library builds. -/
structure Invariant (img : Image) : Prop where
  wellFormed : img.WellFormed
  name_ne_empty : ∀ f ∈ img.files, f.name ≠ ""
  position?_eq_some : ∀ name i,
    img.position? name = some i ↔ ∃ h : i < img.files.length, img.files[i].name = name
  file?_eq_some : ∀ name f, img.file? name = some f ↔ f ∈ img.files ∧ f.name = name
  withNames_error : ∀ allowNotFound names e,
    img.withNames allowNotFound names = .error e → ∃ n, e = .notPresent n
  withNames_closed : ∀ allowNotFound names out,
    img.withNames allowNotFound names = .ok out → img.isClosed = true → out.isClosed = true

theorem WellFormed.toInvariant (h : img.WellFormed) : img.Invariant where
  wellFormed := h
  name_ne_empty _ hf := h.name_ne_empty hf
  position?_eq_some _ _ := position?_eq_some_iff h.nodup
  file?_eq_some _ _ := file?_eq_some_iff h.nodup
  withNames_error _ _ _ he := h.withNames_error he
  withNames_closed _ _ _ hw hc := withNames_isClosed hw hc

/-- The images the operations of the library produce: checked from files, decoded from
bytes, or obtained from such an image by dropping its imports or selecting names. -/
inductive Built : Image → Prop
  | ofFiles {files : List ImageFile} {img : Image} : ofFiles files = .ok img → Built img
  | ofFilesOpen {files : List ImageFile} {img : Image} : ofFilesOpen files = .ok img → Built img
  | decode {bs : List UInt8} {img : Image} : Image.decode bs = .ok img → Built img
  | withoutImports {img : Image} : Built img → Built img.withoutImports
  | withNames {img out : Image} {allowNotFound : Bool} {names : List String} :
      Built img → img.withNames allowNotFound names = .ok out → Built out

theorem Built.wellFormed (h : Built img) : img.WellFormed := by
  induction h with
  | ofFiles h => exact wellFormed_of_validate h
  | ofFilesOpen h => exact wellFormed_of_validate h
  | decode h => exact wellFormed_of_decode h
  | withoutImports _ ih => exact ih.withoutImports
  | withNames _ hw _ => exact wellFormed_of_withNames hw

/-- Every image the library builds keeps the invariant: its names are non-empty,
normalized and distinct, every present import comes before its importer, the lookups
find the one file of a name, and selecting names from it fails only on a name that is
not present and keeps it closed if it was. -/
theorem Built.invariant (h : Built img) : img.Invariant :=
  h.wellFormed.toInvariant

theorem built_sampleImage_withoutImports_invariant :
    Built sampleImage.withoutImports ∧ sampleImage.withoutImports.Invariant :=
  have hb : Built sampleImage.withoutImports :=
    .withoutImports (.ofFilesOpen (validate_eq_ok.mpr ⟨sampleImage_valid, rfl⟩))
  ⟨hb, Built.invariant hb⟩

end Image

end ProtoSchema
