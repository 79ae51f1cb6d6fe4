import ProtoSchema.Proofs.Image.Invariant

/-!
Subsetting an image a second time changes nothing. Dropping the imports leaves
only requested files, so a second drop keeps all of them. Selecting names keeps
the files reached from the requested ones; in the selection the same names are
requested, and every import edge on a path from them is still there, because
the file it starts from was reached and so kept. The reach, and with it the
selection and its marks, is therefore the same inside the selection as in the
image, whether or not the image was closed.

Main statement: `subsetting_idempotent`.
-/

namespace ProtoSchema

namespace Image

open Relation

variable {img : Image} {names : List String}

theorem withoutImports_withoutImports (img : Image) :
    img.withoutImports.withoutImports = img.withoutImports := by
  simp [withoutImports, List.filter_filter]

theorem importNames_withoutImports (img : Image) : img.withoutImports.importNames = [] := by
  simp [importNames, withoutImports, List.filter_filter]

/-! ### The selection seen from inside -/

open Classical in
theorem mem_selection_files {f : ImageFile} :
    f ∈ (img.selection names).files ↔ ∃ g ∈ img.files, img.Selected names g.name ∧
      f = { g with isImport := decide ¬ img.Requested names g.name } := by
  simp only [selection, List.mem_map, List.mem_filter, decide_eq_true_eq]
  constructor
  · rintro ⟨g, ⟨hg, hsel⟩, rfl⟩
    exact ⟨g, hg, hsel, rfl⟩
  · rintro ⟨g, hg, hsel, rfl⟩
    exact ⟨g, ⟨hg, hsel⟩, rfl⟩

theorem mem_names_selection {x : String} :
    x ∈ (img.selection names).names ↔ x ∈ img.names ∧ img.Selected names x := by
  simp only [Image.names, List.mem_map, mem_selection_files]
  constructor
  · rintro ⟨f, ⟨g, hg, hsel, rfl⟩, rfl⟩
    exact ⟨⟨g, hg, rfl⟩, hsel⟩
  · rintro ⟨⟨g, hg, rfl⟩, hsel⟩
    exact ⟨_, ⟨g, hg, hsel, rfl⟩, rfl⟩

theorem requested_selection {t : String} :
    (img.selection names).Requested names t ↔ img.Requested names t := by
  refine ⟨fun ⟨ht, hn⟩ => ⟨(mem_names_selection.mp ht).1, hn⟩, fun h => ⟨?_, h.2⟩⟩
  exact mem_names_selection.mpr ⟨h.1, t, h, .refl⟩

theorem ImportEdge.of_selection {a b : String} (h : (img.selection names).ImportEdge a b) :
    img.ImportEdge a b := by
  obtain ⟨f, hf, rfl, hb⟩ := h
  obtain ⟨g, hg, -, rfl⟩ := mem_selection_files.mp hf
  exact ⟨g, hg, rfl, hb⟩

theorem ImportEdge.selection {a b : String} (ha : img.Selected names a) (h : img.ImportEdge a b) :
    (img.selection names).ImportEdge a b := by
  obtain ⟨f, hf, rfl, hb⟩ := h
  exact ⟨_, mem_selection_files.mpr ⟨f, hf, ha, rfl⟩, rfl, hb⟩

theorem selected_selection {x : String} :
    (img.selection names).Selected names x ↔ img.Selected names x := by
  constructor
  · rintro ⟨t, ht, hr⟩
    exact ⟨t, requested_selection.mp ht, ReflTransGen.mono (fun _ _ => ImportEdge.of_selection) _ _ hr⟩
  · rintro ⟨t, ht, hr⟩
    refine ⟨t, requested_selection.mpr ht, ?_⟩
    induction hr with
    | refl => exact .refl
    | tail hta hab ih => exact ih.tail (ImportEdge.selection ⟨t, ht, hta⟩ hab)

theorem selection_selection : (img.selection names).selection names = img.selection names := by
  classical
  have hsel : ∀ f ∈ (img.selection names).files,
      decide ((img.selection names).Selected names f.name) = true := by
    intro f hf
    obtain ⟨g, -, hg, rfl⟩ := mem_selection_files.mp hf
    exact decide_eq_true (selected_selection.mpr hg)
  have hmark : ∀ f ∈ (img.selection names).files,
      { f with isImport := decide ¬ (img.selection names).Requested names f.name } = f := by
    intro f hf
    obtain ⟨g, -, -, rfl⟩ := mem_selection_files.mp hf
    exact congrArg (fun b => { g with isImport := b }) (decide_eq_decide.mpr requested_selection.not)
  conv_lhs => rw [selection, List.filter_eq_self.mpr hsel, List.map_congr_left hmark, List.map_id']

/-! ### Selecting again -/

theorem requestKey_mem_of_targetsOf :
    ∀ {names ts : List String}, img.targetsOf false names = .ok ts → ∀ n ∈ names, requestKey n ∈ img.names
  | [], _, _ => by simp
  | raw :: rest, ts, h => by
    rw [targetsOf_cons] at h
    by_cases hk : requestKey raw ∈ img.names
    · rw [if_pos hk] at h
      cases hr : img.targetsOf false rest with
      | error e =>
        rw [hr] at h
        cases h
      | ok ts' =>
        intro n hn
        rcases List.mem_cons.mp hn with rfl | hn
        · exact hk
        · exact requestKey_mem_of_targetsOf hr n hn
    · rw [if_neg hk] at h
      cases h

theorem withNames_eq_ok_iff (hI : Valid false img.files) {allowNotFound : Bool} {out : Image} :
    img.withNames allowNotFound names = .ok out ↔
      (allowNotFound = true ∨ ∀ n ∈ names, requestKey n ∈ img.names) ∧ out = img.selection names := by
  constructor
  · intro h
    cases ht : img.targetsOf allowNotFound names with
    | error e =>
      rw [withNames, ht] at h
      cases h
    | ok ts =>
      have hfound : allowNotFound = true ∨ ∀ n ∈ names, requestKey n ∈ img.names := by
        cases allowNotFound with
        | true => exact .inl rfl
        | false => exact .inr (requestKey_mem_of_targetsOf ht)
      obtain ⟨ts', hts', hmem⟩ := targetsOf_ok hfound
      rw [ht, Except.ok.injEq] at hts'
      subst hts'
      rw [withNames_of_targetsOf ht, validate_eq_ok] at h
      exact ⟨hfound, by rw [h.2, keep_eq_selection hI.2.1 hmem]⟩
  · rintro ⟨hfound, rfl⟩
    obtain ⟨ts, hts, hmem⟩ := targetsOf_ok hfound
    rw [withNames_of_targetsOf hts, validate_eq_ok.mpr ⟨valid_keep hI ts, rfl⟩,
      keep_eq_selection hI.2.1 hmem]

theorem withNames_withNames (hI : img.WellFormed) {allowNotFound : Bool} {out : Image}
    (h : img.withNames allowNotFound names = .ok out) : out.withNames allowNotFound names = .ok out := by
  obtain ⟨hfound, rfl⟩ := (withNames_eq_ok_iff (wellFormed_iff_valid.mp hI)).mp h
  have hfound' : allowNotFound = true ∨ ∀ n ∈ names, requestKey n ∈ (img.selection names).names :=
    hfound.imp_right fun hn n hmem =>
      mem_names_selection.mpr ⟨hn n hmem, requestKey n, ⟨hn n hmem, n, hmem, rfl⟩, .refl⟩
  rw [(withNames_eq_ok_iff (wellFormed_iff_valid.mp (wellFormed_of_withNames h))).mpr
    ⟨hfound', selection_selection.symm⟩]

/-- Subsetting a valid image twice is subsetting it once: dropping the imports again
changes nothing and leaves no import, and selecting the same names again, with the same
leave to skip missing ones, gives back the selection. -/
theorem subsetting_idempotent (hI : img.WellFormed) :
    (img.withoutImports.withoutImports = img.withoutImports ∧ img.withoutImports.importNames = []) ∧
      ∀ (allowNotFound : Bool) (names : List String) (out : Image),
        img.withNames allowNotFound names = .ok out → out.withNames allowNotFound names = .ok out :=
  ⟨⟨withoutImports_withoutImports img, importNames_withoutImports img⟩,
    fun _ _ _ h => withNames_withNames hI h⟩

theorem sampleImage_subsetting_idempotent :
    sampleImage.WellFormed ∧
      (sampleImage.withoutImports.withoutImports = sampleImage.withoutImports ∧
          sampleImage.withoutImports.importNames = []) ∧
        ∀ (allowNotFound : Bool) (names : List String) (out : Image),
          sampleImage.withNames allowNotFound names = .ok out →
            out.withNames allowNotFound names = .ok out :=
  have hw : sampleImage.WellFormed := wellFormed_iff_valid.mpr sampleImage_valid
  ⟨hw, subsetting_idempotent hw⟩

end Image

end ProtoSchema
