import ProtoSchema.FileSet
import ProtoSchema.Proofs.Monad
import ProtoSchema.Proofs.Path

/-!
Resolved file sets. One inversion lemma records every check a successful
resolution passed and where its files came from; the facts about the files
are read off it: each is a stored path lying strictly under one of the
roots, named by what follows the root, so over a bucket of normalized paths
every name is a normalized relative path.
-/

namespace ProtoSchema

namespace FileSet

theorem resolve_eq_ok {bucket : Bucket} {options : FileSetOptions} {fs : FileSet}
    (h : resolve bucket options = .ok fs) :
    ∃ roots excludes explicit found,
      normalizeAll options.roots = .ok roots ∧ fs.roots = (if roots.isEmpty then ["."] else roots) ∧
      normalizeAll options.excludes = .ok excludes ∧ normalizeAll options.paths = .ok explicit ∧
      overlap? fs.roots = none ∧ overlap? excludes = none ∧
      checkExcludes fs.roots excludes = .ok () ∧ checkExplicit bucket fs.roots explicit = .ok () ∧
      fs.roots.flatMapM (filesUnder bucket excludes explicit) = .ok found ∧
      fs.files = found.mergeSort (fun a b => decide (a.path ≤ b.path)) ∧
      duplicate? [] fs.files = none ∧ fs.explicit = explicit := by
  unfold resolve at h
  simp only [Except.bind_eq_ok] at h
  obtain ⟨roots, hroots, excludes, hexcl, explicit, hexpl, h⟩ := h
  cases hro : overlap? (if roots.isEmpty then ["."] else roots) with
  | some ab => simp only [hro] at h; cases h
  | none =>
      cases heo : overlap? excludes with
      | some ab => simp only [hro, heo] at h; cases h
      | none =>
          simp only [hro, heo, Except.bind_eq_ok] at h
          obtain ⟨⟨⟩, hce, ⟨⟩, hcx, found, hfound, h⟩ := h
          cases hd : duplicate? [] (found.mergeSort fun a b => decide (a.path ≤ b.path)) with
          | some gf => simp only [hd] at h; cases h
          | none =>
              simp only [hd] at h
              cases h
              exact ⟨roots, excludes, explicit, found, hroots, rfl, hexcl, hexpl, hro, heo, hce, hcx,
                hfound, rfl, hd, rfl⟩

theorem mem_filesUnder {bucket : Bucket} {excludes explicit : List String} {root : String}
    {refs : List FileRef} (h : filesUnder bucket excludes explicit root = .ok refs) {f : FileRef}
    (hf : f ∈ refs) :
    f.root = root ∧ f.path ∈ bucket.entries.map (·.1) ∧ Path.relativeTo f.path root = some f.name := by
  unfold filesUnder ofBucket at h
  simp only [Except.bind_eq_ok, Except.mapError_eq_ok] at h
  obtain ⟨paths, hpaths, h⟩ := h
  cases h
  obtain ⟨p, hp, hf⟩ := List.mem_filterMap.mp hf
  split at hf
  · cases hf
  · split at hf
    · cases hf
    · split at hf
      · cases hf
      · obtain ⟨name, hname, rfl⟩ := Option.map_eq_some_iff.mp hf
        exact ⟨rfl, Bucket.mem_of_list hpaths hp, hname⟩

theorem mem_resolve {bucket : Bucket} {options : FileSetOptions} {fs : FileSet}
    (h : resolve bucket options = .ok fs) {f : FileRef} (hf : f ∈ fs.files) :
    f.root ∈ fs.roots ∧ f.path ∈ bucket.entries.map (·.1) ∧
      Path.relativeTo f.path f.root = some f.name := by
  obtain ⟨-, excludes, explicit, found, -, -, -, -, -, -, -, -, hfound, hfiles, -⟩ := resolve_eq_ok h
  rw [hfiles, List.mem_mergeSort] at hf
  obtain ⟨root, hroot, refs, hrefs, hf⟩ := Except.mem_flatMapM hfound hf
  obtain ⟨rfl, hpath, hname⟩ := mem_filesUnder hrefs hf
  exact ⟨hroot, hpath, hname⟩

theorem name_isNormalized {bucket : Bucket} {options : FileSetOptions} {fs : FileSet}
    (hb : bucket.Normalized) (h : resolve bucket options = .ok fs) {f : FileRef} (hf : f ∈ fs.files) :
    Path.isNormalized f.name = true := by
  obtain ⟨-, hpath, hname⟩ := mem_resolve h hf
  obtain ⟨e, he, hpe⟩ := List.mem_map.mp hpath
  exact Path.isNormalized_relativeTo (hpe ▸ hb e he) hname

theorem duplicate?_eq_none : ∀ {seen l : List FileRef}, duplicate? seen l = none →
    (l.map (·.name)).Nodup ∧ ∀ f ∈ l, ∀ g ∈ seen, g.name ≠ f.name
  | _, [], _ => ⟨List.nodup_nil, by simp⟩
  | seen, f :: rest, h => by
    unfold duplicate? at h
    cases hf : seen.find? (·.name = f.name) with
    | some g =>
      rw [hf] at h
      cases h
    | none =>
      rw [hf] at h
      obtain ⟨hnd, hsep⟩ := duplicate?_eq_none h
      refine ⟨List.nodup_cons.mpr ⟨fun hmem => ?_, hnd⟩, fun x hx g hg heq => ?_⟩
      · obtain ⟨f', hf', heq⟩ := List.mem_map.mp hmem
        exact hsep f' hf' f List.mem_cons_self heq.symm
      rcases List.mem_cons.mp hx with rfl | hx
      · have := List.find?_eq_none.mp hf g hg
        simp [heq] at this
      · exact hsep x hx g (List.mem_cons_of_mem _ hg) heq

theorem names_nodup {bucket : Bucket} {options : FileSetOptions} {fs : FileSet}
    (h : resolve bucket options = .ok fs) : (fs.files.map (·.name)).Nodup := by
  obtain ⟨-, -, -, -, -, -, -, -, -, -, -, -, -, -, hd, -⟩ := resolve_eq_ok h
  exact (duplicate?_eq_none hd).1

theorem resolve_empty : resolve {} {} = .ok { roots := ["."] } := by
  have hdot : Path.normalize "." = .ok "." := Path.normalize_of_normal (Or.inl rfl)
  simp [resolve, normalizeAll, overlap?, checkExcludes, checkExplicit, filesUnder, ofBucket,
    Bucket.list, duplicate?, hdot, pure, Except.pure, bind, Except.bind, Except.mapError]

end FileSet

end ProtoSchema
