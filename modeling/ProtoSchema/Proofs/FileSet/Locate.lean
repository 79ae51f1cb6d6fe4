import Mathlib
import ProtoSchema.Proofs.FileSet.Members
import ProtoSchema.Build.Run

/-!
Names of a file set and how imports find them. A resolved file set never holds two files of one
name, but the check that refuses a name under two roots sees only the files the excludes and
explicit paths let through. Imports are found differently: a name is looked for under every root
in turn, whatever the excludes say. So a file of the set is found by its own name under the first
root holding a file of that name, which is the file itself unless an earlier root holds a file of
that name that the excludes or explicit paths left out of the set (`resolve_names_locate`); with
neither excludes nor explicit paths, no name of a schema file of the bucket stands under two roots
and every file of the set is found at its own path. The build reads the files of the set from
their own paths and marks their names seen before it looks for any import, so the file found
instead is never read in their place.

The path facts come first: joining a directory and a name inverts taking the name below the
directory (`Path.join_of_relativeTo`, `Path.relativeTo_of_join`), and the extension of a path is
that of its name below any directory (`Path.ext_of_relativeTo`).
-/

namespace ProtoSchema

namespace Path

theorem toList_of_relativeTo {p d n : String} (hd : d ≠ ".") (h : relativeTo p d = some n) :
    p.toList = d.toList ++ '/' :: n.toList := by
  unfold relativeTo at h
  rw [if_neg hd] at h
  split at h
  · rename_i hpre
    cases h
    obtain ⟨t, ht⟩ := String.startsWith_string_iff.mp hpre
    have hsplit : p.toList = d.toList ++ '/' :: t := by simpa using ht.symm
    rw [hsplit, String.toList_ofList, ← String.length_toList]
    simp
  · cases h

theorem normal_append_slash {a b : String} (ha : Normal a) (ha' : a ≠ ".") (hb : Normal b) (hb' : b ≠ ".") :
    Normal (String.ofList (a.toList ++ '/' :: b.toList)) := by
  rcases ha with rfl | ha
  · exact absurd rfl ha'
  rcases hb with rfl | hb
  · exact absurd rfl hb'
  refine .inr fun seg hseg => ?_
  rw [String.toList_ofList, splitSlash_append_slash] at hseg
  rcases List.mem_append.mp hseg with hseg | hseg
  · exact ha seg hseg
  · exact hb seg hseg

theorem relativeTo_ne_dot {p d n : String} (hp : Normal p) (h : relativeTo p d = some n) : n ≠ "." := by
  by_cases hd : d = "."
  · unfold relativeTo at h
    rw [if_pos hd] at h
    split at h
    · cases h
    · cases h
      assumption
  · rintro rfl
    have hsplit := toList_of_relativeTo hd h
    rcases hp with rfl | hp
    · have := congrArg List.length hsplit
      simp at this
    · have := hp ['.'] (by rw [hsplit, splitSlash_append_slash]; simp [splitSlash])
      exact this.2.1 rfl

/-- Joining a directory and the name of a normal path below it gives the path back. -/
theorem join_of_relativeTo {p d n : String} (hp : Normal p) (hd : Normal d) (h : relativeTo p d = some n) :
    join d n = .ok p := by
  by_cases hdot : d = "."
  · have hn : n = p := by
      unfold relativeTo at h
      rw [if_pos hdot] at h
      split at h
      · cases h
      · cases h
        rfl
    rw [join, if_pos (.inr hdot), hn, normalize_of_normal hp]
  · have hsplit := toList_of_relativeTo hdot h
    have hne : d ≠ "" := ne_empty_of_isNormalized (isNormalized_iff.mpr hd)
    have hjoin : d ++ "/" ++ n = p := String.toList_inj.mp (by simp [hsplit])
    rw [join, if_neg (by tauto), hjoin, normalize_of_normal hp]

/-- A path found by joining a directory and a normal name lies below the directory under
that name. -/
theorem relativeTo_of_join {p d n : String} (hd : Normal d) (hn : Normal n) (hn' : n ≠ ".")
    (h : join d n = .ok p) : relativeTo p d = some n := by
  by_cases hdot : d = "."
  · rw [join, if_pos (.inr hdot), normalize_of_normal hn] at h
    cases h
    simp [relativeTo, hdot, hn']
  · have hne : d ≠ "" := ne_empty_of_isNormalized (isNormalized_iff.mpr hd)
    have hnormal := normal_append_slash hd hdot hn hn'
    have hcat : String.ofList (d.toList ++ '/' :: n.toList) = d ++ "/" ++ n :=
      String.toList_inj.mp (by simp)
    rw [hcat] at hnormal
    rw [join, if_neg (by tauto), normalize_of_normal hnormal] at h
    cases h
    have hpre : (d ++ "/").toList <+: (d ++ "/" ++ n).toList := by simp
    rw [relativeTo, if_neg hdot, if_pos (String.startsWith_string_iff.mpr hpre)]
    congr 1
    apply String.toList_inj.mp
    rw [String.toList_ofList, ← String.length_toList]
    simp

theorem baseName_append_slash (a b : List Char) : baseName (a ++ '/' :: b) = baseName b := by
  unfold baseName
  rw [List.reverse_append, List.reverse_cons, List.append_assoc, List.singleton_append,
    List.takeWhile_append]
  split
  · rename_i hlen
    have hall : b.reverse.takeWhile (· ≠ '/') = b.reverse :=
      (List.takeWhile_prefix _).eq_of_length hlen
    rw [hall, List.takeWhile_cons_of_neg (by simp), List.append_nil]
  · rfl

/-- A path has the extension of its name below any directory. -/
theorem ext_of_relativeTo {p d n : String} (h : relativeTo p d = some n) : ext p = ext n := by
  by_cases hd : d = "."
  · unfold relativeTo at h
    rw [if_pos hd] at h
    split at h
    · cases h
    · cases h
      rfl
  · unfold ext
    rw [toList_of_relativeTo hd h, baseName_append_slash]

theorem normal_of_join {d n p : String} (h : join d n = .ok p) : Normal p := by
  unfold join at h
  split at h
  · exact normalize_normal h
  · exact normalize_normal h

end Path

namespace Bucket

theorem contains_eq_ok_true_iff {bucket : Bucket} {p : String} (hp : Path.Normal p) :
    bucket.contains p = .ok true ↔ p ∈ bucket.entries.map (·.1) := by
  rw [contains, Path.normalize_of_normal hp]
  simp

end Bucket

theorem locateImport_first {bucket : Bucket} {roots : List String} {name : String}
    (hn : Path.isNormalized name = true) {r₀ p₀ : String} (hr₀ : r₀ ∈ roots)
    (hj₀ : Path.join r₀ name = .ok p₀) (hc₀ : bucket.contains p₀ = .ok true) :
    ∃ l₁ r l₂ p, roots = l₁ ++ r :: l₂ ∧ locateImport bucket roots name = some (.bucket name p) ∧
      Path.join r name = .ok p ∧ bucket.contains p = .ok true ∧
      ∀ x ∈ l₁, ∀ c, Path.join x name = .ok c → bucket.contains c ≠ .ok true := by
  unfold locateImport
  rw [if_neg (by simp [hn])]
  dsimp only
  split
  · rename_i p hfound
    obtain ⟨l₁, r, l₂, rfl, hr, hbefore⟩ := List.findSome?_eq_some_iff.mp hfound
    -- the root found holds the name, and every root before it does not
    have hheld : Path.join r name = .ok p ∧ bucket.contains p = .ok true := by
      split at hr
      · split at hr
        · cases hr
          exact ⟨by assumption, by assumption⟩
        · cases hr
      · cases hr
    refine ⟨l₁, r, l₂, p, rfl, rfl, hheld.1, hheld.2, fun x hx c hj hc => ?_⟩
    have hnone := hbefore x hx
    simp only [hj, hc] at hnone
    cases hnone
  · rename_i hnone
    have h₀ := List.findSome?_eq_none_iff.mp hnone r₀ hr₀
    simp only [hj₀, hc₀] at h₀
    cases h₀

namespace FileSet

variable {entries : List (String × List UInt8)} {bucket : Bucket} {options : FileSetOptions} {fs : FileSet}

theorem normal_of_mem_roots (h : resolve bucket options = .ok fs) {r : String} (hr : r ∈ fs.roots) :
    Path.Normal r := by
  obtain ⟨roots, -, -, -, hroots, hfsroots, -⟩ := resolve_eq_ok h
  exact Path.normalize_normal (normalize_of_mem_roots hroots (hfsroots ▸ hr))

theorem root_eq_of_isUnder (h : resolve bucket options = .ok fs) {f : FileRef} (hf : f ∈ fs.files)
    {r : String} (hr : r ∈ fs.roots) (hu : Path.isUnder f.path r = true) : r = f.root := by
  obtain ⟨-, -, -, -, -, -, -, -, hro, -⟩ := resolve_eq_ok h
  obtain ⟨hfroot, -, hname⟩ := mem_resolve h hf
  have hpair := pairwise_of_overlap? hro
  have : Std.Symm fun a b : String => Path.isUnder a b = false ∧ Path.isUnder b a = false :=
    ⟨fun _ _ h => h.symm⟩
  by_contra hne
  obtain ⟨h₁, h₂⟩ := hpair.forall hr hfroot hne
  rcases Path.isUnder_total hu (Path.isUnder_of_relativeTo hname).1 with h | h
  · rw [h₁] at h; cases h
  · rw [h₂] at h; cases h

theorem ext_of_mem_files (h : resolve bucket options = .ok fs) {f : FileRef} (hf : f ∈ fs.files) :
    Path.ext f.path = schemaExtension := by
  obtain ⟨roots, excludes, explicit, found, hroots, hfsroots, -, -, -, -, -, -, hfound, hfiles, -⟩ :=
    resolve_eq_ok h
  rw [hfiles, List.mem_mergeSort] at hf
  obtain ⟨r, hr, refs, hrefs, hf⟩ := Except.mem_flatMapM hfound hf
  exact ((mem_filesUnder_iff hrefs (normalize_of_mem_roots hroots (hfsroots ▸ hr))).mp hf).2.2.1

theorem mem_files_of_unfiltered (h : resolve bucket options = .ok fs) (hexcl : options.excludes = [])
    (hpaths : options.paths = []) {q r n : String} (hq : q ∈ bucket.entries.map (·.1))
    (hext : Path.ext q = schemaExtension) (hr : r ∈ fs.roots) (hn : Path.relativeTo q r = some n) :
    ⟨r, n, q⟩ ∈ fs.files := by
  obtain ⟨roots, excludes, explicit, found, hroots, hfsroots, hexcl', hexpl', -, -, -, -, hfound, hfiles,
    -⟩ := resolve_eq_ok h
  rw [hexcl] at hexcl'
  rw [hpaths] at hexpl'
  cases hexcl'
  cases hexpl'
  obtain ⟨refs, hrefs, hkept⟩ := Except.flatMapM_mem_ok hfound hr
  rw [hfiles, List.mem_mergeSort]
  exact hkept _ ((mem_filesUnder_iff hrefs (normalize_of_mem_roots hroots (hfsroots ▸ hr))).mpr
    ⟨rfl, hq, hext, by simp, by simp, hn⟩)

theorem locate_name (hb : Bucket.ofFiles entries = .ok bucket) (h : resolve bucket options = .ok fs)
    {F : FileRef} (hF : F ∈ fs.files) :
    ∃ l₁ r l₂ p, fs.roots = l₁ ++ r :: l₂ ∧ locateImport bucket fs.roots F.name = some (.bucket F.name p) ∧
      Path.relativeTo p r = some F.name ∧ p ∈ bucket.entries.map (·.1) ∧
      (∀ x ∈ l₁, ∀ q ∈ bucket.entries.map (·.1), Path.relativeTo q x ≠ some F.name) ∧
      ((r = F.root ∧ p = F.path) ∨ (F.root ∈ l₂ ∧ p ∉ fs.files.map (·.path))) := by
  have hnb := Bucket.ofFiles_normalized hb
  have hstored : ∀ q ∈ bucket.entries.map (·.1), Path.Normal q := by
    intro q hq
    obtain ⟨e, he, rfl⟩ := List.mem_map.mp hq
    exact Path.isNormalized_iff.mp (hnb e he)
  obtain ⟨hFroot, hFpath, hFname⟩ := mem_resolve h hF
  have hnameN : Path.isNormalized F.name = true := name_isNormalized hnb h hF
  have hname_ne : F.name ≠ "." := Path.relativeTo_ne_dot (hstored _ hFpath) hFname
  -- F's own root holds F's name, at F's path
  have hj₀ := Path.join_of_relativeTo (hstored _ hFpath) (normal_of_mem_roots h hFroot) hFname
  have hc₀ := (Bucket.contains_eq_ok_true_iff (hstored _ hFpath)).mpr hFpath
  obtain ⟨l₁, r, l₂, p, hsplit, hloc, hj, hc, hbefore⟩ := locateImport_first hnameN hFroot hj₀ hc₀
  have hr : r ∈ fs.roots := hsplit ▸ List.mem_append_right _ List.mem_cons_self
  have hrel : Path.relativeTo p r = some F.name :=
    Path.relativeTo_of_join (normal_of_mem_roots h hr) (Path.isNormalized_iff.mp hnameN) hname_ne hj
  have hp := (Bucket.contains_eq_ok_true_iff (Path.normal_of_join hj)).mp hc
  refine ⟨l₁, r, l₂, p, hsplit, hloc, hrel, hp, fun x hx q hq hxq => ?_, ?_⟩
  · have hx' : x ∈ fs.roots := hsplit ▸ List.mem_append_left _ hx
    exact hbefore x hx q (Path.join_of_relativeTo (hstored q hq) (normal_of_mem_roots h hx') hxq)
      ((Bucket.contains_eq_ok_true_iff (hstored q hq)).mpr hq)
  · have hFmem : F.root ∈ r :: l₂ := by
      rw [hsplit] at hFroot
      rcases List.mem_append.mp hFroot with hmem | hmem
      · exact absurd hc₀ (hbefore _ hmem _ hj₀)
      · exact hmem
    by_cases hrF : r = F.root
    · subst hrF
      rw [hj₀] at hj
      exact .inl ⟨rfl, (Except.ok.inj hj).symm⟩
    · refine .inr ⟨(List.mem_cons.mp hFmem).resolve_left (Ne.symm hrF), fun hmem => hrF ?_⟩
      obtain ⟨G, hG, hGp⟩ := List.mem_map.mp hmem
      have hGroot : r = G.root := root_eq_of_isUnder h hG hr (hGp ▸ (Path.isUnder_of_relativeTo hrel).1)
      obtain ⟨-, -, hGname⟩ := mem_resolve h hG
      rw [← hGroot, hGp, hrel] at hGname
      have hGF : G = F := List.inj_on_of_nodup_map (names_nodup h) hG hF (Option.some.inj hGname).symm
      rw [hGroot, hGF]

/-- How the names of a resolved set are found. Its files have distinct names; each is found by
its name under the first root holding a stored file of that name, which is the file's own root
and path, or an earlier root whose file of that name the set leaves out; and with neither
excludes nor explicit paths, no name of a stored schema file stands under two roots and every
file is found at its own path. -/
structure NamesLocated (bucket : Bucket) (options : FileSetOptions) (fs : FileSet) : Prop where
  names_nodup : (fs.files.map (·.name)).Nodup
  first_root : ∀ F ∈ fs.files, ∃ l₁ r l₂ p, fs.roots = l₁ ++ r :: l₂ ∧
    locateImport bucket fs.roots F.name = some (.bucket F.name p) ∧
    Path.relativeTo p r = some F.name ∧ p ∈ bucket.entries.map (·.1) ∧
    (∀ x ∈ l₁, ∀ q ∈ bucket.entries.map (·.1), Path.relativeTo q x ≠ some F.name) ∧
    ((r = F.root ∧ p = F.path) ∨ (F.root ∈ l₂ ∧ p ∉ fs.files.map (·.path)))
  unfiltered : options.excludes = [] → options.paths = [] →
    (∀ q ∈ bucket.entries.map (·.1), ∀ q' ∈ bucket.entries.map (·.1), ∀ r ∈ fs.roots, ∀ r' ∈ fs.roots,
      ∀ n, Path.ext q = schemaExtension → Path.relativeTo q r = some n → Path.relativeTo q' r' = some n →
        r = r' ∧ q = q') ∧
    ∀ F ∈ fs.files, locateImport bucket fs.roots F.name = some (.bucket F.name F.path)

/-- The names of every file set resolved over a bucket built by inserts are found as
`NamesLocated` says. -/
theorem resolve_names_locate (hb : Bucket.ofFiles entries = .ok bucket) (h : resolve bucket options = .ok fs) :
    NamesLocated bucket options fs := by
  refine ⟨names_nodup h, fun F hF => locate_name hb h hF, fun hexcl hpaths => ⟨?_, fun F hF => ?_⟩⟩
  · -- both files are files of the set, of one name, so they are one file
    intro q hq q' hq' r hr r' hr' n hext hn hn'
    have hext' : Path.ext q' = schemaExtension := by
      rw [Path.ext_of_relativeTo hn', ← Path.ext_of_relativeTo hn, hext]
    have hsame := List.inj_on_of_nodup_map (names_nodup h) (mem_files_of_unfiltered h hexcl hpaths hq hext hr hn)
      (mem_files_of_unfiltered h hexcl hpaths hq' hext' hr' hn') rfl
    simp only [FileRef.mk.injEq] at hsame
    exact ⟨hsame.1, hsame.2.2⟩
  · obtain ⟨l₁, r, l₂, p, hsplit, hloc, hrel, hp, -, hcase⟩ := locate_name hb h hF
    rcases hcase with ⟨-, rfl⟩ | ⟨-, hnot⟩
    · exact hloc
    · -- the file found under the earlier root is a schema file of the same name, so it is in the set
      have hr : r ∈ fs.roots := hsplit ▸ List.mem_append_right _ List.mem_cons_self
      obtain ⟨-, -, hFname⟩ := mem_resolve h hF
      have hext : Path.ext p = schemaExtension := by
        rw [Path.ext_of_relativeTo hrel, ← Path.ext_of_relativeTo hFname, ext_of_mem_files h hF]
      exact absurd (List.mem_map.mpr ⟨_, mem_files_of_unfiltered h hexcl hpaths hp hext hr hrel, rfl⟩) hnot

theorem excludedTwin_inputs :
    Bucket.ofFiles [("a/x.proto", []), ("b/x.proto", [])] = .ok ⟨[("a/x.proto", []), ("b/x.proto", [])]⟩ ∧
    resolve ⟨[("a/x.proto", []), ("b/x.proto", [])]⟩ { roots := ["a", "b"], excludes := ["a/x.proto"] } =
      .ok { roots := ["a", "b"], files := [⟨"b", "x.proto", "b/x.proto"⟩] } :=
  ⟨Except.eq_ok_iff_toOption.mpr (by decide +kernel), Except.eq_ok_iff_toOption.mpr (by decide +kernel)⟩

/-- With `a/x.proto` excluded, the set of roots `a` and `b` resolves although the name `x.proto`
stands under both roots, and the name of its one file `b/x.proto` is found at `a/x.proto`. -/
theorem excluded_twin_shadows_name :
    Bucket.ofFiles [("a/x.proto", []), ("b/x.proto", [])] = .ok ⟨[("a/x.proto", []), ("b/x.proto", [])]⟩ ∧
    resolve ⟨[("a/x.proto", []), ("b/x.proto", [])]⟩ { roots := ["a", "b"], excludes := ["a/x.proto"] } =
      .ok { roots := ["a", "b"], files := [⟨"b", "x.proto", "b/x.proto"⟩] } ∧
    Path.relativeTo "a/x.proto" "a" = some "x.proto" ∧ Path.relativeTo "b/x.proto" "b" = some "x.proto" ∧
    locateImport ⟨[("a/x.proto", []), ("b/x.proto", [])]⟩ ["a", "b"] "x.proto" = some (.bucket "x.proto" "a/x.proto") :=
  ⟨excludedTwin_inputs.1, excludedTwin_inputs.2, by decide +kernel, by decide +kernel, by decide +kernel⟩

/-- The names of the set resolved with one of two twins excluded. -/
theorem resolve_names_locate_excludedTwin :
    Bucket.ofFiles [("a/x.proto", []), ("b/x.proto", [])] = .ok ⟨[("a/x.proto", []), ("b/x.proto", [])]⟩ ∧
    resolve ⟨[("a/x.proto", []), ("b/x.proto", [])]⟩ { roots := ["a", "b"], excludes := ["a/x.proto"] } =
      .ok { roots := ["a", "b"], files := [⟨"b", "x.proto", "b/x.proto"⟩] } ∧
    NamesLocated ⟨[("a/x.proto", []), ("b/x.proto", [])]⟩ { roots := ["a", "b"], excludes := ["a/x.proto"] }
      { roots := ["a", "b"], files := [⟨"b", "x.proto", "b/x.proto"⟩] } :=
  ⟨excludedTwin_inputs.1, excludedTwin_inputs.2, resolve_names_locate excludedTwin_inputs.1 excludedTwin_inputs.2⟩

end FileSet

end ProtoSchema
