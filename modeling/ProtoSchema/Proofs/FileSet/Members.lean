import Mathlib.Data.List.Nodup
import Mathlib.Data.List.Pairwise
import Mathlib.Data.String.Basic
import ProtoSchema.Proofs.FileSet

/-!
Which files a resolved file set holds. A bucket built by inserts keeps its paths in strictly
increasing order (`Bucket.ofFiles_sorted`). A resolution that succeeds holds exactly the
stored schema files strictly below one of its roots, below no exclude and, when explicit
paths are given, below one of them, each named by what follows its root; that root is the
only one above the file, since no two roots lie one under the other. The files come in
strictly increasing path order and have distinct names (`FileSet.resolve_files_exact`).
-/

namespace ProtoSchema

namespace Path

theorem isUnder_iff {p d : String} :
    isUnder p d = true ↔ d = "." ∨ p = d ∨ d.toList ++ ['/'] <+: p.toList := by
  simp [isUnder, String.startsWith_string_iff, or_assoc]

theorem slash_prefix_total {a b p : List Char} (ha : a ++ ['/'] <+: p) (hb : b ++ ['/'] <+: p) :
    a = b ∨ a ++ ['/'] <+: b ∨ b ++ ['/'] <+: a := by
  rcases le_total a.length b.length with hl | hl
  · have h : a ++ ['/'] <+: b ++ ['/'] := List.prefix_of_prefix_length_le ha hb (by simpa using hl)
    rcases hl.lt_or_eq with hlt | heq
    · exact .inr (.inl (List.prefix_of_prefix_length_le h (List.prefix_append b ['/'])
        (by simp; omega)))
    · exact .inl (List.append_inj_left' (h.eq_of_length (by simp [heq])) rfl)
  · have h : b ++ ['/'] <+: a ++ ['/'] := List.prefix_of_prefix_length_le hb ha (by simpa using hl)
    rcases hl.lt_or_eq with hlt | heq
    · exact .inr (.inr (List.prefix_of_prefix_length_le h (List.prefix_append a ['/'])
        (by simp; omega)))
    · exact .inl (List.append_inj_left' (h.eq_of_length (by simp [heq])) rfl).symm

theorem isUnder_total {p a b : String} (ha : isUnder p a = true) (hb : isUnder p b = true) :
    isUnder a b = true ∨ isUnder b a = true := by
  rw [isUnder_iff] at ha hb
  rcases ha with ha | rfl | ha
  · exact .inr (isUnder_iff.mpr (.inl ha))
  · exact .inl (isUnder_iff.mpr hb)
  rcases hb with hb | rfl | hb
  · exact .inl (isUnder_iff.mpr (.inl hb))
  · exact .inr (isUnder_iff.mpr (.inr (.inr ha)))
  rcases slash_prefix_total ha hb with h | h | h
  · exact .inl (isUnder_iff.mpr (.inr (.inl (String.toList_inj.mp h))))
  · exact .inr (isUnder_iff.mpr (.inr (.inr h)))
  · exact .inl (isUnder_iff.mpr (.inr (.inr h)))

theorem isUnder_of_relativeTo {p d n : String} (h : relativeTo p d = some n) :
    isUnder p d = true ∧ p ≠ d := by
  unfold relativeTo at h
  split at h
  · rename_i hd
    split at h
    · cases h
    · rename_i hp
      exact ⟨isUnder_iff.mpr (.inl hd), hd ▸ hp⟩
  · split at h
    · rename_i hpre
      have hpre' : d.toList ++ ['/'] <+: p.toList := by simpa using String.startsWith_string_iff.mp hpre
      refine ⟨isUnder_iff.mpr (.inr (.inr hpre')), ?_⟩
      rintro rfl
      have := hpre'.length_le
      simp at this
    · cases h

end Path

namespace Bucket

def Sorted (bucket : Bucket) : Prop := (bucket.entries.map (·.1)).Pairwise (· < ·)

theorem pairwise_insertSorted (p : String) (bytes : List UInt8) :
    ∀ {es : List (String × List UInt8)}, (es.map (·.1)).Pairwise (· < ·) →
      ((insertSorted p bytes es).map (·.1)).Pairwise (· < ·)
  | [], _ => by simp [insertSorted]
  | (q, b) :: rest, h => by
    obtain ⟨hq, hrest⟩ := List.pairwise_cons.mp h
    unfold insertSorted
    split
    · rename_i hpq
      refine List.pairwise_cons.mpr ⟨fun x hx => ?_, h⟩
      rcases List.mem_cons.mp hx with rfl | hx
      · exact hpq
      · exact lt_trans hpq (hq x hx)
    · split
      · rename_i heq
        subst heq
        exact List.pairwise_cons.mpr ⟨hq, hrest⟩
      · rename_i hpq hne
        -- the new path goes after `q`
        have hqp : q < p := lt_of_le_of_ne (not_lt.mp hpq) (Ne.symm hne)
        refine List.pairwise_cons.mpr ⟨fun x hx => ?_, pairwise_insertSorted p bytes hrest⟩
        obtain ⟨e, he, rfl⟩ := List.mem_map.mp hx
        rcases mem_insertSorted he with he | he
        · rw [he]
          exact hqp
        · exact hq e.1 (List.mem_map_of_mem he)

theorem foldlM_insert {P : Bucket → Prop}
    (hP : ∀ b b' path bytes, P b → b.insert path bytes = .ok b' → P b') :
    ∀ {files : List (String × List UInt8)} {start bucket : Bucket}, P start →
      files.foldlM (fun b (p, bytes) => b.insert p bytes) start = .ok bucket → P bucket
  | [], _, _, hs, h => by cases h; exact hs
  | (p, bytes) :: rest, start, _, hs, h => by
      simp only [List.foldlM_cons] at h
      cases hi : start.insert p bytes with
      | error e => simp [hi, bind, Except.bind] at h
      | ok b =>
          simp only [hi] at h
          exact foldlM_insert hP (hP start b p bytes hs hi) h

/-- A bucket built from a list of files holds its paths in strictly increasing order. -/
theorem ofFiles_sorted {files : List (String × List UInt8)} {bucket : Bucket}
    (h : Bucket.ofFiles files = .ok bucket) : bucket.Sorted := by
  refine foldlM_insert (fun b b' path bytes hb hi => ?_) (by simp [Sorted]) h
  unfold insert at hi
  cases hn : Path.normalize path with
  | error e => simp [hn, bind, Except.bind] at hi
  | ok p =>
      simp only [hn] at hi
      cases hi
      exact pairwise_insertSorted p bytes hb

end Bucket

namespace FileSet

theorem pairwise_of_overlap? :
    ∀ {l : List String}, overlap? l = none →
      l.Pairwise fun a b => Path.isUnder a b = false ∧ Path.isUnder b a = false
  | [], _ => List.Pairwise.nil
  | a :: rest, h => by
    unfold overlap? at h
    cases hf : rest.find? (fun b => Path.isUnder a b || Path.isUnder b a) with
    | some b => rw [hf] at h; cases h
    | none =>
      rw [hf] at h
      refine List.pairwise_cons.mpr ⟨fun b hb => ?_, pairwise_of_overlap? h⟩
      have := List.find?_eq_none.mp hf b hb
      simpa using this

theorem normalize_of_mem_roots {options : FileSetOptions} {roots : List String} {r : String}
    (hroots : normalizeAll options.roots = .ok roots) (hr : r ∈ (if roots.isEmpty then ["."] else roots)) :
    Path.normalize r = .ok r := by
  apply Path.normalize_of_normal
  split at hr
  · rw [List.mem_singleton.mp hr]
    exact .inl rfl
  · obtain ⟨x, -, hx⟩ := Except.mapM_mem_ok hroots hr
    exact Path.normalize_normal (Except.mapError_eq_ok.mp hx)

theorem mem_filesUnder_iff {bucket : Bucket} {excludes explicit : List String} {root : String}
    {refs : List FileRef} (h : filesUnder bucket excludes explicit root = .ok refs)
    (hroot : Path.normalize root = .ok root) {f : FileRef} :
    f ∈ refs ↔ f.root = root ∧ f.path ∈ bucket.entries.map (·.1) ∧
      Path.ext f.path = schemaExtension ∧ (∀ e ∈ excludes, Path.isUnder f.path e = false) ∧
      (explicit ≠ [] → ∃ t ∈ explicit, Path.isUnder f.path t = true) ∧
      Path.relativeTo f.path root = some f.name := by
  unfold filesUnder ofBucket at h
  simp only [Except.bind_eq_ok, Except.mapError_eq_ok] at h
  obtain ⟨paths, hpaths, h⟩ := h
  cases h
  have hlist : paths = (bucket.entries.map (·.1)).filter (Path.isUnder · root) := by
    unfold Bucket.list at hpaths
    rw [hroot] at hpaths
    cases hpaths
    rfl
  subst hlist
  rw [List.mem_filterMap]
  constructor
  · rintro ⟨p, hp, hf⟩
    obtain ⟨hkey, -⟩ := List.mem_filter.mp hp
    split at hf
    · cases hf
    rename_i hext
    split at hf
    · cases hf
    rename_i hexcl
    split at hf
    · cases hf
    rename_i hexpl
    obtain ⟨name, hname, rfl⟩ := Option.map_eq_some_iff.mp hf
    refine ⟨rfl, hkey, not_not.mp hext, fun e he => ?_, fun hne => ?_, hname⟩
    · simpa using fun h' => hexcl (List.any_eq_true.mpr ⟨e, he, h'⟩)
    · simp only [Bool.and_eq_true, Bool.not_eq_true', List.isEmpty_eq_false_iff, ne_eq,
        List.any_eq_false, Bool.not_eq_true] at hexpl
      simpa using not_and.mp hexpl hne
  · rintro ⟨hroot', hkey, hext, hexcl, hexpl, hname⟩
    refine ⟨f.path, List.mem_filter.mpr ⟨hkey, (Path.isUnder_of_relativeTo hname).1⟩, ?_⟩
    have hexcl' : (excludes.any (Path.isUnder f.path)) = false := by
      simpa using fun e he => hexcl e he
    have hexpl' : (!explicit.isEmpty && !explicit.any (Path.isUnder f.path)) = false := by
      cases explicit with
      | nil => rfl
      | cons t ts =>
        obtain ⟨t', ht', hu⟩ := hexpl (List.cons_ne_nil _ _)
        simp only [List.isEmpty_cons, Bool.not_false, Bool.true_and, Bool.not_eq_false']
        exact List.any_eq_true.mpr ⟨t', ht', hu⟩
    simp only [hext, ne_eq, not_true_eq_false, if_false, hexcl', Bool.false_eq_true, hexpl',
      hname, Option.map_some]
    rw [← hroot']

theorem nodup_paths_filesUnder {bucket : Bucket} (hsorted : bucket.Sorted)
    {excludes explicit : List String} {root : String} {refs : List FileRef}
    (h : filesUnder bucket excludes explicit root = .ok refs) : (refs.map (·.path)).Nodup := by
  unfold filesUnder ofBucket at h
  simp only [Except.bind_eq_ok, Except.mapError_eq_ok] at h
  obtain ⟨paths, hpaths, h⟩ := h
  cases h
  have hpaths_nodup : paths.Nodup := by
    unfold Bucket.list at hpaths
    split at hpaths
    · cases hpaths
    · cases hpaths
      exact (hsorted.filter _).imp ne_of_lt
  -- a gathered file keeps the path it was gathered from
  have key : ∀ {x : String} {r : FileRef}, r ∈ (if Path.ext x ≠ schemaExtension then none
      else if excludes.any (Path.isUnder x) then none
      else if !explicit.isEmpty && !explicit.any (Path.isUnder x) then none
      else (Path.relativeTo x root).map fun name => ({ root, name, path := x } : FileRef)) →
        r.path = x := by
    intro x r hr
    split at hr
    · cases hr
    split at hr
    · cases hr
    split at hr
    · cases hr
    obtain ⟨name, -, rfl⟩ := Option.map_eq_some_iff.mp hr
    rfl
  rw [List.map_filterMap]
  refine List.Nodup.filterMap (fun a a' b hb hb' => ?_) hpaths_nodup
  obtain ⟨r, hr, rfl⟩ := Option.map_eq_some_iff.mp hb
  obtain ⟨r', hr', hrr'⟩ := Option.map_eq_some_iff.mp hb'
  exact (key hr).symm.trans (hrr'.symm.trans (key hr'))

theorem nodup_paths_flatMapM {bucket : Bucket} (hsorted : bucket.Sorted)
    {excludes explicit : List String} :
    ∀ {roots : List String} {found : List FileRef},
      roots.Pairwise (fun a b => Path.isUnder a b = false ∧ Path.isUnder b a = false) →
      roots.flatMapM (filesUnder bucket excludes explicit) = .ok found → (found.map (·.path)).Nodup
  | [], found, _, h => by
    simp only [List.flatMapM_nil] at h
    cases h
    exact List.nodup_nil
  | r :: rest, found, hpair, h => by
    simp only [List.flatMapM_cons, Except.bind_eq_ok] at h
    obtain ⟨refs, hrefs, more, hmore, h⟩ := h
    cases h
    obtain ⟨hr, hrest⟩ := List.pairwise_cons.mp hpair
    rw [List.map_append, List.nodup_append]
    refine ⟨nodup_paths_filesUnder hsorted hrefs, nodup_paths_flatMapM hsorted hrest hmore, ?_⟩
    -- a path gathered twice lies under `r` and under a later root, which would overlap
    intro p hp q hq hpq
    subst hpq
    obtain ⟨f, hf, rfl⟩ := List.mem_map.mp hp
    obtain ⟨g, hg, hgf⟩ := List.mem_map.mp hq
    obtain ⟨r', hr', refs', hrefs', hg'⟩ := Except.mem_flatMapM hmore hg
    obtain ⟨-, -, hname⟩ := mem_filesUnder hrefs hf
    obtain ⟨-, -, hname'⟩ := mem_filesUnder hrefs' hg'
    have hu : Path.isUnder f.path r = true := (Path.isUnder_of_relativeTo hname).1
    have hu' : Path.isUnder f.path r' = true := hgf ▸ (Path.isUnder_of_relativeTo hname').1
    obtain ⟨h₁, h₂⟩ := hr r' hr'
    rcases Path.isUnder_total hu hu' with h | h
    · rw [h₁] at h; cases h
    · rw [h₂] at h; cases h

/-- A stored schema file that the roots, excludes and explicit paths select: strictly below a
root, named by what follows it, below no exclude, and below an explicit path when any is
given. -/
structure Selects (bucket : Bucket) (roots excludes explicit : List String) (f : FileRef) : Prop where
  stored : f.path ∈ bucket.entries.map (·.1)
  schema : Path.ext f.path = schemaExtension
  root_mem : f.root ∈ roots
  below_root : Path.isUnder f.path f.root = true
  ne_root : f.path ≠ f.root
  name_eq : Path.relativeTo f.path f.root = some f.name
  not_excluded : ∀ e ∈ excludes, Path.isUnder f.path e = false
  below_explicit : explicit ≠ [] → ∃ t ∈ explicit, Path.isUnder f.path t = true

/-- A resolved file set holds exactly the selected schema files of the bucket, each under the
one root above it, in strictly increasing path order and with distinct names. -/
theorem resolve_files_exact {entries : List (String × List UInt8)} {bucket : Bucket}
    {options : FileSetOptions} {fs : FileSet} {roots excludes explicit : List String}
    (hb : Bucket.ofFiles entries = .ok bucket) (h : resolve bucket options = .ok fs)
    (hroots : normalizeAll options.roots = .ok roots) (hexcl : normalizeAll options.excludes = .ok excludes)
    (hexpl : normalizeAll options.paths = .ok explicit) :
    fs.roots = (if roots.isEmpty then ["."] else roots) ∧
      (∀ f, f ∈ fs.files ↔ Selects bucket fs.roots excludes explicit f) ∧
      (∀ f ∈ fs.files, ∀ r ∈ fs.roots, Path.isUnder f.path r = true → r = f.root) ∧
      fs.files.Pairwise (fun a b => a.path < b.path) ∧ (fs.files.map (·.name)).Nodup := by
  obtain ⟨roots', excludes', explicit', found, hroots', hfsroots, hexcl', hexpl', hro, -, -, -,
    hfound, hfiles, -, -⟩ := resolve_eq_ok h
  rw [hroots] at hroots'
  rw [hexcl] at hexcl'
  rw [hexpl] at hexpl'
  cases hroots'
  cases hexcl'
  cases hexpl'
  have hpair := pairwise_of_overlap? hro
  have hsorted := Bucket.ofFiles_sorted hb
  -- the members of the gathered list, before sorting
  have hmem : ∀ f, f ∈ found ↔ Selects bucket fs.roots excludes explicit f := by
    intro f
    constructor
    · intro hf
      obtain ⟨r, hr, refs, hrefs, hf⟩ := Except.mem_flatMapM hfound hf
      obtain ⟨rfl, hkey, hext, hex, hexp, hname⟩ :=
        (mem_filesUnder_iff hrefs (normalize_of_mem_roots hroots (hfsroots ▸ hr))).mp hf
      obtain ⟨hu, hne⟩ := Path.isUnder_of_relativeTo hname
      exact ⟨hkey, hext, hr, hu, hne, hname, hex, hexp⟩
    · intro hs
      obtain ⟨refs, hrefs, hkept⟩ := Except.flatMapM_mem_ok hfound hs.root_mem
      exact hkept f ((mem_filesUnder_iff hrefs (normalize_of_mem_roots hroots (hfsroots ▸ hs.root_mem))).mpr
        ⟨rfl, hs.stored, hs.schema, hs.not_excluded, hs.below_explicit, hs.name_eq⟩)
  have hpaths : (found.map (·.path)).Nodup := nodup_paths_flatMapM hsorted hpair hfound
  refine ⟨hfsroots, fun f => by rw [hfiles, List.mem_mergeSort]; exact hmem f, ?_, ?_, names_nodup h⟩
  · -- a second root above a file would overlap the one it was gathered under
    intro f hf r hr hu
    rw [hfiles, List.mem_mergeSort] at hf
    have hs := (hmem f).mp hf
    have : Std.Symm fun a b : String => Path.isUnder a b = false ∧ Path.isUnder b a = false :=
      ⟨fun _ _ h => h.symm⟩
    by_contra hne
    obtain ⟨h₁, h₂⟩ := hpair.forall (hfsroots ▸ hr) (hfsroots ▸ hs.root_mem) hne
    rcases Path.isUnder_total hu hs.below_root with h | h
    · rw [h₁] at h; cases h
    · rw [h₂] at h; cases h
  · -- sorted by path, with no path twice
    have hle : fs.files.Pairwise (fun a b => decide (a.path ≤ b.path) = true) := by
      rw [hfiles]
      exact List.pairwise_mergeSort (fun a b c hab hbc => by simp_all; exact le_trans hab hbc)
        (fun a b => by simpa using le_total a.path b.path) found
    have hne : fs.files.Pairwise (fun a b => a.path ≠ b.path) := by
      have hn : (fs.files.map (·.path)).Nodup := by
        rw [hfiles]
        exact ((List.mergeSort_perm found _).map _).nodup_iff.mpr hpaths
      exact List.pairwise_map.mp hn
    exact (hle.and hne).imp fun ⟨h₁, h₂⟩ => lt_of_le_of_ne (by simpa using h₁) h₂

/-- One root with a directory excluded: the set holds the schema file under the root, named
below it, and leaves out the excluded one, the file of another type and the file outside the
root. -/
theorem resolve_files_exact_acme :
    Bucket.ofFiles [("proto/acme/v1/a.proto", []), ("proto/acme/internal/x.proto", []),
      ("proto/README.md", []), ("other.proto", [])] =
        .ok ⟨[("other.proto", []), ("proto/README.md", []), ("proto/acme/internal/x.proto", []),
          ("proto/acme/v1/a.proto", [])]⟩ ∧
    resolve ⟨[("other.proto", []), ("proto/README.md", []), ("proto/acme/internal/x.proto", []),
        ("proto/acme/v1/a.proto", [])]⟩ { roots := ["proto"], excludes := ["proto/acme/internal"] } =
      .ok { roots := ["proto"], files := [⟨"proto", "acme/v1/a.proto", "proto/acme/v1/a.proto"⟩] } ∧
    ∀ f, f = (⟨"proto", "acme/v1/a.proto", "proto/acme/v1/a.proto"⟩ : FileRef) ↔
      Selects ⟨[("other.proto", []), ("proto/README.md", []), ("proto/acme/internal/x.proto", []),
          ("proto/acme/v1/a.proto", [])]⟩ ["proto"] ["proto/acme/internal"] [] f := by
  have hb := Except.eq_ok_iff_toOption.mpr (by decide +kernel :
    (Bucket.ofFiles [("proto/acme/v1/a.proto", []), ("proto/acme/internal/x.proto", []),
      ("proto/README.md", []), ("other.proto", [])]).toOption =
        some ⟨[("other.proto", []), ("proto/README.md", []), ("proto/acme/internal/x.proto", []),
          ("proto/acme/v1/a.proto", [])]⟩)
  have h := Except.eq_ok_iff_toOption.mpr (by decide +kernel :
    (resolve ⟨[("other.proto", []), ("proto/README.md", []), ("proto/acme/internal/x.proto", []),
        ("proto/acme/v1/a.proto", [])]⟩ { roots := ["proto"], excludes := ["proto/acme/internal"] }).toOption =
      some { roots := ["proto"], files := [⟨"proto", "acme/v1/a.proto", "proto/acme/v1/a.proto"⟩] })
  have hroots : normalizeAll ["proto"] = .ok ["proto"] := Except.eq_ok_iff_toOption.mpr (by decide +kernel)
  have hexcl : normalizeAll ["proto/acme/internal"] = .ok ["proto/acme/internal"] :=
    Except.eq_ok_iff_toOption.mpr (by decide +kernel)
  refine ⟨hb, h, fun f => ?_⟩
  rw [← List.mem_singleton]
  exact (resolve_files_exact hb h hroots hexcl rfl).2.1 f

end FileSet

end ProtoSchema
