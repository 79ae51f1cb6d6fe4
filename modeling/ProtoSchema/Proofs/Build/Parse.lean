import ProtoSchema.Build.Run
import ProtoSchema.Proofs.Monad

/-!
The parse waves of a build. Every name is read at most once: the names of the
parsed files, the names that failed and the names of the wave still to read
are pairwise distinct, and all of them have been seen. Each name is read from
one place, `sourceOf`: the file-set file of that name, or else wherever
an import finds it. So a parsed file carries the path of its source, and every
annotation of this phase is the annotation of a failed name at that name's
path.

The invariant is `WaveInv`; one wave keeps it (`WaveInv.step`), hence so does
the whole run (`parseWaves_inv`), and the first wave built from the file set
has it (`parseAll_inv`).
-/

namespace ProtoSchema

namespace SourceOrigin

def name : SourceOrigin → String
  | .bucket name _ => name
  | .embedded name _ => name

def path : SourceOrigin → String
  | .bucket _ path => path
  | .embedded name _ => name

end SourceOrigin

namespace Loaded

def name : Loaded → String
  | .parsed f => f.name
  | .failed name _ => name

def file? : Loaded → Option ParsedFile
  | .parsed f => some f
  | .failed _ _ => none

def failure? : Loaded → Option (String × Annotation)
  | .parsed _ => none
  | .failed name a => some (name, a)

def From (src : SourceOrigin) : Loaded → Prop
  | .parsed f => f.name = src.name ∧ f.path = src.path
  | .failed name a => name = src.name ∧ a.path = src.path

end Loaded

theorem parseText_from (src : SourceOrigin) (cs : List Char) :
    (parseText src.name src.path cs).From src := by
  unfold parseText
  split <;> exact ⟨rfl, rfl⟩

theorem parseText_parsed {name path : String} {cs : List Char} {f : ParsedFile}
    (h : parseText name path cs = .parsed f) : parseSchemaChars cs = .ok f.schema := by
  unfold parseText at h
  split at h
  · rename_i schema hschema
    cases h
    exact hschema
  · cases h

theorem loadSource_parsed {bucket : Bucket} {src : SourceOrigin} {f : ParsedFile}
    (h : loadSource bucket src = .ok (.parsed f)) : ∃ cs, parseSchemaChars cs = .ok f.schema := by
  cases src with
  | bucket name path =>
    obtain ⟨bytes, -, h⟩ := Except.bind_eq_ok.mp h
    split at h
    · cases h
    · exact ⟨_, parseText_parsed (Except.ok.inj h)⟩
  | embedded name lines => exact ⟨_, parseText_parsed (Except.ok.inj h)⟩

theorem loadSource_from {bucket : Bucket} {src : SourceOrigin} {l : Loaded}
    (h : loadSource bucket src = .ok l) : l.From src := by
  cases src with
  | bucket name path =>
      simp only [loadSource, Except.bind_eq_ok] at h
      obtain ⟨bytes, -, h⟩ := h
      split at h
      · cases h; exact ⟨rfl, rfl⟩
      · cases h; exact parseText_from (.bucket name path) _
  | embedded name lines =>
      cases h
      exact parseText_from (.embedded name lines) _

theorem locateImport_eq_some {bucket : Bucket} {roots : List String} {name : String}
    {src : SourceOrigin} (h : locateImport bucket roots name = some src) :
    src.name = name ∧ Path.isNormalized name = true := by
  unfold locateImport at h
  split at h
  · cases h
  · rename_i hn
    refine ⟨?_, by simpa using hn⟩
    dsimp only at h
    split at h
    · cases h; rfl
    · obtain ⟨text, -, rfl⟩ := Option.map_eq_some_iff.mp h
      rfl

/-! ### Reading one wave -/

def Parsing.record (p : Parsing) : Loaded → Parsing
  | .parsed f => { p with files := p.files.push f }
  | .failed name a => { p with failed := name :: p.failed, annotations := p.annotations.push a }

def queueImport (bucket : Bucket) (roots : List String) (acc : List SourceOrigin × List String)
    (imp : Import) : List SourceOrigin × List String :=
  let name := imp.path.value
  if acc.2.contains name then acc
  else match locateImport bucket roots name with
    | some s => (acc.1 ++ [s], name :: acc.2)
    | none => (acc.1, name :: acc.2)

theorem parseWaves_succ (bucket : Bucket) (roots : List String) (fuel : Nat)
    {wave : List SourceOrigin} (hw : wave ≠ []) (p : Parsing) :
    parseWaves bucket roots (fuel + 1) wave p =
      wave.mapM (loadSource bucket) >>= fun loaded =>
        let p1 := loaded.foldl Parsing.record p
        let q := (p1.files.toList.drop p.files.size).foldl
          (fun acc f => f.schema.imports.foldl (queueImport bucket roots) acc) ([], p1.seen)
        parseWaves bucket roots fuel q.1 { p1 with seen := q.2 } := by
  cases wave with
  | nil => exact absurd rfl hw
  | cons s rest =>
      simp only [parseWaves]
      rfl

theorem foldl_record (loaded : List Loaded) (p : Parsing) :
    loaded.foldl Parsing.record p =
      { p with
        files := p.files ++ (loaded.filterMap Loaded.file?).toArray
        failed := ((loaded.filterMap Loaded.failure?).map (·.1)).reverse ++ p.failed
        annotations := p.annotations ++ ((loaded.filterMap Loaded.failure?).map (·.2)).toArray } := by
  induction loaded generalizing p with
  | nil => simp
  | cons l rest ih =>
      cases l with
      | parsed f =>
          simp only [List.foldl_cons, Parsing.record, ih, List.filterMap_cons, Loaded.file?,
            Loaded.failure?]
          simp
      | failed n a =>
          simp only [List.foldl_cons, Parsing.record, ih, List.filterMap_cons, Loaded.file?,
            Loaded.failure?]
          simp

theorem names_perm_filterMap (loaded : List Loaded) :
    ((loaded.filterMap Loaded.file?).map (·.name) ++
        ((loaded.filterMap Loaded.failure?).map (·.1)).reverse).Perm (loaded.map Loaded.name) := by
  induction loaded with
  | nil => simp
  | cons l rest ih =>
      cases l with
      | parsed f =>
          simp only [List.filterMap_cons, Loaded.file?, Loaded.failure?, List.map_cons, Loaded.name,
            List.cons_append]
          exact ih.cons f.name
      | failed n a =>
          simp only [List.filterMap_cons, Loaded.file?, Loaded.failure?, List.map_cons,
            List.reverse_cons, Loaded.name]
          rw [← List.append_assoc]
          exact (List.perm_append_singleton _ _).trans (ih.cons n)

/-- What queueing imports keeps: the queue names fresh sources, once each. -/
structure QueueInv (bucket : Bucket) (roots seen₀ : List String)
    (acc : List SourceOrigin × List String) : Prop where
  nodup : (acc.1.map SourceOrigin.name).Nodup
  fresh : ∀ s ∈ acc.1, s.name ∉ seen₀ ∧ s.name ∈ acc.2
  located : ∀ s ∈ acc.1, locateImport bucket roots s.name = some s
  mono : ∀ x ∈ seen₀, x ∈ acc.2

theorem QueueInv.queueImport {bucket : Bucket} {roots seen₀ : List String}
    {acc : List SourceOrigin × List String} (h : QueueInv bucket roots seen₀ acc) (imp : Import) :
    QueueInv bucket roots seen₀ (ProtoSchema.queueImport bucket roots acc imp) := by
  unfold ProtoSchema.queueImport
  by_cases hseen : acc.2.contains imp.path.value
  · rw [if_pos hseen]
    exact h
  · rw [if_neg hseen]
    have hnot : imp.path.value ∉ acc.2 := by simpa using hseen
    split
    · rename_i s hs
      obtain ⟨hname, -⟩ := locateImport_eq_some hs
      refine ⟨?_, ?_, ?_, ?_⟩
      · simp only [List.map_append, List.map_cons, List.map_nil]
        refine List.nodup_append.mpr ⟨h.nodup, by simp, ?_⟩
        intro x hx y hy
        obtain ⟨t, ht, rfl⟩ := List.mem_map.mp hx
        simp only [List.mem_singleton] at hy
        subst hy
        intro heq
        exact hnot (hname ▸ heq ▸ (h.fresh t ht).2)
      · intro t ht
        rcases List.mem_append.mp ht with ht | ht
        · exact ⟨(h.fresh t ht).1, List.mem_cons_of_mem _ (h.fresh t ht).2⟩
        · simp only [List.mem_singleton] at ht
          subst ht
          exact ⟨fun h₀ => hnot (hname ▸ h.mono _ h₀), by simp [hname]⟩
      · intro t ht
        rcases List.mem_append.mp ht with ht | ht
        · exact h.located t ht
        · simp only [List.mem_singleton] at ht
          subst ht
          rw [hname]; exact hs
      · exact fun x hx => List.mem_cons_of_mem _ (h.mono x hx)
    · exact ⟨h.nodup, fun t ht => ⟨(h.fresh t ht).1, List.mem_cons_of_mem _ (h.fresh t ht).2⟩,
        h.located, fun x hx => List.mem_cons_of_mem _ (h.mono x hx)⟩

theorem QueueInv.foldl_imports {bucket : Bucket} {roots seen₀ : List String} :
    ∀ (imports : List Import) {acc : List SourceOrigin × List String}, QueueInv bucket roots seen₀ acc →
      QueueInv bucket roots seen₀ (imports.foldl (ProtoSchema.queueImport bucket roots) acc)
  | [], _, h => h
  | imp :: imps, _, h => QueueInv.foldl_imports imps (h.queueImport imp)

theorem QueueInv.foldl_files {bucket : Bucket} {roots seen₀ : List String} :
    ∀ (files : List ParsedFile) {acc : List SourceOrigin × List String}, QueueInv bucket roots seen₀ acc →
      QueueInv bucket roots seen₀
        (files.foldl (fun acc f => f.schema.imports.foldl (ProtoSchema.queueImport bucket roots) acc) acc)
  | [], _, h => h
  | f :: rest, _, h => QueueInv.foldl_files rest (QueueInv.foldl_imports f.schema.imports h)

/-! ### The invariant of the waves -/

/-- The source a build reads for a name: the file-set file of that name, else
wherever an import of that name is found. -/
def sourceOf (bucket : Bucket) (fs : FileSet) (name : String) : Option SourceOrigin :=
  match fs.files.find? (·.name == name) with
  | some f => some (.bucket f.name f.path)
  | none => locateImport bucket fs.roots name

def Parsing.names (p : Parsing) (wave : List SourceOrigin) : List String :=
  p.files.toList.map (·.name) ++ p.failed ++ wave.map SourceOrigin.name

/-- What the waves keep: no name is read twice, each is read from its source, and
the annotations are exactly those of the failed names. -/
structure WaveInv (bucket : Bucket) (fs : FileSet) (p : Parsing) (wave : List SourceOrigin) : Prop where
  nodup : (p.names wave).Nodup
  seen : ∀ x ∈ p.names wave, x ∈ p.seen
  fsSeen : ∀ f ∈ fs.files, f.name ∈ p.seen
  files : ∀ f ∈ p.files.toList, ∃ src, sourceOf bucket fs f.name = some src ∧ src.path = f.path ∧
    loadSource bucket src = .ok (.parsed f)
  wave : ∀ s ∈ wave, sourceOf bucket fs s.name = some s
  annotations : ∀ a ∈ p.annotations.toList,
    ∃ n ∈ p.failed, ∃ src, sourceOf bucket fs n = some src ∧ src.path = a.path
  failed : ∀ n ∈ p.failed,
    ∃ a ∈ p.annotations.toList, ∃ src, sourceOf bucket fs n = some src ∧ src.path = a.path

section Waves

variable {bucket : Bucket} {fs : FileSet}

theorem Loaded.map_name_of_forall₂ :
    ∀ {wave : List SourceOrigin} {loaded : List Loaded}, List.Forall₂ (fun s l => l.From s) wave loaded →
      loaded.map Loaded.name = wave.map SourceOrigin.name
  | [], [], .nil => rfl
  | s :: _, .parsed f :: _, .cons h hs => by
      simp [Loaded.name, h.1, Loaded.map_name_of_forall₂ hs]
  | s :: _, .failed n a :: _, .cons h hs => by
      simp [Loaded.name, h.1, Loaded.map_name_of_forall₂ hs]

theorem Loaded.file_of_forall₂ {R : SourceOrigin → Loaded → Prop} :
    ∀ {wave : List SourceOrigin} {loaded : List Loaded}, List.Forall₂ R wave loaded →
      ∀ f ∈ loaded.filterMap Loaded.file?, ∃ s ∈ wave, R s (.parsed f)
  | [], [], .nil, f, hf => by simp at hf
  | s :: _, l :: _, .cons h hs, f, hf => by
      cases l with
      | parsed g =>
          simp only [List.filterMap_cons, Loaded.file?, List.mem_cons] at hf
          rcases hf with rfl | hf
          · exact ⟨s, List.mem_cons_self, h⟩
          · obtain ⟨t, ht, hft⟩ := Loaded.file_of_forall₂ hs f hf
            exact ⟨t, List.mem_cons_of_mem _ ht, hft⟩
      | failed n a =>
          simp only [List.filterMap_cons, Loaded.file?] at hf
          obtain ⟨t, ht, hft⟩ := Loaded.file_of_forall₂ hs f hf
          exact ⟨t, List.mem_cons_of_mem _ ht, hft⟩

theorem Loaded.failed_of_forall₂ {R : SourceOrigin → Loaded → Prop} {wave : List SourceOrigin}
    {loaded : List Loaded} (h : List.Forall₂ R wave loaded) :
    ∀ x ∈ loaded.filterMap Loaded.failure?, ∃ s ∈ wave, R s (.failed x.1 x.2) := by
  induction h with
  | nil => simp
  | @cons s l _ _ hsl _ ih =>
    intro x hx
    cases l with
    | parsed g =>
      simp only [List.filterMap_cons, Loaded.failure?] at hx
      obtain ⟨t, ht, hxt⟩ := ih x hx
      exact ⟨t, List.mem_cons_of_mem _ ht, hxt⟩
    | failed n a =>
      simp only [List.filterMap_cons, Loaded.failure?, List.mem_cons] at hx
      rcases hx with rfl | hx
      · exact ⟨s, List.mem_cons_self, hsl⟩
      · obtain ⟨t, ht, hxt⟩ := ih x hx
        exact ⟨t, List.mem_cons_of_mem _ ht, hxt⟩

theorem names_foldl_record {wave : List SourceOrigin} {loaded : List Loaded}
    (hfrom : List.Forall₂ (fun s l => l.From s) wave loaded) (p : Parsing) :
    ((loaded.foldl Parsing.record p).names []).Perm (p.names wave) := by
  rw [foldl_record, Parsing.names, Parsing.names, ← Loaded.map_name_of_forall₂ hfrom]
  simp only [Array.toList_append, List.map_append, List.append_assoc, List.map_nil, List.append_nil]
  refine List.Perm.append_left _ ?_
  rw [← List.append_assoc]
  exact List.perm_append_comm.trans (List.Perm.append_left _ (names_perm_filterMap loaded))

theorem sourceOf_of_not_mem {name : String} (h : ∀ f ∈ fs.files, f.name ≠ name) :
    sourceOf bucket fs name = locateImport bucket fs.roots name := by
  have : fs.files.find? (·.name == name) = none :=
    List.find?_eq_none.mpr fun f hf => by simpa using h f hf
  simp [sourceOf, this]

/-- Reading one wave keeps the invariant. -/
theorem WaveInv.step {p : Parsing} {wave : List SourceOrigin} {loaded : List Loaded}
    (h : WaveInv bucket fs p wave) (hload : wave.mapM (loadSource bucket) = .ok loaded) :
    let p1 := loaded.foldl Parsing.record p
    let q := (p1.files.toList.drop p.files.size).foldl
      (fun acc f => f.schema.imports.foldl (queueImport bucket fs.roots) acc) ([], p1.seen)
    WaveInv bucket fs { p1 with seen := q.2 } q.1 := by
  intro p1 q
  have hloaded : List.Forall₂ (fun s l => loadSource bucket s = .ok l) wave loaded :=
    Except.mapM_forall₂ hload
  have hfrom : List.Forall₂ (fun s l => l.From s) wave loaded :=
    hloaded.imp fun _ _ hl => loadSource_from hl
  have hp1 : p1 = _ := foldl_record loaded p
  have hq : QueueInv bucket fs.roots p1.seen q :=
    QueueInv.foldl_files _ ⟨by simp, by simp, by simp, fun _ h => h⟩
  have hseen1 : p1.seen = p.seen := by rw [hp1]
  have hperm : (p1.files.toList.map (·.name) ++ p1.failed).Perm (p.names wave) := by
    simpa [Parsing.names] using names_foldl_record hfrom p
  have hold : ∀ x ∈ p1.files.toList.map (·.name) ++ p1.failed, x ∈ p.seen :=
    fun x hx => h.seen x (hperm.mem_iff.mp hx)
  refine ⟨?_, ?_, ?_, ?_, ?_, ?_, ?_⟩
  · refine List.nodup_append.mpr ⟨hperm.nodup_iff.mpr h.nodup, hq.nodup, ?_⟩
    intro x hx y hy hxy
    obtain ⟨t, ht, rfl⟩ := List.mem_map.mp hy
    exact (hq.fresh t ht).1 (hseen1 ▸ hxy ▸ hold x hx)
  · intro x hx
    rcases List.mem_append.mp hx with hx | hx
    · exact hq.mono x (hseen1 ▸ hold x hx)
    · obtain ⟨t, ht, rfl⟩ := List.mem_map.mp hx
      exact (hq.fresh t ht).2
  · exact fun f hf => hq.mono _ (hseen1 ▸ h.fsSeen f hf)
  · intro f hf
    rw [hp1] at hf
    simp only [Array.toList_append, List.mem_append] at hf
    rcases hf with hf | hf
    · exact h.files f hf
    · obtain ⟨s, hs, hl⟩ := Loaded.file_of_forall₂ hloaded f hf
      obtain ⟨hname, hpath⟩ := loadSource_from hl
      exact ⟨s, hname ▸ h.wave s hs, hpath.symm, hl⟩
  · intro s hs
    have hfresh : ∀ f ∈ fs.files, f.name ≠ s.name := by
      intro f hf heq
      have hin := h.fsSeen f hf
      rw [heq, ← hseen1] at hin
      exact (hq.fresh s hs).1 hin
    rw [sourceOf_of_not_mem hfresh]
    exact hq.located s hs
  · intro a ha
    rw [hp1] at ha ⊢
    simp only [Array.toList_append, List.mem_append] at ha
    rcases ha with ha | ha
    · obtain ⟨n, hn, hsrc⟩ := h.annotations a ha
      exact ⟨n, List.mem_append_right _ hn, hsrc⟩
    · obtain ⟨x, hx, rfl⟩ := List.mem_map.mp ha
      obtain ⟨s, hs, hname, hpath⟩ := Loaded.failed_of_forall₂ hfrom x hx
      refine ⟨x.1, List.mem_append_left _ (List.mem_reverse.mpr (List.mem_map_of_mem hx)), s, ?_, hpath.symm⟩
      exact hname ▸ h.wave s hs
  · intro n hn
    rw [hp1] at hn ⊢
    simp only [Array.toList_append, List.mem_append]
    rcases List.mem_append.mp hn with hn | hn
    · obtain ⟨x, hx, rfl⟩ := List.mem_map.mp (List.mem_reverse.mp hn)
      obtain ⟨s, hs, hname, hpath⟩ := Loaded.failed_of_forall₂ hfrom x hx
      exact ⟨x.2, Or.inr (List.mem_map_of_mem hx), s, hname ▸ h.wave s hs, hpath.symm⟩
    · obtain ⟨a, ha, hsrc⟩ := h.failed n hn
      exact ⟨a, Or.inl ha, hsrc⟩

theorem WaveInv.dropWave {p : Parsing} {wave : List SourceOrigin} (h : WaveInv bucket fs p wave) :
    WaveInv bucket fs p [] where
  nodup := h.nodup.sublist (by simp [Parsing.names])
  seen x hx := h.seen x (by
    simp only [Parsing.names, List.map_nil, List.append_nil] at hx
    exact List.mem_append_left _ hx)
  fsSeen := h.fsSeen
  files := h.files
  wave := by simp
  annotations := h.annotations
  failed := h.failed

/-- The whole run of waves keeps the invariant, whether or not its fuel lasts. -/
theorem parseWaves_inv :
    ∀ (fuel : Nat) {wave : List SourceOrigin} {p p' : Parsing}, WaveInv bucket fs p wave →
      parseWaves bucket fs.roots fuel wave p = .ok p' → WaveInv bucket fs p' []
  | 0, _, _, _, h, hrun => by cases hrun; exact h.dropWave
  | _ + 1, [], _, _, h, hrun => by cases hrun; exact h
  | fuel + 1, s :: rest, p, p', h, hrun => by
      rw [parseWaves_succ _ _ _ (List.cons_ne_nil s rest)] at hrun
      obtain ⟨loaded, hload, hrun⟩ := Except.bind_eq_ok.mp hrun
      exact parseWaves_inv fuel (h.step hload) hrun

theorem parseWaves_names_mono :
    ∀ (fuel : Nat) {wave : List SourceOrigin} {p p' : Parsing},
      parseWaves bucket fs.roots fuel wave p = .ok p' → ∀ x ∈ p.names [], x ∈ p'.names []
  | 0, _, _, _, hrun => by cases hrun; exact fun _ hx => hx
  | _ + 1, [], _, _, hrun => by cases hrun; exact fun _ hx => hx
  | fuel + 1, s :: rest, p, p', hrun => by
      rw [parseWaves_succ _ _ _ (List.cons_ne_nil s rest)] at hrun
      obtain ⟨loaded, hload, hrun⟩ := Except.bind_eq_ok.mp hrun
      intro x hx
      refine parseWaves_names_mono fuel hrun x ?_
      have hsub : p.names [] ⊆ (loaded.foldl Parsing.record p).names [] := by
        rw [foldl_record]
        intro y hy
        simp only [Parsing.names, List.map_nil, List.append_nil, List.mem_append] at hy ⊢
        simp only [Array.toList_append, List.map_append, List.mem_append]
        rcases hy with hy | hy
        · exact Or.inl (Or.inl hy)
        · exact Or.inr (Or.inr hy)
      exact hsub hx

theorem parseWaves_wave_read {fuel : Nat} {wave : List SourceOrigin} {p p' : Parsing}
    (hrun : parseWaves bucket fs.roots (fuel + 1) wave p = .ok p') :
    ∀ x ∈ p.names wave, x ∈ p'.names [] := by
  cases wave with
  | nil => cases hrun; exact fun _ hx => hx
  | cons s rest =>
      rw [parseWaves_succ _ _ _ (List.cons_ne_nil s rest)] at hrun
      obtain ⟨loaded, hload, hrun⟩ := Except.bind_eq_ok.mp hrun
      have hfrom : List.Forall₂ (fun s l => l.From s) (s :: rest) loaded :=
        (Except.mapM_forall₂ hload).imp fun _ _ hl => loadSource_from hl
      intro x hx
      exact parseWaves_names_mono fuel hrun x ((names_foldl_record hfrom p).mem_iff.mpr hx)

/-! ### The first wave -/

def enqueueRef (acc : List SourceOrigin × List String) (f : FileRef) : List SourceOrigin × List String :=
  if acc.2.contains f.name then acc else (acc.1 ++ [.bucket f.name f.path], f.name :: acc.2)

theorem parseAll_eq (bucket : Bucket) (fs : FileSet) :
    parseAll bucket fs =
      let q := fs.files.foldl enqueueRef ([], [])
      parseWaves bucket fs.roots (bucket.size + WellKnown.files.length + fs.files.length + 2) q.1
        { seen := q.2 } := rfl

/-- The first wave after the files `P`: each name once, from the first file of that name. -/
structure FirstWave (P : List FileRef) (acc : List SourceOrigin × List String) : Prop where
  seen : acc.2 = (acc.1.map SourceOrigin.name).reverse
  nodup : (acc.1.map SourceOrigin.name).Nodup
  names : ∀ x, x ∈ acc.2 ↔ x ∈ P.map (·.name)
  first : ∀ s ∈ acc.1, ∃ f ∈ P, s = .bucket f.name f.path ∧ P.find? (·.name == f.name) = some f

theorem FirstWave.enqueueRef {P : List FileRef} {acc : List SourceOrigin × List String}
    (h : FirstWave P acc) (f : FileRef) : FirstWave (P ++ [f]) (ProtoSchema.enqueueRef acc f) := by
  have hkeep : ∀ s ∈ acc.1, ∃ g ∈ P ++ [f], s = .bucket g.name g.path ∧
      (P ++ [f]).find? (·.name == g.name) = some g := by
    intro s hs
    obtain ⟨g, hg, rfl, hfind⟩ := h.first s hs
    exact ⟨g, List.mem_append_left _ hg, rfl, by rw [List.find?_append, hfind]; rfl⟩
  unfold ProtoSchema.enqueueRef
  by_cases hin : acc.2.contains f.name
  · rw [if_pos hin]
    refine ⟨h.seen, h.nodup, fun x => ?_, hkeep⟩
    have hf : f.name ∈ P.map (·.name) := (h.names f.name).mp (by simpa using hin)
    constructor
    · intro hx; simpa using Or.inl ((h.names x).mp hx)
    · intro hx
      simp only [List.map_append, List.map_cons, List.map_nil, List.mem_append,
        List.mem_singleton] at hx
      rcases hx with hx | rfl
      · exact (h.names x).mpr hx
      · exact (h.names _).mpr hf
  · rw [if_neg hin]
    have hnot : f.name ∉ acc.2 := by simpa using hin
    refine ⟨by simp [h.seen, SourceOrigin.name], ?_, fun x => ?_, ?_⟩
    · simp only [List.map_append, List.map_cons, List.map_nil]
      refine List.nodup_append.mpr ⟨h.nodup, by simp, ?_⟩
      intro x hx y hy hxy
      simp only [List.mem_singleton] at hy
      subst hy hxy
      exact hnot (by rw [h.seen]; exact List.mem_reverse.mpr hx)
    · simp [h.names x, or_comm]
    · intro s hs
      rcases List.mem_append.mp hs with hs | hs
      · exact hkeep s hs
      · simp only [List.mem_singleton] at hs
        refine ⟨f, by simp, hs, ?_⟩
        have hnone : P.find? (·.name == f.name) = none := by
          refine List.find?_eq_none.mpr fun g hg heq => hnot ((h.names _).mpr ?_)
          simpa [← beq_iff_eq.mp heq] using List.mem_map_of_mem (f := (·.name)) hg
        rw [List.find?_append, hnone]
        simp

theorem FirstWave.foldl :
    ∀ (L : List FileRef) {P : List FileRef} {acc : List SourceOrigin × List String},
      FirstWave P acc → FirstWave (P ++ L) (L.foldl ProtoSchema.enqueueRef acc)
  | [], P, _, h => by simpa using h
  | f :: rest, P, _, h => by
      simpa using FirstWave.foldl rest (h.enqueueRef f)

theorem firstWave_files (fs : FileSet) : FirstWave fs.files (fs.files.foldl enqueueRef ([], [])) := by
  simpa using @FirstWave.foldl fs.files [] ([], []) ⟨rfl, by simp, by simp, by simp⟩

theorem waveInv_start (bucket : Bucket) (fs : FileSet) :
    let q := fs.files.foldl enqueueRef ([], [])
    WaveInv bucket fs { seen := q.2 } q.1 := by
  intro q
  have hw : FirstWave fs.files q := firstWave_files fs
  refine ⟨?_, ?_, ?_, by simp, ?_, by simp, by simp⟩
  · simpa [Parsing.names] using hw.nodup
  · intro x hx
    simp only [Parsing.names, List.map_nil, List.nil_append] at hx
    simpa [hw.seen] using hx
  · intro f hf
    exact (hw.names f.name).mpr (List.mem_map_of_mem hf)
  · intro s hs
    obtain ⟨f, -, rfl, hfind⟩ := hw.first s hs
    simp [sourceOf, SourceOrigin.name, hfind]

/-- The parse phase of a build: no name read twice, each from its source, the
annotations exactly those of failed names, and every file of the file set read. -/
theorem parseAll_inv {p : Parsing} (h : parseAll bucket fs = .ok p) :
    WaveInv bucket fs p [] ∧ ∀ f ∈ fs.files, f.name ∈ p.names [] := by
  rw [parseAll_eq] at h
  have hw := firstWave_files fs
  refine ⟨parseWaves_inv _ (waveInv_start bucket fs) h, fun f hf => parseWaves_wave_read h f.name ?_⟩
  have hf' : f.name ∈ (fs.files.foldl enqueueRef ([], [])).2 := (hw.names f.name).mpr (List.mem_map_of_mem hf)
  rw [hw.seen] at hf'
  simpa [Parsing.names] using List.mem_reverse.mp hf'

theorem isNormalized_of_sourceOf (hfs : ∀ f ∈ fs.files, Path.isNormalized f.name = true)
    {name : String} {src : SourceOrigin} (h : sourceOf bucket fs name = some src) :
    Path.isNormalized name = true := by
  unfold sourceOf at h
  cases hf : fs.files.find? (·.name == name) with
  | some f =>
    have hname : (f.name == name) = true := List.find?_some (p := fun x : FileRef => x.name == name) hf
    rw [← beq_iff_eq.mp hname]
    exact hfs f (List.mem_of_find?_eq_some hf)
  | none =>
    rw [hf] at h
    exact (locateImport_eq_some h).2

/-! ### Failures -/

theorem loadSource_error {src : SourceOrigin} {e : BuildError} (h : loadSource bucket src = .error e) :
    ∃ b, e = .bucket b := by
  cases src with
  | bucket name path =>
    simp only [loadSource, Except.bind_eq_error, Except.mapError] at h
    rcases h with h | ⟨bytes, -, h⟩
    · split at h
      · cases h
        exact ⟨_, rfl⟩
      · cases h
    · split at h <;> cases h
  | embedded name text => cases h

theorem parseWaves_error {roots : List String} :
    ∀ {fuel : Nat} {wave : List SourceOrigin} {p : Parsing} {e : BuildError},
      parseWaves bucket roots fuel wave p = .error e → ∃ b, e = .bucket b
  | 0, _, _, _, h => by cases h
  | _ + 1, [], _, _, h => by cases h
  | fuel + 1, s :: rest, p, e, h => by
    rw [parseWaves_succ bucket roots fuel (List.cons_ne_nil s rest), Except.bind_eq_error] at h
    rcases h with h | ⟨_, -, h⟩
    · obtain ⟨src, -, hsrc⟩ := Except.mapM_eq_error h
      exact loadSource_error hsrc
    · exact parseWaves_error h

theorem parseAll_error {e : BuildError} (h : parseAll bucket fs = .error e) : ∃ b, e = .bucket b := by
  rw [parseAll_eq] at h
  exact parseWaves_error h

end Waves

theorem parseAll_eq_of_isSome {bucket : Bucket} {fs : FileSet} (h : (parseAll bucket fs).toOption.isSome = true) :
    parseAll bucket fs = .ok ((parseAll bucket fs).toOption.getD {}) := by
  obtain ⟨p, hp⟩ := Option.isSome_iff_exists.mp h
  rw [Except.eq_ok_iff_toOption, hp]
  rfl

/-! ### Two sample builds

In the first, one file publicly imports a well-known file and refers to a message of it, to a
message nested in its own, and to an enum through a map field. In the second, under the root
`google`, the file `protobuf/any.proto` does not parse, while `a.proto` imports
`google/protobuf/any.proto`, which no bucket path under the root holds and which is found among
the well-known files. -/

def linkSampleText : String :=
  "import public \"google/protobuf/empty.proto\";\n" ++
    "message A \x7b google.protobuf.Empty e = 1; map<string, E> m = 2; B b = 3; message B \x7b\x7d \x7d\n" ++
    "enum E \x7b E0 = 0; \x7d"

def linkSampleBucket : Bucket := ⟨[("a.proto", linkSampleText.toUTF8.toList)]⟩

def linkSampleFileSet : FileSet := { roots := ["."], files := [⟨".", "a.proto", "a.proto"⟩] }

def linkSampleParsed : Parsing := (parseAll linkSampleBucket linkSampleFileSet).toOption.getD {}

theorem linkSample_inputs :
    Bucket.ofFiles [("a.proto", linkSampleText.toUTF8.toList)] = .ok linkSampleBucket ∧
      FileSet.resolve linkSampleBucket {} = .ok linkSampleFileSet ∧
      parseAll linkSampleBucket linkSampleFileSet = .ok linkSampleParsed :=
  ⟨Except.eq_ok_iff_toOption.mpr (by decide +kernel), Except.eq_ok_iff_toOption.mpr (by decide +kernel),
    parseAll_eq_of_isSome (by decide +kernel)⟩

def anySampleBrokenText : String := "syntax = \"proto3\";\nmessage Any \x7b\n"

def anySampleUserText : String :=
  "syntax = \"proto3\";\nimport \"google/protobuf/any.proto\";\nmessage A \x7b\n  google.protobuf.Any x = 1;\n\x7d\n"

def anySampleEntries : List (String × List UInt8) :=
  [("google/protobuf/any.proto", anySampleBrokenText.toUTF8.toList),
   ("google/a.proto", anySampleUserText.toUTF8.toList)]

def anySampleBucket : Bucket :=
  ⟨[("google/a.proto", anySampleUserText.toUTF8.toList),
    ("google/protobuf/any.proto", anySampleBrokenText.toUTF8.toList)]⟩

def anySampleFileSet : FileSet :=
  { roots := ["google"],
    files := [⟨"google", "a.proto", "google/a.proto"⟩,
              ⟨"google", "protobuf/any.proto", "google/protobuf/any.proto"⟩] }

def anySampleParsed : Parsing := (parseAll anySampleBucket anySampleFileSet).toOption.getD {}

theorem anySample_inputs :
    Bucket.ofFiles anySampleEntries = .ok anySampleBucket ∧
      parseAll anySampleBucket anySampleFileSet = .ok anySampleParsed :=
  ⟨Except.eq_ok_iff_toOption.mpr (by decide +kernel), parseAll_eq_of_isSome (by decide +kernel)⟩

end ProtoSchema
