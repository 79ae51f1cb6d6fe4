import Mathlib.Data.Finset.Card
import ProtoSchema.Proofs.Build.Parse

/-!
The parse waves of a build read exactly the import closure of the file set, each
name once. The closure (`ImportClosure`) is the least set holding the names of the
file set and, for every name in it whose file parses, each name that file imports
and that can be found. A wave records what it read and queues only the names
it has not seen, so every name seen has been read, is still to be read, or is
found nowhere (`WaveClosed`); once no wave is left, every import of every parsed
file has been seen, hence read if it can be found.

The waves run on fuel. A wave that queues a name has parsed a file with an import
not seen before, so its schema is one that no earlier file had. The schemas a build
can parse are those of the bucket files and the embedded files, so the waves stop
before their fuel runs out, and more fuel gives the same result.

Main statement: `parseAll_reads_importClosure`.
-/

namespace ProtoSchema

/-- The names a build must read: the names of the file set, and each import name that
an import finds, of a file read and parsed for a name already in the set. -/
inductive ImportClosure (bucket : Bucket) (fs : FileSet) : String → Prop
  | requested {f : FileRef} : f ∈ fs.files → ImportClosure bucket fs f.name
  | imported {n : String} {src s : SourceOrigin} {file : ParsedFile} {imp : Import} :
      ImportClosure bucket fs n → sourceOf bucket fs n = some src →
      loadSource bucket src = .ok (.parsed file) → imp ∈ file.schema.imports →
      locateImport bucket fs.roots imp.path.value = some s → ImportClosure bucket fs imp.path.value

def parseAllWithin (bucket : Bucket) (fs : FileSet) (fuel : Nat) : Except BuildError Parsing :=
  let q := fs.files.foldl enqueueRef ([], [])
  parseWaves bucket fs.roots fuel q.1 { seen := q.2 }

theorem parseAll_eq_within (bucket : Bucket) (fs : FileSet) :
    parseAll bucket fs =
      parseAllWithin bucket fs (bucket.size + WellKnown.files.length + fs.files.length + 2) :=
  rfl

theorem parseWaves_nil (bucket : Bucket) (roots : List String) (fuel : Nat) (p : Parsing) :
    parseWaves bucket roots fuel [] p = .ok p := by
  cases fuel <;> rfl

/-! ### Queueing the imports of a wave -/

theorem queueImport_cases (bucket : Bucket) (roots : List String) (acc : List SourceOrigin × List String)
    (imp : Import) :
    (queueImport bucket roots acc imp = acc ∧ imp.path.value ∈ acc.2) ∨
      (∃ s, locateImport bucket roots imp.path.value = some s ∧
        queueImport bucket roots acc imp = (acc.1 ++ [s], imp.path.value :: acc.2)) ∨
      (locateImport bucket roots imp.path.value = none ∧
        queueImport bucket roots acc imp = (acc.1, imp.path.value :: acc.2)) := by
  unfold queueImport
  by_cases hseen : acc.2.contains imp.path.value
  · exact .inl ⟨if_pos hseen, by simpa using hseen⟩
  · rw [if_neg hseen]
    cases hs : locateImport bucket roots imp.path.value with
    | some s => exact .inr (.inl ⟨s, rfl, rfl⟩)
    | none => exact .inr (.inr ⟨rfl, rfl⟩)

/-- What the queue built from the imports `done` says about them: every queued source
is that of one of them, each of them is seen, and every name seen was seen before, is
queued, or is found by no import. -/
structure Queued (bucket : Bucket) (roots seen₀ : List String) (done : List Import)
    (acc : List SourceOrigin × List String) : Prop where
  fromImport : ∀ s ∈ acc.1, ∃ imp ∈ done, imp.path.value = s.name
  covers : ∀ imp ∈ done, imp.path.value ∈ acc.2
  accounted : ∀ x ∈ acc.2, x ∈ seen₀ ∨ x ∈ acc.1.map SourceOrigin.name ∨
    locateImport bucket roots x = none

section Queue

variable {bucket : Bucket} {roots seen₀ : List String}

theorem Queued.start : Queued bucket roots seen₀ [] ([], seen₀) :=
  ⟨by simp, by simp, fun _ hx => .inl hx⟩

theorem Queued.queueImport {done : List Import} {acc : List SourceOrigin × List String}
    (h : Queued bucket roots seen₀ done acc) (imp : Import) :
    Queued bucket roots seen₀ (done ++ [imp]) (ProtoSchema.queueImport bucket roots acc imp) := by
  have hfrom : ∀ s ∈ acc.1, ∃ i ∈ done ++ [imp], i.path.value = s.name := fun s hs =>
    (h.fromImport s hs).imp fun _ hi => ⟨List.mem_append_left _ hi.1, hi.2⟩
  -- the imports before are seen wherever the old names are, and so is this one
  have hcovers {seen : List String} (hmono : ∀ x ∈ acc.2, x ∈ seen) (hin : imp.path.value ∈ seen) :
      ∀ i ∈ done ++ [imp], i.path.value ∈ seen := by
    intro i hi
    rcases List.mem_append.mp hi with hi | hi
    · exact hmono _ (h.covers i hi)
    · rw [List.mem_singleton.mp hi]
      exact hin
  rcases queueImport_cases bucket roots acc imp with ⟨heq, hin⟩ | ⟨s, hs, heq⟩ | ⟨hnone, heq⟩ <;>
    rw [heq]
  · exact ⟨hfrom, hcovers (fun _ => id) hin, h.accounted⟩
  · have hname : s.name = imp.path.value := (locateImport_eq_some hs).1
    refine ⟨fun t ht => ?_, hcovers (fun _ => List.mem_cons_of_mem _) List.mem_cons_self, fun x hx => ?_⟩
    · rcases List.mem_append.mp ht with ht | ht
      · exact hfrom t ht
      · rw [List.mem_singleton.mp ht]
        exact ⟨imp, by simp, hname.symm⟩
    · rcases List.mem_cons.mp hx with rfl | hx
      · exact .inr (.inl (by simp [hname]))
      · rcases h.accounted x hx with hx | hx | hx
        · exact .inl hx
        · exact .inr (.inl (by rw [List.map_append]; exact List.mem_append_left _ hx))
        · exact .inr (.inr hx)
  · refine ⟨hfrom, hcovers (fun _ => List.mem_cons_of_mem _) List.mem_cons_self, fun x hx => ?_⟩
    rcases List.mem_cons.mp hx with rfl | hx
    · exact .inr (.inr hnone)
    · exact h.accounted x hx

theorem Queued.foldl_imports :
    ∀ (imps : List Import) {done : List Import} {acc : List SourceOrigin × List String},
      Queued bucket roots seen₀ done acc →
        Queued bucket roots seen₀ (done ++ imps) (imps.foldl (ProtoSchema.queueImport bucket roots) acc)
  | [], _, _, h => by simpa using h
  | imp :: imps, _, _, h => by simpa using Queued.foldl_imports imps (h.queueImport imp)

theorem Queued.foldl_files :
    ∀ (files : List ParsedFile) {done : List Import} {acc : List SourceOrigin × List String},
      Queued bucket roots seen₀ done acc →
        Queued bucket roots seen₀ (done ++ files.flatMap (·.schema.imports))
          (files.foldl (fun acc f => f.schema.imports.foldl (ProtoSchema.queueImport bucket roots) acc) acc)
  | [], _, _, h => by simpa using h
  | f :: rest, _, _, h => by
    simpa using Queued.foldl_files rest (Queued.foldl_imports f.schema.imports h)

end Queue

/-! ### What the waves keep -/

/-- What the waves keep beyond `WaveInv`: every parsed file has its imports seen, every
name seen is read, still to read or found by no import, every name read or to read is
in the closure, and a name failed when read from its source. -/
structure WaveClosed (bucket : Bucket) (fs : FileSet) (p : Parsing) (wave : List SourceOrigin) : Prop where
  processed : ∀ f ∈ p.files.toList, ∀ imp ∈ f.schema.imports, imp.path.value ∈ p.seen
  accounted : ∀ x ∈ p.seen, x ∈ p.names wave ∨ locateImport bucket fs.roots x = none
  closure : ∀ x ∈ p.names wave, ImportClosure bucket fs x
  failedRead : ∀ n ∈ p.failed, ∃ src a, sourceOf bucket fs n = some src ∧
    loadSource bucket src = .ok (.failed n a) ∧ a ∈ p.annotations.toList

section Waves

variable {bucket : Bucket} {fs : FileSet}

theorem queue_facts (bucket : Bucket) (roots : List String) (p : Parsing) (loaded : List Loaded) :
    let p1 := loaded.foldl Parsing.record p
    let q := (p1.files.toList.drop p.files.size).foldl
      (fun acc f => f.schema.imports.foldl (queueImport bucket roots) acc) ([], p1.seen)
    p1.seen = p.seen ∧ QueueInv bucket roots p.seen q ∧
      Queued bucket roots p.seen ((loaded.filterMap Loaded.file?).flatMap (·.schema.imports)) q := by
  intro p1 q
  have hp1 : p1 = _ := foldl_record loaded p
  have hseen : p1.seen = p.seen := by rw [hp1]
  have hnew : p1.files.toList.drop p.files.size = loaded.filterMap Loaded.file? := by
    rw [hp1]
    simp
  refine ⟨hseen, hseen ▸ QueueInv.foldl_files _ ⟨by simp, by simp, by simp, fun _ h => h⟩, ?_⟩
  have hq := Queued.foldl_files (p1.files.toList.drop p.files.size)
    (Queued.start : Queued bucket roots p1.seen [] ([], p1.seen))
  rw [hnew, hseen] at hq
  simpa [q, hnew, hseen] using hq

theorem WaveClosed.step {p : Parsing} {wave : List SourceOrigin} {loaded : List Loaded}
    (h : WaveInv bucket fs p wave) (hc : WaveClosed bucket fs p wave)
    (hload : wave.mapM (loadSource bucket) = .ok loaded) :
    let p1 := loaded.foldl Parsing.record p
    let q := (p1.files.toList.drop p.files.size).foldl
      (fun acc f => f.schema.imports.foldl (queueImport bucket fs.roots) acc) ([], p1.seen)
    WaveClosed bucket fs { p1 with seen := q.2 } q.1 := by
  intro p1 q
  have hloaded : List.Forall₂ (fun s l => loadSource bucket s = .ok l) wave loaded :=
    Except.mapM_forall₂ hload
  have hfrom : List.Forall₂ (fun s l => l.From s) wave loaded :=
    hloaded.imp fun _ _ hl => loadSource_from hl
  obtain ⟨hseen1, hqi, hq⟩ := queue_facts bucket fs.roots p loaded
  have hp1 : p1 = _ := foldl_record loaded p
  have hperm : (p1.files.toList.map (·.name) ++ p1.failed).Perm (p.names wave) := by
    simpa [Parsing.names] using names_foldl_record hfrom p
  -- the names after the wave: those read or to read before it, and the new queue
  have hnames : ∀ x, x ∈ ({ p1 with seen := q.2 } : Parsing).names q.1 ↔
      x ∈ p.names wave ∨ x ∈ q.1.map SourceOrigin.name := by
    intro x
    rw [← hperm.mem_iff]
    simp only [Parsing.names, List.mem_append, or_assoc]
  refine ⟨?_, ?_, ?_, ?_⟩
  · intro f hf imp himp
    rw [hp1] at hf
    simp only [Array.toList_append, List.mem_append] at hf
    rcases hf with hf | hf
    · exact hqi.mono _ (hc.processed f hf imp himp)
    · exact hq.covers imp (List.mem_flatMap.mpr ⟨f, hf, himp⟩)
  · intro x hx
    rcases hq.accounted x hx with hx | hx | hx
    · rcases hc.accounted x hx with hx | hx
      · exact .inl ((hnames x).mpr (.inl hx))
      · exact .inr hx
    · exact .inl ((hnames x).mpr (.inr hx))
    · exact .inr hx
  · intro x hx
    rcases (hnames x).mp hx with hx | hx
    · exact hc.closure x hx
    · -- a queued name is an import of a file parsed in this wave, found by an import
      obtain ⟨s, hs, rfl⟩ := List.mem_map.mp hx
      obtain ⟨imp, himp, hname⟩ := hq.fromImport s hs
      obtain ⟨f, hf, himp⟩ := List.mem_flatMap.mp himp
      obtain ⟨s', hs', hl⟩ := Loaded.file_of_forall₂ hloaded f hf
      have hfname : f.name = s'.name := (loadSource_from hl).1
      have hin : f.name ∈ p.names wave := by
        rw [hfname]
        exact List.mem_append_right _ (List.mem_map_of_mem hs')
      rw [← hname]
      exact .imported (hc.closure _ hin) (hfname ▸ h.wave s' hs') hl himp (hname ▸ hqi.located s hs)
  · intro n hn
    rw [hp1] at hn ⊢
    simp only [Array.toList_append, List.mem_append] at hn ⊢
    rcases hn with hn | hn
    · obtain ⟨x, hx, rfl⟩ := List.mem_map.mp (List.mem_reverse.mp hn)
      obtain ⟨s, hs, hl⟩ := Loaded.failed_of_forall₂ hloaded x hx
      have hxname : x.1 = s.name := (loadSource_from hl).1
      exact ⟨s, x.2, hxname ▸ h.wave s hs, hl, .inr (List.mem_map_of_mem hx)⟩
    · obtain ⟨src, a, hsrc, hl, ha⟩ := hc.failedRead n hn
      exact ⟨src, a, hsrc, hl, .inl ha⟩

/-! ### The fuel suffices -/

def schemaOfChars (cs : List Char) : Option SchemaFile := (parseSchemaChars cs).toOption

def readableSchemas (bucket : Bucket) : List SchemaFile :=
  bucket.entries.filterMap (fun e => (Utf8.decodeChars? e.2).bind schemaOfChars) ++
    WellKnown.files.filterMap fun w => schemaOfChars (WellKnown.chars w.2)

theorem length_readableSchemas_le (bucket : Bucket) :
    (readableSchemas bucket).length ≤ bucket.size + WellKnown.files.length := by
  unfold readableSchemas Bucket.size
  rw [List.length_append]
  exact Nat.add_le_add (List.length_filterMap_le _ _) (List.length_filterMap_le _ _)

theorem schemaOfChars_of_parseText {name path : String} {cs : List Char} {f : ParsedFile}
    (h : parseText name path cs = .parsed f) : schemaOfChars cs = some f.schema := by
  simp [schemaOfChars, parseText_parsed h, Except.toOption]

theorem mem_entries_of_get {bucket : Bucket} {path : String} {bytes : List UInt8}
    (h : bucket.get path = .ok bytes) : ∃ e ∈ bucket.entries, e.2 = bytes := by
  unfold Bucket.get Bucket.find? at h
  split at h
  · cases h
  · split at h
    · rename_i hfind
      cases h
      obtain ⟨e, he, rfl⟩ := Option.map_eq_some_iff.mp hfind
      exact ⟨e, List.mem_of_find?_eq_some he, rfl⟩
    · cases h

theorem source?_of_locateImport {bucket : Bucket} {roots : List String} {name n : String}
    {lines : List String} (h : locateImport bucket roots name = some (.embedded n lines)) :
    WellKnown.source? name = some lines := by
  unfold locateImport at h
  split at h
  · cases h
  · dsimp only at h
    split at h
    · cases h
    · obtain ⟨t, ht, he⟩ := Option.map_eq_some_iff.mp h
      cases he
      exact ht

theorem schema_mem_readableSchemas {name : String} {src : SourceOrigin} {f : ParsedFile}
    (hsrc : sourceOf bucket fs name = some src) (hl : loadSource bucket src = .ok (.parsed f)) :
    f.schema ∈ readableSchemas bucket := by
  unfold readableSchemas
  cases src with
  | bucket n path =>
    simp only [loadSource, Except.bind_eq_ok] at hl
    obtain ⟨bytes, hget, hl⟩ := hl
    obtain ⟨e, he, rfl⟩ := mem_entries_of_get (Except.mapError_eq_ok.mp hget)
    split at hl
    · cases hl
    · rename_i cs hcs
      have hparse : parseText n path cs = .parsed f := Except.ok.inj hl
      refine List.mem_append_left _ (List.mem_filterMap.mpr ⟨e, he, ?_⟩)
      rw [hcs, Option.bind_some]
      exact schemaOfChars_of_parseText hparse
  | embedded n lines =>
    -- an embedded source comes from an import, with the text of the embedded file
    have hloc : locateImport bucket fs.roots name = some (.embedded n lines) := by
      unfold sourceOf at hsrc
      split at hsrc
      · cases hsrc
      · exact hsrc
    obtain ⟨w, hw, hwt⟩ := Option.map_eq_some_iff.mp (source?_of_locateImport hloc)
    refine List.mem_append_right _ (List.mem_filterMap.mpr ⟨w, List.mem_of_find?_eq_some hw, ?_⟩)
    rw [hwt]
    exact schemaOfChars_of_parseText (Except.ok.inj hl)

open Classical in
noncomputable def Parsing.schemaCount (p : Parsing) : Nat := (p.files.toList.map (·.schema)).toFinset.card

theorem WaveInv.schemaCount_le {p : Parsing} {wave : List SourceOrigin} (h : WaveInv bucket fs p wave) :
    p.schemaCount ≤ bucket.size + WellKnown.files.length := by
  classical
  refine le_trans (Finset.card_le_card fun x hx => ?_)
    (le_trans (List.toFinset_card_le _) (length_readableSchemas_le bucket))
  obtain ⟨f, hf, rfl⟩ := List.mem_map.mp (List.mem_toFinset.mp hx)
  obtain ⟨src, hsrc, -, hl⟩ := h.files f hf
  exact List.mem_toFinset.mpr (schema_mem_readableSchemas hsrc hl)

theorem schemaCount_lt_of_queued {p : Parsing} {wave : List SourceOrigin} (loaded : List Loaded)
    (hc : WaveClosed bucket fs p wave) :
    let p1 := loaded.foldl Parsing.record p
    let q := (p1.files.toList.drop p.files.size).foldl
      (fun acc f => f.schema.imports.foldl (queueImport bucket fs.roots) acc) ([], p1.seen)
    q.1 ≠ [] → p.schemaCount < p1.schemaCount := by
  classical
  intro p1 q hq
  obtain ⟨-, hqi, hqd⟩ := queue_facts bucket fs.roots p loaded
  obtain ⟨s, hs⟩ := List.exists_mem_of_ne_nil _ hq
  obtain ⟨imp, himp, hname⟩ := hqd.fromImport s hs
  obtain ⟨f, hf, himp⟩ := List.mem_flatMap.mp himp
  -- the import is new, so no file parsed before has this schema
  have hfresh : ∀ g ∈ p.files.toList, g.schema ≠ f.schema := by
    intro g hg heq
    have := hc.processed g hg imp (heq ▸ himp)
    exact (hqi.fresh s hs).1 (hname ▸ this)
  have hp1 : p1 = _ := foldl_record loaded p
  unfold Parsing.schemaCount
  rw [hp1]
  refine Finset.card_lt_card ((Finset.ssubset_iff_of_subset fun x hx => ?_).mpr ⟨f.schema, ?_, ?_⟩)
  · simp only [List.mem_toFinset, Array.toList_append, List.map_append, List.mem_append] at hx ⊢
    exact .inl hx
  · simp only [List.mem_toFinset, Array.toList_append, List.map_append, List.mem_append]
    exact .inr (List.mem_map_of_mem hf)
  · simp only [List.mem_toFinset, List.mem_map, not_exists, not_and]
    exact hfresh

theorem parseWaves_closed : ∀ (fuel : Nat) {wave : List SourceOrigin} {p p' : Parsing},
    WaveInv bucket fs p wave → WaveClosed bucket fs p wave →
    (wave ≠ [] → bucket.size + WellKnown.files.length < fuel + p.schemaCount) →
    parseWaves bucket fs.roots fuel wave p = .ok p' →
    WaveClosed bucket fs p' [] ∧ ∀ extra, parseWaves bucket fs.roots (fuel + extra) wave p = .ok p'
  | 0, [], _, _, _, hc, _, hrun => by
    cases hrun
    exact ⟨hc, fun extra => parseWaves_nil _ _ _ _⟩
  | 0, s :: rest, _, _, h, _, hfuel, _ => by
    -- fuel runs out only once no wave is left
    have := h.schemaCount_le
    have := hfuel (List.cons_ne_nil s rest)
    omega
  | _ + 1, [], _, _, _, hc, _, hrun => by
    cases hrun
    exact ⟨hc, fun extra => parseWaves_nil _ _ _ _⟩
  | fuel + 1, s :: rest, p, p', h, hc, hfuel, hrun => by
    rw [parseWaves_succ _ _ _ (List.cons_ne_nil s rest)] at hrun
    obtain ⟨loaded, hload, hrun⟩ := Except.bind_eq_ok.mp hrun
    have hfuel' := hfuel (List.cons_ne_nil s rest)
    obtain ⟨hc', hmore⟩ := parseWaves_closed fuel (h.step hload) (hc.step h hload)
      (fun hq => by
        have := schemaCount_lt_of_queued loaded hc hq
        exact Nat.lt_of_lt_of_le hfuel' (by simp only [Parsing.schemaCount] at this ⊢; omega))
      hrun
    refine ⟨hc', fun extra => ?_⟩
    rw [Nat.add_right_comm, parseWaves_succ _ _ _ (List.cons_ne_nil s rest), hload]
    exact hmore extra

/-! ### The closure -/

theorem waveClosed_start (bucket : Bucket) (fs : FileSet) :
    let q := fs.files.foldl enqueueRef ([], [])
    WaveClosed bucket fs { seen := q.2 } q.1 := by
  intro q
  have hw : FirstWave fs.files q := firstWave_files fs
  have hnames : ∀ x, x ∈ ({ seen := q.2 } : Parsing).names q.1 ↔ x ∈ q.2 := by
    intro x
    simp [Parsing.names, hw.seen]
  refine ⟨by simp, fun x hx => .inl ((hnames x).mpr hx), fun x hx => ?_, by simp⟩
  obtain ⟨f, hf, rfl⟩ := List.mem_map.mp ((hw.names x).mp ((hnames x).mp hx))
  exact .requested hf

theorem mem_names_of_importClosure {p : Parsing} (h : WaveInv bucket fs p []) (hc : WaveClosed bucket fs p [])
    (hfs : ∀ f ∈ fs.files, f.name ∈ p.names []) {x : String} (hx : ImportClosure bucket fs x) :
    x ∈ p.names [] := by
  induction hx with
  | requested hf => exact hfs _ hf
  | @imported n src s file imp _ hsrc hl himp hloc ih =>
    -- the name read parsed to `file`, so `file` was recorded and its imports seen
    have hparsed : file ∈ p.files.toList := by
      simp only [Parsing.names, List.map_nil, List.append_nil, List.mem_append] at ih
      rcases ih with hn | hn
      · obtain ⟨f, hf, rfl⟩ := List.mem_map.mp hn
        obtain ⟨src', hsrc', -, hl'⟩ := h.files f hf
        rw [hsrc, Option.some.injEq] at hsrc'
        subst hsrc'
        rw [hl, Except.ok.injEq, Loaded.parsed.injEq] at hl'
        exact hl' ▸ hf
      · obtain ⟨src', a, hsrc', hl', -⟩ := hc.failedRead n hn
        rw [hsrc, Option.some.injEq] at hsrc'
        subst hsrc'
        rw [hl] at hl'
        cases hl'
    rcases hc.accounted _ (hc.processed file hparsed imp himp) with hin | hnone
    · exact hin
    · rw [hloc] at hnone
      cases hnone

/-- The parse phase of a build reads exactly the import closure of the file set: the
waves stop before their fuel runs out, so more fuel changes nothing; the names read,
parsed or failed, are pairwise distinct and are exactly the names of the closure; each
parsed file was read from the source of its name, and each failed name failed when read
from its source. -/
theorem parseAll_reads_importClosure {p : Parsing} (h : parseAll bucket fs = .ok p) :
    (∀ extra, parseAllWithin bucket fs
        (bucket.size + WellKnown.files.length + fs.files.length + 2 + extra) = .ok p) ∧
      (p.names []).Nodup ∧ (∀ x, x ∈ p.names [] ↔ ImportClosure bucket fs x) ∧
      (∀ f ∈ p.files.toList, ∃ src, sourceOf bucket fs f.name = some src ∧
        loadSource bucket src = .ok (.parsed f)) ∧
      ∀ n ∈ p.failed, ∃ src a, sourceOf bucket fs n = some src ∧
        loadSource bucket src = .ok (.failed n a) ∧ a ∈ p.annotations.toList := by
  have hinv := waveInv_start bucket fs
  have hclosed := waveClosed_start bucket fs
  have hstart : parseWaves bucket fs.roots (bucket.size + WellKnown.files.length + fs.files.length + 2)
      (fs.files.foldl enqueueRef ([], [])).1 { seen := (fs.files.foldl enqueueRef ([], [])).2 } = .ok p := h
  obtain ⟨hc, hmore⟩ := parseWaves_closed _ hinv hclosed (fun _ => by omega) hstart
  have hwave := parseWaves_inv _ hinv hstart
  refine ⟨hmore, hwave.nodup, fun x => ⟨fun hx => hc.closure x hx,
    mem_names_of_importClosure hwave hc (parseAll_inv h).2⟩, fun f hf => ?_, hc.failedRead⟩
  obtain ⟨src, hsrc, -, hl⟩ := hwave.files f hf
  exact ⟨src, hsrc, hl⟩

end Waves

/-- In the sample under the root `google`, the names read are the two files of the file set,
one of which fails, and the well-known file that the other imports. -/
theorem parseAll_reads_importClosure_anySample :
    parseAll anySampleBucket anySampleFileSet = .ok anySampleParsed ∧
      (anySampleParsed.names [] = ["a.proto", "google/protobuf/any.proto", "protobuf/any.proto"] ∧
        anySampleParsed.failed = ["protobuf/any.proto"]) ∧
      (∀ extra, parseAllWithin anySampleBucket anySampleFileSet
          (anySampleBucket.size + WellKnown.files.length + anySampleFileSet.files.length + 2 + extra) =
            .ok anySampleParsed) ∧
        (anySampleParsed.names []).Nodup ∧
        (∀ x, x ∈ anySampleParsed.names [] ↔ ImportClosure anySampleBucket anySampleFileSet x) ∧
        (∀ f ∈ anySampleParsed.files.toList, ∃ src, sourceOf anySampleBucket anySampleFileSet f.name = some src ∧
          loadSource anySampleBucket src = .ok (.parsed f)) ∧
        ∀ n ∈ anySampleParsed.failed, ∃ src a, sourceOf anySampleBucket anySampleFileSet n = some src ∧
          loadSource anySampleBucket src = .ok (.failed n a) ∧ a ∈ anySampleParsed.annotations.toList :=
  ⟨anySample_inputs.2, by decide +kernel, parseAll_reads_importClosure anySample_inputs.2⟩

end ProtoSchema
