import ProtoSchema.Build.Graph
import ProtoSchema.SymbolTable.Basic

/-!
The import graph of a build, phase by phase. Checking the import statements
of a file, and later reporting its broken imports, touch that file alone:
only its own mark can be set, and every annotation added is about it, at its
path. `ImportGraph.Local` says exactly that; it is reflexive and transitive,
so a fold of such steps over one file is again local to it.

From this: the graph records, for each file, where its import statements
point (`deps_ofFiles`); a file left unbroken by the check has every import
resolved (`resolved_of_ofFiles`); reporting broken imports
leaves a file unbroken only when all its imports are unbroken
(`markBrokenImports_spec`); and no later phase ever clears a mark.
-/

namespace ProtoSchema

namespace ImportGraph

/-! ### Marks and reports -/

@[simp] theorem deps_importError (g : ImportGraph) (file : ParsedFile) (imp : Import) (m : String) :
    (g.importError file imp m).deps = g.deps := rfl

@[simp] theorem broken_importError (g : ImportGraph) (file : ParsedFile) (imp : Import) (m : String) :
    (g.importError file imp m).broken = g.broken := rfl

@[simp] theorem annotations_importError (g : ImportGraph) (file : ParsedFile) (imp : Import)
    (m : String) :
    (g.importError file imp m).annotations =
      g.annotations.push ( Annotation.atSpan file.path .dependency m imp.path.span) := rfl

@[simp] theorem isBroken_importError (g : ImportGraph) (file : ParsedFile) (imp : Import) (m : String)
    (j : Nat) : (g.importError file imp m).isBroken j = g.isBroken j := rfl

@[simp] theorem deps_markBroken (g : ImportGraph) (i : Nat) : (g.markBroken i).deps = g.deps := rfl

@[simp] theorem annotations_markBroken (g : ImportGraph) (i : Nat) :
    (g.markBroken i).annotations = g.annotations := rfl

@[simp] theorem size_broken_markBroken (g : ImportGraph) (i : Nat) :
    (g.markBroken i).broken.size = g.broken.size := by
  simp [markBroken]

theorem isBroken_markBroken (g : ImportGraph) (i j : Nat) :
    (g.markBroken i).isBroken j = (g.isBroken j || decide (i = j ∧ i < g.broken.size)) := by
  simp only [isBroken, markBroken, Array.set!_eq_setIfInBounds, Array.getD_eq_getD_getElem?,
    Array.getElem?_setIfInBounds]
  by_cases hij : i = j
  · subst hij
    by_cases hi : i < g.broken.size <;> simp [hi]
  · simp [hij]

theorem isBroken_markBroken_self {g : ImportGraph} {i : Nat} (h : i < g.broken.size) :
    (g.markBroken i).isBroken i = true := by
  simp [isBroken_markBroken, h]

theorem isBroken_markBroken_of_ne (g : ImportGraph) {i j : Nat} (h : j ≠ i) :
    (g.markBroken i).isBroken j = g.isBroken j := by
  simp [isBroken_markBroken, Ne.symm h]

theorem isBroken_markBroken_of_isBroken {g : ImportGraph} {j : Nat} (i : Nat) (h : g.isBroken j = true) :
    (g.markBroken i).isBroken j = true := by
  simp [isBroken_markBroken, h]

/-! ### Changes local to one file -/

/-- How the graph may change while file `i`, at `path`, is looked at: only its own
mark may be set, a mark is set only with an annotation, and every annotation added
is at `path` and comes with the mark. -/
structure Local (i : Nat) (path : String) (g g' : ImportGraph) : Prop where
  size : g'.broken.size = g.broken.size
  frame : ∀ j, j ≠ i → g'.isBroken j = g.isBroken j
  mono : g.isBroken i = true → g'.isBroken i = true
  grows : g.annotations.toList <+: g'.annotations.toList
  added : ∀ a ∈ g'.annotations.toList.drop g.annotations.size, a.path = path
  blamed : g.annotations.size < g'.annotations.size → i < g.broken.size → g'.isBroken i = true
  justified : g'.isBroken i = true → g.isBroken i = true ∨ g.annotations.size < g'.annotations.size

namespace Local

variable {i : Nat} {path : String}

theorem refl (g : ImportGraph) : Local i path g g :=
  ⟨rfl, fun _ _ => rfl, id, List.prefix_refl _,
    fun _ h => by rw [← Array.length_toList, List.drop_length] at h; simp at h, fun h => absurd h (Nat.lt_irrefl _),
    Or.inl⟩

theorem isBroken_mono {g g' : ImportGraph} (h : Local i path g g') {j : Nat} (hj : g.isBroken j = true) :
    g'.isBroken j = true := by
  by_cases hji : j = i
  · subst hji; exact h.mono hj
  · rw [h.frame j hji]; exact hj

theorem size_le {g g' : ImportGraph} (h : Local i path g g') :
    g.annotations.size ≤ g'.annotations.size := by
  simpa using h.grows.length_le

theorem trans {g₁ g₂ g₃ : ImportGraph} (h₁ : Local i path g₁ g₂) (h₂ : Local i path g₂ g₃) :
    Local i path g₁ g₃ where
  size := h₂.size.trans h₁.size
  frame j hj := (h₂.frame j hj).trans (h₁.frame j hj)
  mono := h₂.mono ∘ h₁.mono
  grows := h₁.grows.trans h₂.grows
  added a ha := by
    obtain ⟨s₁, hs₁⟩ := h₁.grows
    obtain ⟨s₂, hs₂⟩ := h₂.grows
    have hd₁ : g₂.annotations.toList.drop g₁.annotations.size = s₁ := by
      rw [← hs₁, ← Array.length_toList, List.drop_left]
    have hd₂ : g₃.annotations.toList.drop g₂.annotations.size = s₂ := by
      rw [← hs₂, ← Array.length_toList, List.drop_left]
    rw [← hs₂, ← hs₁, List.append_assoc, ← Array.length_toList, List.drop_left] at ha
    rcases List.mem_append.mp ha with ha | ha
    · exact h₁.added a (hd₁ ▸ ha)
    · exact h₂.added a (hd₂ ▸ ha)
  blamed hlt hi := by
    by_cases h12 : g₁.annotations.size < g₂.annotations.size
    · exact h₂.mono (h₁.blamed h12 hi)
    · exact h₂.blamed (by have := h₁.size_le; omega) (h₁.size ▸ hi)
  justified h := by
    rcases h₂.justified h with h | h
    · rcases h₁.justified h with h | h
      · exact Or.inl h
      · exact Or.inr (Nat.lt_of_lt_of_le h h₂.size_le)
    · exact Or.inr (Nat.lt_of_le_of_lt h₁.size_le h)

theorem report (g : ImportGraph) (file : ParsedFile) (imp : Import) (m : String) :
    Local i file.path g ((g.importError file imp m).markBroken i) where
  size := by simp
  frame j hj := by simp [isBroken_markBroken_of_ne _ hj]
  mono h := isBroken_markBroken_of_isBroken i (by simpa using h)
  grows := by simp
  added a ha := by
    simp only [annotations_markBroken, annotations_importError, Array.toList_push,
      ← Array.length_toList, List.drop_left, List.mem_singleton] at ha
    subst ha
    rfl
  blamed _ hi := isBroken_markBroken_self (by simpa using hi)
  justified _ := Or.inr (by simp)

end Local

/-! ### Checking the import statements -/

def checkImport (files : Array ParsedFile) (failed : List String) (i : Nat) (file : ParsedFile)
    (acc : ImportGraph × List String × List (Option Nat)) (imp : Import) :
    ImportGraph × List String × List (Option Nat) :=
  let name := imp.path.value
  let target := fileIndex? files name
  let g :=
    if acc.2.1.contains name then
      (acc.1.importError file imp ("Import \"" ++ name ++ "\" was listed twice.")).markBroken i
    else if !Path.isNormalized name then
      (acc.1.importError file imp ("Import \"" ++ name ++ "\" is not a normalized relative path.")).markBroken i
    else if target.isNone then
      let message := if failed.contains name then "Import \"" ++ name ++ "\" was not found or had errors."
        else "import \"" ++ name ++ "\": file does not exist"
      (acc.1.importError file imp message).markBroken i
    else acc.1
  (g, name :: acc.2.1, acc.2.2 ++ [target])

theorem checkImports_eq (files : Array ParsedFile) (failed : List String) (g : ImportGraph) (i : Nat) :
    checkImports files failed g i =
      match files[i]? with
      | none => g
      | some file =>
        let r := file.schema.imports.foldl (checkImport files failed i file) (g, [], [])
        { r.1 with deps := r.1.deps.push r.2.2 } := by
  unfold checkImports
  rfl

def importTargets (files : Array ParsedFile) (i : Nat) : List (Option Nat) :=
  (files[i]?.map fun f => f.schema.imports.map fun imp => fileIndex? files imp.path.value).getD []

section Check

variable {files : Array ParsedFile} {failed : List String} {i : Nat} {file : ParsedFile}

theorem checkImport_local (acc : ImportGraph × List String × List (Option Nat)) (imp : Import) :
    Local i file.path acc.1 (checkImport files failed i file acc imp).1 := by
  unfold checkImport
  dsimp only
  split
  · exact Local.report _ _ _ _
  · split
    · exact Local.report _ _ _ _
    · split
      · exact Local.report _ _ _ _
      · exact Local.refl _

theorem checkImport_deps (acc : ImportGraph × List String × List (Option Nat)) (imp : Import) :
    (checkImport files failed i file acc imp).1.deps = acc.1.deps := by
  unfold checkImport
  dsimp only
  split
  · rfl
  · split
    · rfl
    · split <;> rfl

theorem foldl_checkImport :
    ∀ (imps : List Import) (acc : ImportGraph × List String × List (Option Nat)),
      let r := imps.foldl (checkImport files failed i file) acc
      Local i file.path acc.1 r.1 ∧ r.1.deps = acc.1.deps ∧
        r.2.2 = acc.2.2 ++ imps.map (fun imp => fileIndex? files imp.path.value) ∧
        ((∃ imp ∈ imps, fileIndex? files imp.path.value = none) → i < acc.1.broken.size →
          r.1.isBroken i = true)
  | [], acc => ⟨Local.refl _, rfl, by simp, by simp⟩
  | imp :: imps, acc => by
      obtain ⟨hloc, hdeps, htargets, hbroken⟩ := foldl_checkImport imps (checkImport files failed i file acc imp)
      have hstep : Local i file.path acc.1 (checkImport files failed i file acc imp).1 :=
        checkImport_local acc imp
      refine ⟨hstep.trans hloc, hdeps.trans (checkImport_deps acc imp), ?_, ?_⟩
      · rw [List.foldl_cons, htargets]
        simp [checkImport]
      rintro ⟨imp', himp', hnone⟩ hi
      simp only [List.mem_cons] at himp'
      rcases himp' with rfl | himp'
      · refine hloc.mono ?_
        unfold checkImport
        dsimp only
        split
        · exact isBroken_markBroken_self (by simpa using hi)
        · split
          · exact isBroken_markBroken_self (by simpa using hi)
          · rw [if_pos (by simp [hnone])]
            exact isBroken_markBroken_self (by simpa using hi)
      · exact hbroken ⟨imp', himp', hnone⟩ (hstep.size ▸ hi)

theorem checkImports_of_some {g : ImportGraph} (h : files[i]? = some file) :
    Local i file.path g (checkImports files failed g i) ∧
      (checkImports files failed g i).deps = g.deps.push (importTargets files i) ∧
      ((∃ imp ∈ file.schema.imports, fileIndex? files imp.path.value = none) → i < g.broken.size →
        (checkImports files failed g i).isBroken i = true) := by
  obtain ⟨hloc, hdeps, htargets, hbroken⟩ := @foldl_checkImport files failed i file
    file.schema.imports (g, [], [])
  rw [checkImports_eq, h]
  refine ⟨?_, ?_, hbroken⟩
  · exact { hloc with }
  · simp only [importTargets, h, Option.map_some, Option.getD_some]
    rw [hdeps, htargets]
    rfl

end Check

/-! ### The graph of the parsed files -/

section OfFiles

variable {files : Array ParsedFile} {failed : List String}

def Resolved (files : Array ParsedFile) (i : Nat) : Prop :=
  ∀ f, files[i]? = some f → ∀ imp ∈ f.schema.imports, (fileIndex? files imp.path.value).isSome

theorem ofFiles_upTo :
    ∀ k ≤ files.size,
      let g := (List.range k).foldl (checkImports files failed)
        { deps := #[], broken := Array.replicate files.size false, annotations := #[] }
      g.deps.toList = (List.range k).map (importTargets files) ∧ g.broken.size = files.size ∧
        ∀ i < k, g.isBroken i = false → Resolved files i
  | 0, _ => by simp
  | k + 1, hk => by
      obtain ⟨hdeps, hsize, hres⟩ := ofFiles_upTo k (by omega)
      have hfile : files[k]? = some files[k] := by simp [show k < files.size by omega]
      obtain ⟨hloc, hdeps', hbroken⟩ := @checkImports_of_some files failed k files[k]
        ((List.range k).foldl (checkImports files failed)
          { deps := #[], broken := Array.replicate files.size false, annotations := #[] }) hfile
      simp only [List.range_succ, List.foldl_append, List.foldl_cons, List.foldl_nil]
      refine ⟨?_, hloc.size.trans hsize, ?_⟩
      · rw [hdeps', Array.toList_push, hdeps]
        simp
      · intro i hi hok
        by_cases hik : i = k
        · subst hik
          intro f hf imp himp
          cases htarget : fileIndex? files imp.path.value with
          | some _ => rfl
          | none =>
              have := hbroken ⟨imp, by rw [hfile] at hf; cases hf; exact himp, htarget⟩ (by omega)
              rw [hok] at this
              cases this
        · exact hres i (by omega) (by rw [← hloc.frame i hik]; exact hok)

theorem deps_ofFiles (files : Array ParsedFile) (failed : List String) (i : Nat) :
    (ofFiles files failed).deps.getD i [] = importTargets files i := by
  have hdeps : (ofFiles files failed).deps.toList = (List.range files.size).map (importTargets files) :=
    (@ofFiles_upTo files failed files.size (Nat.le_refl _)).1
  rw [Array.getD_eq_getD_getElem?, ← Array.getElem?_toList, hdeps]
  by_cases hi : i < files.size
  · simp [hi]
  · simp [hi, importTargets]

theorem size_broken_ofFiles (files : Array ParsedFile) (failed : List String) :
    (ofFiles files failed).broken.size = files.size :=
  (@ofFiles_upTo files failed files.size (Nat.le_refl _)).2.1

/-- A file left unbroken by the check has every import resolved to a parsed file. -/
theorem resolved_of_ofFiles {i : Nat} (h : (ofFiles files failed).isBroken i = false) :
    Resolved files i := by
  by_cases hi : i < files.size
  · exact (@ofFiles_upTo files failed files.size (Nat.le_refl _)).2.2 i hi h
  · intro f hf
    simp [Array.getElem?_eq_none (Nat.le_of_not_lt hi)] at hf

end OfFiles

/-! ### Reporting broken imports -/

def targets (g : ImportGraph) (i : Nat) : List Nat := (g.deps.getD i []).filterMap id

def markImport (i : Nat) (file : ParsedFile) (g : ImportGraph) (x : Import × Option Nat) : ImportGraph :=
  match x.2 with
  | some t =>
    if g.isBroken t then
      (g.importError file x.1 ("Import \"" ++ x.1.path.value ++ "\" was not found or had errors.")).markBroken i
    else g
  | none => g

theorem markBrokenImports_eq (files : Array ParsedFile) (g : ImportGraph) (i : Nat) :
    markBrokenImports files g i =
      match files[i]? with
      | none => (g, g.isBroken i)
      | some file =>
        let g' := (file.schema.imports.zip (g.deps.getD i [])).foldl (markImport i file) g
        (g', g'.isBroken i) := by
  unfold markBrokenImports
  rfl

section Mark

variable {i : Nat} {file : ParsedFile}

theorem markImport_local (g : ImportGraph) (x : Import × Option Nat) :
    Local i file.path g (markImport i file g x) ∧ (markImport i file g x).deps = g.deps := by
  unfold markImport
  split
  · split
    · exact ⟨Local.report _ _ _ _, rfl⟩
    · exact ⟨Local.refl _, rfl⟩
  · exact ⟨Local.refl _, rfl⟩

theorem foldl_markImport :
    ∀ (xs : List (Import × Option Nat)) (g : ImportGraph),
      let g' := xs.foldl (markImport i file) g
      Local i file.path g g' ∧ g'.deps = g.deps ∧
        (i < g.broken.size →
          (g'.isBroken i = false ↔ g.isBroken i = false ∧ ∀ x ∈ xs, ∀ t, x.2 = some t → g.isBroken t = false))
  | [], g => ⟨Local.refl _, rfl, fun _ => by simp⟩
  | x :: xs, g => by
      obtain ⟨hstep, hdeps₁⟩ := @markImport_local i file g x
      obtain ⟨hloc, hdeps, hiff⟩ := foldl_markImport xs (markImport i file g x)
      refine ⟨hstep.trans hloc, hdeps.trans hdeps₁, fun hi => ?_⟩
      rw [List.foldl_cons, hiff (hstep.size ▸ hi)]
      -- the first import either breaks `i` at once or changes nothing
      unfold markImport
      split
      · rename_i t ht
        split
        · rename_i hbt
          simp [isBroken_markBroken_self (g := g.importError file x.1 _) (by simpa using hi), ht, hbt]
        · rename_i hbt
          simp only [List.mem_cons, forall_eq_or_imp, ht, Option.some.injEq, forall_eq']
          simp [hbt]
      · rename_i ht
        simp [ht]

end Mark

def Shaped (files : Array ParsedFile) (g : ImportGraph) : Prop := ∀ i, g.deps.getD i [] = importTargets files i

theorem mem_targets {files : Array ParsedFile} {g : ImportGraph} (hg : Shaped files g) {i t : Nat}
    {file : ParsedFile} (hf : files[i]? = some file) :
    t ∈ g.targets i ↔ ∃ imp ∈ file.schema.imports, fileIndex? files imp.path.value = some t := by
  simp [targets, hg i, importTargets, hf]

/-- Reporting broken imports of file `i`: local to it, and it stays unbroken exactly when
it was unbroken and all the files it imports are. -/
theorem markBrokenImports_spec {files : Array ParsedFile} {g : ImportGraph} (hg : Shaped files g)
    {i : Nat} {file : ParsedFile} (hf : files[i]? = some file) (hi : i < g.broken.size) :
    let r := markBrokenImports files g i
    Local i file.path g r.1 ∧ r.1.deps = g.deps ∧ r.2 = r.1.isBroken i ∧
      (r.2 = false ↔ g.isBroken i = false ∧ ∀ t ∈ g.targets i, g.isBroken t = false) := by
  obtain ⟨hloc, hdeps, hiff⟩ := @foldl_markImport i file
    (file.schema.imports.zip (g.deps.getD i [])) g
  rw [markBrokenImports_eq, hf]
  refine ⟨hloc, hdeps, rfl, ?_⟩
  rw [hiff hi]
  have hzip : file.schema.imports.zip (g.deps.getD i []) =
      file.schema.imports.map fun imp => (imp, fileIndex? files imp.path.value) := by
    rw [hg i]
    simpa [importTargets, hf] using
      List.zip_map' (f := id) (g := fun imp : Import => fileIndex? files imp.path.value) (l := file.schema.imports)
  simp only [hzip, List.mem_map, forall_exists_index, and_imp, mem_targets hg hf]
  constructor
  · rintro ⟨hnot, hall⟩
    refine ⟨hnot, fun t imp himp ht => hall _ imp himp rfl t ht⟩
  · rintro ⟨hnot, hall⟩
    refine ⟨hnot, fun x imp himp hx t ht => hall t imp himp (by subst hx; exact ht)⟩


/-! ### What no phase undoes -/

/-- A later state of the graph: the same import edges and marks array, no mark cleared,
no annotation dropped. -/
structure Extends (g g' : ImportGraph) : Prop where
  deps : g'.deps = g.deps
  size : g'.broken.size = g.broken.size
  mono : ∀ j, g.isBroken j = true → g'.isBroken j = true
  grows : g.annotations.toList <+: g'.annotations.toList

namespace Extends

theorem refl (g : ImportGraph) : Extends g g := ⟨rfl, rfl, fun _ => id, List.prefix_refl _⟩

theorem trans {g₁ g₂ g₃ : ImportGraph} (h₁ : Extends g₁ g₂) (h₂ : Extends g₂ g₃) : Extends g₁ g₃ :=
  ⟨h₂.deps.trans h₁.deps, h₂.size.trans h₁.size, fun j hj => h₂.mono j (h₁.mono j hj),
    h₁.grows.trans h₂.grows⟩

theorem of_local {i : Nat} {path : String} {g g' : ImportGraph} (h : Local i path g g')
    (hdeps : g'.deps = g.deps) : Extends g g' :=
  ⟨hdeps, h.size, fun _ hj => h.isBroken_mono hj, h.grows⟩

theorem isBroken_false {g g' : ImportGraph} (h : Extends g g') {j : Nat} (hj : g'.isBroken j = false) :
    g.isBroken j = false := by
  cases hb : g.isBroken j
  · rfl
  · rw [h.mono j hb] at hj
    cases hj

theorem shaped {files : Array ParsedFile} {g g' : ImportGraph} (h : Extends g g') (hg : Shaped files g) :
    Shaped files g' := fun i => by rw [h.deps]; exact hg i

end Extends

theorem markBrokenImports_extends (files : Array ParsedFile) (g : ImportGraph) (i : Nat) :
    Extends g (markBrokenImports files g i).1 := by
  rw [markBrokenImports_eq]
  split
  · exact Extends.refl g
  · rename_i file _
    obtain ⟨hloc, hdeps, -⟩ := @foldl_markImport i file
      (file.schema.imports.zip (g.deps.getD i [])) g
    exact Extends.of_local hloc hdeps

theorem markBrokenImports_frame (files : Array ParsedFile) (g : ImportGraph) {i j : Nat} (hj : j ≠ i) :
    (markBrokenImports files g i).1.isBroken j = g.isBroken j := by
  rw [markBrokenImports_eq]
  split
  · rfl
  · rename_i file _
    exact (@foldl_markImport i file (file.schema.imports.zip (g.deps.getD i [])) g).1.frame j hj

def propagateStep (files : Array ParsedFile) (g : ImportGraph) (i : Nat) : ImportGraph :=
  if g.isBroken i then g else (markBrokenImports files g i).1

theorem propagate_eq (files : Array ParsedFile) (order : List Nat) (g : ImportGraph) :
    propagate files order g = order.foldl (propagateStep files) g := rfl

theorem propagate_extends (files : Array ParsedFile) :
    ∀ (order : List Nat) (g : ImportGraph), Extends g (propagate files order g)
  | [], g => Extends.refl g
  | i :: rest, g => by
      rw [propagate_eq, List.foldl_cons, ← propagate_eq]
      refine Extends.trans ?_ (propagate_extends files rest _)
      unfold propagateStep
      split
      · exact Extends.refl g
      · exact markBrokenImports_extends files g i

def conflictStep (files : Array ParsedFile) (g : ImportGraph) (c : Conflict) : ImportGraph :=
  let path := (files[c.file]?.map (·.path)).getD ""
  let g := { g with annotations := g.annotations.push ( Annotation.atSpan path .compile c.message c.span) }
  g.markBroken c.file

theorem conflictStep_extends (files : Array ParsedFile) (g : ImportGraph) (c : Conflict) :
    Extends g (conflictStep files g c) :=
  ⟨rfl, by simp [conflictStep], fun _ hj => isBroken_markBroken_of_isBroken c.file hj, by
    simp [conflictStep]⟩

theorem foldl_conflictStep_extends (files : Array ParsedFile) :
    ∀ (cs : List Conflict) (g : ImportGraph), Extends g (cs.foldl (conflictStep files) g)
  | [], g => Extends.refl g
  | c :: cs, g => (conflictStep_extends files g c).trans (foldl_conflictStep_extends files cs _)

end ImportGraph

end ProtoSchema
