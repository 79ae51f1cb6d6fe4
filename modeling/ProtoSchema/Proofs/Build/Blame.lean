import ProtoSchema.Proofs.Build.Compile
import ProtoSchema.Proofs.Compile.Reports
import ProtoSchema.Proofs.SymbolTable.Conflicts

/-!
What the annotations of a build answer for. `Blame` is kept by every phase of the
graph: each annotation is a parse annotation or stands at the path of a broken file,
and each broken file reaches, through its imports, a file with an annotation at its
path. Almost every phase breaks a file only together with an annotation at that file's
own path (`Local`); the exception is a cycle of imports, reported once at the file that
closes it, whose other files reach that file along the stack of the walk.
-/

namespace ProtoSchema

namespace ImportGraph

open Relation

def Imports (files : Array ParsedFile) (u v : Nat) : Prop :=
  ∃ f, files[u]? = some f ∧ ∃ imp ∈ f.schema.imports, fileIndex? files imp.path.value = some v

/-- What the annotations of a graph answer for: each is one of `base` or stands at the
path of a broken file, and each broken file reaches a file with an annotation at its path. -/
structure Blame (base : List Annotation) (files : Array ParsedFile) (g : ImportGraph) : Prop where
  attributed : ∀ a ∈ g.annotations.toList,
    a ∈ base ∨ ∃ k f, g.isBroken k = true ∧ files[k]? = some f ∧ a.path = f.path
  accounted : ∀ j, g.isBroken j = true → ∃ k f, ReflTransGen (Imports files) j k ∧
    files[k]? = some f ∧ ∃ a ∈ g.annotations.toList, a.path = f.path

variable {base : List Annotation} {files : Array ParsedFile}

theorem Shaped.imports {g : ImportGraph} (hs : Shaped files g) {v k t : Nat}
    (h : (g.deps.getD v [])[k]? = some (some t)) : Imports files v t := by
  obtain ⟨pf, imp, hf, hi, ht⟩ := hs.edge h
  exact ⟨pf, hf, imp, List.mem_of_getElem? hi, ht⟩

theorem Local.exists_added {i : Nat} {path : String} {g g' : ImportGraph} (h : Local i path g g')
    (hlt : g.annotations.size < g'.annotations.size) : ∃ a ∈ g'.annotations.toList, a.path = path := by
  obtain ⟨s, hs⟩ := h.grows
  have hd : g'.annotations.toList.drop g.annotations.size = s := by
    rw [← hs, ← Array.length_toList, List.drop_left]
  have hne : s ≠ [] := by
    rintro rfl
    rw [List.append_nil] at hs
    rw [← Array.length_toList, ← Array.length_toList, hs] at hlt
    exact Nat.lt_irrefl _ hlt
  obtain ⟨a, ha⟩ := List.exists_mem_of_ne_nil s hne
  exact ⟨a, by rw [← hs]; exact List.mem_append_right _ ha, h.added a (hd ▸ ha)⟩

namespace Blame

theorem of_local {g g' : ImportGraph} (h : Blame base files g) {i : Nat} {f : ParsedFile}
    (hl : Local i f.path g g') (hf : files[i]? = some f) (hi : i < g.broken.size) :
    Blame base files g' where
  attributed a ha := by
    obtain ⟨s, hs⟩ := hl.grows
    rw [← hs] at ha
    rcases List.mem_append.mp ha with ha | ha
    · rcases h.attributed a ha with hbase | ⟨k, f', hk, hf', hp⟩
      · exact .inl hbase
      · exact .inr ⟨k, f', hl.isBroken_mono hk, hf', hp⟩
    · have hd : g'.annotations.toList.drop g.annotations.size = s := by
        rw [← hs, ← Array.length_toList, List.drop_left]
      have hlt : g.annotations.size < g'.annotations.size := by
        rw [← Array.length_toList, ← Array.length_toList, ← hs, List.length_append]
        exact Nat.lt_add_of_pos_right (List.length_pos_of_mem ha)
      exact Or.inr ⟨i, f, hl.blamed hlt hi, hf, hl.added a (hd ▸ ha)⟩
  accounted j hj := by
    have hold : g.isBroken j = true → ∃ k f, ReflTransGen (Imports files) j k ∧
        files[k]? = some f ∧ ∃ a ∈ g'.annotations.toList, a.path = f.path := fun hb => by
      obtain ⟨k, f', hr, hf', a, ha, hp⟩ := h.accounted j hb
      exact ⟨k, f', hr, hf', a, hl.grows.subset ha, hp⟩
    by_cases hji : j = i
    · subst hji
      rcases hl.justified hj with hb | hlt
      · exact hold hb
      · exact ⟨j, f, ReflTransGen.refl, hf, hl.exists_added hlt⟩
    · exact hold (by rw [← hl.frame j hji]; exact hj)

end Blame

/-! ### Phases that break a file at its own path -/

theorem conflictStep_local (g : ImportGraph) (c : Conflict) {f : ParsedFile} (hf : files[c.file]? = some f) :
    Local c.file f.path g (conflictStep files g c) where
  size := by simp [conflictStep]
  frame j hj := isBroken_markBroken_of_ne _ hj
  mono h := isBroken_markBroken_of_isBroken c.file (by simpa [isBroken] using h)
  grows := by simp [conflictStep]
  added a ha := by
    simp only [conflictStep, hf, Option.map_some, Option.getD_some, annotations_markBroken,
      Array.toList_push, ← Array.length_toList, List.drop_left, List.mem_singleton] at ha
    subst ha
    rfl
  blamed _ hi := isBroken_markBroken_self (by simpa using hi)
  justified _ := Or.inr (by simp [conflictStep])

theorem local_break (g : ImportGraph) (found : Array Annotation) (i : Nat) {path : String}
    (hne : found ≠ #[]) (hpath : ∀ a ∈ found.toList, a.path = path) :
    Local i path g { g with annotations := g.annotations ++ found, broken := g.broken.set! i true } where
  size := by simp
  frame j hj := isBroken_markBroken_of_ne { g with annotations := g.annotations ++ found } hj
  mono h := isBroken_markBroken_of_isBroken (g := { g with annotations := g.annotations ++ found }) i h
  grows := by simp
  added a ha := by
    simp only [Array.toList_append, ← Array.length_toList, List.drop_left] at ha
    exact hpath a ha
  blamed _ hi := isBroken_markBroken_self (g := { g with annotations := g.annotations ++ found }) hi
  justified _ := Or.inr (by
    have : 0 < found.size := Array.size_pos_iff.mpr hne
    simp only [Array.size_append]
    omega)

theorem Blame.of_markBrokenImports {g : ImportGraph} (h : Blame base files g) (hs : Shaped files g)
    (hb : g.broken.size = files.size) (i : Nat) : Blame base files (markBrokenImports files g i).1 := by
  cases hf : files[i]? with
  | none =>
    rw [markBrokenImports_eq, hf]
    exact h
  | some file =>
    have hi : i < g.broken.size := hb ▸ (Array.getElem?_eq_some_iff.mp hf).1
    exact h.of_local (markBrokenImports_spec hs hf hi).1 hf hi

theorem Blame.of_propagate {g : ImportGraph} (h : Blame base files g) (hs : Shaped files g)
    (hb : g.broken.size = files.size) (order : List Nat) : Blame base files (propagate files order g) := by
  induction order generalizing g with
  | nil => exact h
  | cons i rest ih =>
    rw [propagate_eq, List.foldl_cons, ← propagate_eq]
    unfold propagateStep
    split
    · exact ih h hs hb
    · have hext := markBrokenImports_extends files g i
      exact ih (h.of_markBrokenImports hs hb i) (hext.shaped hs) (hext.size.trans hb)

theorem Blame.of_conflicts {g : ImportGraph} (h : Blame base files g) (hb : g.broken.size = files.size)
    (cs : List Conflict) (hcs : ∀ c ∈ cs, c.file < files.size) :
    Blame base files (cs.foldl (conflictStep files) g) := by
  induction cs generalizing g with
  | nil => exact h
  | cons c rest ih =>
    rw [List.foldl_cons]
    have hc : c.file < files.size := hcs c List.mem_cons_self
    have hf : files[c.file]? = some files[c.file] := Array.getElem?_eq_getElem hc
    refine ih (h.of_local (conflictStep_local g c hf) hf (hb ▸ hc)) ?_
      fun c' hc' => hcs c' (List.mem_cons_of_mem c hc')
    exact (conflictStep_extends files g c).size.trans hb

theorem Blame.of_compileStep {table : SymbolTable} {sourceInfo : Bool} {g : ImportGraph}
    {out : Array (Option FileDescriptor)} (h : Blame base files g) (hs : Shaped files g)
    (hb : g.broken.size = files.size) (i : Nat) :
    Blame base files (compileStep files table sourceInfo (g, out) i).1 := by
  unfold compileStep
  dsimp only
  split
  · exact h
  have h₁ := h.of_markBrokenImports hs hb i
  have hext₁ := markBrokenImports_extends files g i
  split
  · exact h₁
  split
  · exact h₁
  rename_i file hf
  split
  · exact h₁
  · -- the errors found are all at the file's path
    rename_i hfound
    have hi : i < (markBrokenImports files g i).1.broken.size := by
      rw [hext₁.size, hb]
      exact (Array.getElem?_eq_some_iff.mp hf).1
    refine h₁.of_local (local_break _ _ i (by simpa using hfound) fun a ha => ?_) hf hi
    exact compileFile_reports _ a (by simpa using ha)

theorem compileStep_extends (table : SymbolTable) (sourceInfo : Bool) (g : ImportGraph)
    (out : Array (Option FileDescriptor)) (i : Nat) :
    Extends g (compileStep files table sourceInfo (g, out) i).1 := by
  unfold compileStep
  dsimp only
  have hext₁ := markBrokenImports_extends files g i
  split
  · exact Extends.refl g
  split
  · exact hext₁
  split
  · exact hext₁
  split
  · exact hext₁
  · exact hext₁.trans (extends_break _ _ i).1

theorem Blame.of_compileAll {table : SymbolTable} {sourceInfo : Bool} {g : ImportGraph}
    (h : Blame base files g) (hs : Shaped files g) (hb : g.broken.size = files.size) (order : List Nat) :
    Blame base files (compileAll files table sourceInfo order g).1 := by
  rw [compileAll_eq]
  suffices hrun : ∀ (rest : List Nat) (r : ImportGraph × Array (Option FileDescriptor)),
      Blame base files r.1 → Extends g r.1 →
        Blame base files (rest.foldl (ProtoSchema.compileStep files table sourceInfo) r).1 from
    hrun order _ h (Extends.refl g)
  intro rest
  induction rest with
  | nil => exact fun _ h _ => h
  | cons i rest ih =>
    rintro ⟨g', out⟩ h' hext
    rw [List.foldl_cons]
    have hext' : Extends g' (ProtoSchema.compileStep files table sourceInfo (g', out) i).1 :=
      compileStep_extends table sourceInfo g' out i
    exact ih _ (h'.of_compileStep (hext.shaped hs) (hext.size.trans hb) i) (hext.trans hext')

/-! ### Cycles and the walk -/

@[simp] theorem annotations_foldl_markBroken : ∀ (l : List Nat) (g : ImportGraph),
    (l.foldl markBroken g).annotations = g.annotations
  | [], _ => rfl
  | i :: rest, g => annotations_foldl_markBroken rest (g.markBroken i)

theorem isBroken_foldl_markBroken : ∀ (l : List Nat) (g : ImportGraph) {j : Nat},
    (l.foldl markBroken g).isBroken j = true → g.isBroken j = true ∨ j ∈ l
  | [], _, _, h => Or.inl h
  | i :: rest, g, j, h => by
    rcases isBroken_foldl_markBroken rest (g.markBroken i) h with h | h
    · rw [isBroken_markBroken] at h
      rcases Bool.or_eq_true_iff.mp h with h | h
      · exact Or.inl h
      · exact Or.inr (by simp at h; simp [h.1])
    · exact Or.inr (List.mem_cons_of_mem i h)

namespace Walk

theorem Frames.reach {w : Walk} (hs : Shaped files w.graph) :
    ∀ {a : Nat} {stack : List (Nat × Nat)}, w.Frames (some a) stack →
      ∀ m ∈ stack.map (·.1), ReflTransGen (Imports files) m a
  | _, [], _, m, hm => by simp at hm
  | a, (f, x) :: rest, ⟨_, hd, _, hr⟩, m, hm => by
    have hfa : Imports files f a := hs.imports hd
    simp only [List.map_cons, List.mem_cons] at hm
    rcases hm with rfl | hm
    · exact ReflTransGen.single hfa
    · exact (Frames.reach hs hr m hm).tail hfa

variable {w : Walk} {f x : Nat} {below : List (Nat × Nat)}

theorem Blame.reportCycle (h : Inv files w ((f, x) :: below)) (hb : Blame base files w.graph) {t : Nat}
    (hx : (w.graph.deps.getD f [])[x]? = some (some t)) (ht : w.marks.getD t .done = .active) :
    Blame base files (reportCycle files w (((f, x + 1) :: below).map (·.1)) f x t).graph := by
  obtain ⟨pf, imp, hf, hi, -⟩ := h.shaped.edge hx
  have hcyc := h.head_mem_cycle (x + 1) ht
  generalize hc : (((f, x + 1) :: below).map (·.1)).reverse.drop
    ((((f, x + 1) :: below).map (·.1)).reverse.idxOf t) = cycle at hcyc
  simp only [ProtoSchema.ImportGraph.reportCycle, hf, hi, hc]
  generalize hmsg : "File recursively imports itself: " ++ _ = msg
  obtain ⟨hext, hbroken⟩ := foldl_markBroken cycle (w.graph.importError pf imp msg)
  have hfb : (cycle.foldl markBroken (w.graph.importError pf imp msg)).isBroken f = true :=
    hbroken f hcyc (by simpa [h.brokenSize] using h.head_lt)
  -- the files of the cycle are files of the stack
  have hmem : ∀ j ∈ cycle, j = f ∨ j ∈ below.map (·.1) := fun j hj => by
    rw [← hc] at hj
    simpa using List.mem_reverse.mp (List.mem_of_mem_drop hj)
  have hnew : Annotation.atSpan pf.path .dependency msg imp.path.span ∈
      (cycle.foldl markBroken (w.graph.importError pf imp msg)).annotations.toList := by simp
  refine ⟨fun a ha => ?_, fun j hj => ?_⟩
  · simp only [annotations_foldl_markBroken, annotations_importError, Array.toList_push,
      List.mem_append, List.mem_singleton] at ha
    rcases ha with ha | rfl
    · rcases hb.attributed a ha with hbase | ⟨k, f', hk, hf', hp⟩
      · exact .inl hbase
      · exact .inr ⟨k, f', hext.mono k (by simpa using hk), hf', hp⟩
    · exact Or.inr ⟨f, pf, hfb, hf, rfl⟩
  · rcases isBroken_foldl_markBroken cycle _ hj with hj | hj
    · obtain ⟨k, f', hr, hf', a, ha, hp⟩ := hb.accounted j (by simpa using hj)
      exact ⟨k, f', hr, hf', a, hext.grows.subset (by simp [ha]), hp⟩
    · refine ⟨f, pf, ?_, hf, _, hnew, rfl⟩
      rcases hmem j hj with rfl | hj
      · exact ReflTransGen.refl
      · exact Frames.reach h.shaped h.frames.2 j hj

theorem Blame.walk : ∀ (fuel : Nat) {w : Walk} {stack : List (Nat × Nat)}, Inv files w stack →
    Blame base files w.graph → Blame base files (walk files fuel stack w).graph
  | 0, _, _, _, hb => hb
  | _ + 1, _, [], _, hb => hb
  | fuel + 1, w, (f, x) :: below, h, hb => by
    obtain ⟨w', stack', he, h', -, -, hgraph⟩ := h.step fuel
    rw [he]
    refine Blame.walk fuel h' ?_
    rcases hgraph with hg | ⟨t, hx, ht, rfl⟩
    · rw [hg]
      exact hb
    · exact Blame.reportCycle h hb hx ht

theorem Blame.foldl_rootStep {fuel : Nat} : ∀ (roots : List Nat) {w : Walk}, Inv files w [] →
    freshWeight files w < fuel → Blame base files w.graph →
    Blame base files (roots.foldl (rootStep files fuel) w).graph
  | [], _, _, _, hb => hb
  | r :: rest, w, h, hfuel, hb => by
    rw [List.foldl_cons]
    obtain ⟨h₁, hg₁, -⟩ := h.rootStep_spec hfuel r
    refine Blame.foldl_rootStep rest h₁ (Nat.lt_of_le_of_lt (freshWeight_le files hg₁) hfuel) ?_
    unfold rootStep
    split
    · exact hb
    · rename_i hm
      exact Blame.walk fuel (h.start (h.lt_of_fresh (not_not.mp hm)) (not_not.mp hm)).1 hb

end Walk

theorem Blame.order {g : ImportGraph} (hb : Blame base files g) (hs : Shaped files g)
    (hsize : g.broken.size = files.size) (roots : List Nat) : Blame base files (order files roots g).2 := by
  rw [order_eq]
  exact Walk.Blame.foldl_rootStep roots (Walk.inv_start hs hsize) (Walk.freshWeight_start_lt hs) hb

/-! ### The graph of the parsed files -/

theorem blame_ofFiles (failed : List String) : Blame [] files (ofFiles files failed) := by
  suffices h : ∀ (l : List Nat) (g : ImportGraph), (∀ i ∈ l, i < files.size) →
      g.broken.size = files.size → Blame [] files g → Blame [] files (l.foldl (checkImports files failed) g) from
    h _ _ (fun i hi => List.mem_range.mp hi) (by simp) ⟨by simp, fun j hj => by
      by_cases hj' : j < files.size <;> simp [isBroken, hj'] at hj⟩
  intro l
  induction l with
  | nil => exact fun _ _ _ h => h
  | cons i rest ih =>
    intro g hl hsize hb
    have hi : i < files.size := hl i List.mem_cons_self
    have hf : files[i]? = some files[i] := Array.getElem?_eq_getElem hi
    obtain ⟨hloc, -, -⟩ := @checkImports_of_some files failed i files[i] g hf
    exact ih _ (fun j hj => hl j (List.mem_cons_of_mem i hj)) (hloc.size.trans hsize)
      (hb.of_local hloc hf (hsize ▸ hi))

theorem Blame.prepend {g : ImportGraph} (hb : Blame [] files g) (pre : Array Annotation) :
    Blame pre.toList files { g with annotations := pre ++ g.annotations } where
  attributed a ha := by
    simp only [Array.toList_append, List.mem_append] at ha
    rcases ha with ha | ha
    · exact Or.inl ha
    · exact (hb.attributed a ha).resolve_left (List.not_mem_nil) |> Or.inr
  accounted j hj := by
    obtain ⟨k, f, hr, hf, a, ha, hp⟩ := hb.accounted j hj
    exact ⟨k, f, hr, hf, a, by simp [ha], hp⟩

end ImportGraph

end ProtoSchema
