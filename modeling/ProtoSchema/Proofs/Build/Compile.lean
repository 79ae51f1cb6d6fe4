import ProtoSchema.Build.Run
import ProtoSchema.Proofs.Build.Walk
import ProtoSchema.Proofs.Compile.File

/-!
Compiling the files of a build in order. Each step looks at one file only: it
may break that file (for a broken import or for errors of its own) and may
store that file's descriptor, and leaves every other file as it was. Run over
an order that puts every unbroken file after the files it imports, the pass
ends with every unbroken file compiled, and every file it imports compiled
before it and unbroken (`compileAll_spec`).
-/

namespace ProtoSchema

def compileStep (files : Array ParsedFile) (table : SymbolTable) (sourceInfo : Bool)
    (acc : ImportGraph × Array (Option FileDescriptor)) (i : Nat) :
    ImportGraph × Array (Option FileDescriptor) :=
  match acc with
  | (g, out) =>
    if g.isBroken i then (g, out)
    else
      let (g, broken) := g.markBrokenImports files i
      if broken then (g, out)
      else match files[i]? with
        | none => (g, out)
        | some file =>
          let ctx : CompileContext := {
            files, table, file, visible := g.visibleFiles files i,
            proto3 := file.schema.dialect = .proto3, sourceInfo }
          let (fd, found) := compileFile ctx
          if found.isEmpty then (g, out.set! i (some fd))
          else ({ g with annotations := g.annotations ++ found.toArray, broken := g.broken.set! i true }, out)

theorem compileAll_eq (files : Array ParsedFile) (table : SymbolTable) (sourceInfo : Bool)
    (order : List Nat) (g : ImportGraph) :
    compileAll files table sourceInfo order g =
      order.foldl (compileStep files table sourceInfo) (g, Array.replicate files.size none) := rfl

namespace ImportGraph

theorem extends_break (g : ImportGraph) (found : Array Annotation) (i : Nat) :
    let g' : ImportGraph :=
      { g with annotations := g.annotations ++ found, broken := g.broken.set! i true }
    Extends g g' ∧ (∀ j, j ≠ i → g'.isBroken j = g.isBroken j) ∧
      (i < g.broken.size → g'.isBroken i = true) := by
  have hext := Extends.markBroken { g with annotations := g.annotations ++ found } i
  refine ⟨⟨rfl, hext.size, fun j hj => hext.mono j hj, by simp⟩,
    fun j hj => isBroken_markBroken_of_ne _ hj, fun hi => isBroken_markBroken_self hi⟩

end ImportGraph

open ImportGraph

section Step

variable {files : Array ParsedFile} {table : SymbolTable} {sourceInfo : Bool} {g : ImportGraph}
  {out : Array (Option FileDescriptor)} {i : Nat} {file : ParsedFile}

theorem compileStep_spec (hs : Shaped files g) (hf : files[i]? = some file)
    (hi : i < g.broken.size) (hout : i < out.size) :
    let r := compileStep files table sourceInfo (g, out) i
    Extends g r.1 ∧ (∀ j, j ≠ i → r.1.isBroken j = g.isBroken j) ∧ r.2.size = out.size ∧
      (∀ j, j ≠ i → r.2.getD j none = out.getD j none) ∧
      (r.1.isBroken i = false →
        g.isBroken i = false ∧ (∀ t ∈ g.targets i, g.isBroken t = false) ∧
          ∃ ctx : CompileContext, ctx.file = file ∧ r.2.getD i none = some (compileFile ctx).1) := by
  intro r
  by_cases hb : g.isBroken i = true
  · have hr : r = (g, out) := by simp [r, compileStep, hb]
    rw [hr]
    exact ⟨Extends.refl g, fun _ _ => rfl, rfl, fun _ _ => rfl, fun h => absurd hb (by simp [h])⟩
  obtain ⟨hloc, hdeps, hflag, hiff⟩ := markBrokenImports_spec hs hf hi
  have hext₁ := Extends.of_local hloc hdeps
  have hsize₁ : (markBrokenImports files g i).1.broken.size = g.broken.size := hloc.size
  by_cases hbr : (markBrokenImports files g i).2 = true
  · have hr : r = ((markBrokenImports files g i).1, out) := by simp [r, compileStep, hb, hbr]
    rw [hr]
    refine ⟨hext₁, fun j hj => hloc.frame j hj, rfl, fun _ _ => rfl, fun h => ?_⟩
    rw [← hflag, hbr] at h
    cases h
  have hb' : g.isBroken i = false := by simpa using hb
  have hbr' : (markBrokenImports files g i).2 = false := by simpa using hbr
  have hunbroken := hiff.1 hbr'
  let ctx : CompileContext :=
    { files, table, file, visible := (markBrokenImports files g i).1.visibleFiles files i,
      proto3 := file.schema.dialect = .proto3, sourceInfo }
  simp only [r, compileStep, if_neg hb, hbr', hf, Bool.false_eq_true, if_false]
  split
  · -- compiled cleanly: the descriptor is stored at `i`
    refine ⟨hext₁, fun j hj => hloc.frame j hj, by simp, fun j hj => ?_, fun _ =>
      ⟨hb', hunbroken.2, ctx, rfl, by simp [hout, ctx]⟩⟩
    simp [Ne.symm hj]
  · -- errors found: the file is broken, nothing stored
    obtain ⟨hext₂, hframe₂, hself₂⟩ := extends_break (markBrokenImports files g i).1
      (compileFile ctx).2.toArray i
    refine ⟨hext₁.trans hext₂, fun j hj => (hframe₂ j hj).trans (hloc.frame j hj), rfl,
      fun _ _ => rfl, fun h => ?_⟩
    rw [hself₂ (by rw [hsize₁]; exact hi)] at h
    cases h

end Step

theorem compileStep_frame (r : ImportGraph × Array (Option FileDescriptor)) {j : Nat} (hj : j ≠ i) :
    (compileStep files table sourceInfo r i).1.isBroken j = r.1.isBroken j ∧
      (compileStep files table sourceInfo r i).2.getD j none = r.2.getD j none := by
  obtain ⟨g, out⟩ := r
  have hmark := markBrokenImports_frame files g hj
  by_cases hb : g.isBroken i = true
  · simp [compileStep, hb]
  by_cases hbr : (markBrokenImports files g i).2 = true
  · simp [compileStep, hb, hbr, hmark]
  have hbr' : (markBrokenImports files g i).2 = false := by simpa using hbr
  cases hf : files[i]? with
  | none => simp [compileStep, hb, hbr', hf, hmark]
  | some file =>
    simp only [compileStep, hb, hbr', hf, Bool.false_eq_true, if_false]
    split
    · exact ⟨hmark, by simp [Ne.symm hj]⟩
    · exact ⟨((extends_break _ _ i).2.1 j hj).trans hmark, rfl⟩

theorem foldl_compileStep_frame {j : Nat} :
    ∀ (rest : List Nat) (r : ImportGraph × Array (Option FileDescriptor)), j ∉ rest →
      (rest.foldl (compileStep files table sourceInfo) r).1.isBroken j = r.1.isBroken j ∧
        (rest.foldl (compileStep files table sourceInfo) r).2.getD j none = r.2.getD j none
  | [], _, _ => ⟨rfl, rfl⟩
  | i :: rest, r, hj => by
    obtain ⟨hb, hout⟩ := foldl_compileStep_frame rest (compileStep files table sourceInfo r i)
      fun h => hj (List.mem_cons_of_mem i h)
    have hstep : (compileStep files table sourceInfo r i).1.isBroken j = r.1.isBroken j ∧
        (compileStep files table sourceInfo r i).2.getD j none = r.2.getD j none :=
      compileStep_frame r fun h : j = i => hj (h ▸ List.mem_cons_self)
    exact ⟨hb.trans hstep.1, hout.trans hstep.2⟩

def Compiled (files : Array ParsedFile) (done : List Nat)
    (r : ImportGraph × Array (Option FileDescriptor)) : Prop :=
  ∀ v ∈ done, r.1.isBroken v = false →
    (∀ t ∈ r.1.targets v, t ∈ done ∧ r.1.isBroken t = false) ∧
      ∃ ctx : CompileContext, files[v]? = some ctx.file ∧ r.2.getD v none = some (compileFile ctx).1

section Run

variable {files : Array ParsedFile} {table : SymbolTable} {sourceInfo : Bool} {g₀ : ImportGraph}
  {order : List Nat}

theorem foldl_compileStep (hs : Shaped files g₀) (hb : g₀.broken.size = files.size)
    (hnodup : order.Nodup) (hbound : ∀ v ∈ order, v < files.size)
    (hbefore : ∀ v ∈ order, ∀ t ∈ g₀.targets v, g₀.isBroken v = true ∨ Before order t v) :
    ∀ (rest done : List Nat) (r : ImportGraph × Array (Option FileDescriptor)), done ++ rest = order →
      Extends g₀ r.1 → r.2.size = files.size → Compiled files done r →
      Extends g₀ (rest.foldl (compileStep files table sourceInfo) r).1 ∧
        Compiled files order (rest.foldl (compileStep files table sourceInfo) r)
  | [], done, r, he, hext, _, hc => by
    rw [List.append_nil] at he
    subst he
    exact ⟨hext, hc⟩
  | i :: rest, done, (g, out), he, hext, hsize, hc => by
    rw [List.foldl_cons]
    have hio : i ∈ order := by simp [← he]
    have hif : i < files.size := hbound i hio
    have hf : files[i]? = some files[i] := Array.getElem?_eq_getElem hif
    have hn : (done ++ i :: rest).Nodup := he ▸ hnodup
    have hidone : i ∉ done := fun hm => (List.nodup_append.mp hn).2.2 i hm i List.mem_cons_self rfl
    obtain ⟨hext', hframe, hsize', hout, hnew⟩ := @compileStep_spec files table sourceInfo g out i _
      (hext.shaped hs) hf (by rw [hext.size, hb]; exact hif) (by rw [hsize]; exact hif)
    refine foldl_compileStep hs hb hnodup hbound hbefore rest (done ++ [i]) _ (by simp [← he])
      (hext.trans hext') (hsize'.trans hsize) ?_
    intro v hv hvb
    have htargets_eq : (compileStep files table sourceInfo (g, out) i).1.targets v = g.targets v := by
      rw [targets, targets, hext'.deps]
    rcases List.mem_append.mp hv with hv | hv
    · -- a file compiled before: this step leaves it as it was
      have hvi : v ≠ i := fun h => hidone (h ▸ hv)
      rw [hframe v hvi] at hvb
      obtain ⟨htargets, ctx, hfile, hd⟩ := hc v hv hvb
      refine ⟨fun t ht => ?_, ctx, hfile, by rw [hout v hvi]; exact hd⟩
      rw [htargets_eq] at ht
      obtain ⟨htd, htb⟩ := htargets t ht
      exact ⟨List.mem_append_left _ htd, by rw [hframe t fun h => hidone (h ▸ htd)]; exact htb⟩
    · -- the file of this step
      rw [List.mem_singleton] at hv
      subst hv
      obtain ⟨hvg, htargets, ctx, hfile, hd⟩ := hnew hvb
      refine ⟨fun t ht => ?_, ctx, by rw [hfile]; exact hf, hd⟩
      rw [htargets_eq] at ht
      -- a file it imports stands before it in the order, so it was compiled already
      have hg₀ : g₀.isBroken v = false := hext.isBroken_false hvg
      have ht₀ : t ∈ g₀.targets v := by rw [targets, ← hext.deps]; exact ht
      have hbef : Before (done ++ v :: rest) t v := by
        rw [he]
        exact (hbefore v hio t ht₀).resolve_left (by simp [hg₀])
      have htd : t ∈ done := hbef.mem_prefix hn
      exact ⟨List.mem_append_left _ htd, by rw [hframe t fun h => hidone (h ▸ htd)]; exact htargets t ht⟩

/-- The compile pass over an order that puts every unbroken file after the files it
imports: every file left unbroken is compiled, after the files it imports, all of them
compiled and unbroken. -/
theorem compileAll_spec (hs : Shaped files g₀) (hb : g₀.broken.size = files.size)
    (hnodup : order.Nodup) (hbound : ∀ v ∈ order, v < files.size)
    (hbefore : ∀ v ∈ order, ∀ t ∈ g₀.targets v, g₀.isBroken v = true ∨ Before order t v) :
    let r := compileAll files table sourceInfo order g₀
    Extends g₀ r.1 ∧ Compiled files order r := by
  rw [compileAll_eq]
  exact foldl_compileStep hs hb hnodup hbound hbefore order [] _ rfl (Extends.refl g₀) (by simp)
    (by simp [Compiled])

end Run

end ProtoSchema
