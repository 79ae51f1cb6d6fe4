import ProtoSchema.Proofs.Build.Cycles
import ProtoSchema.Proofs.Build.Checked
import ProtoSchema.Proofs.Build.Visible
import ProtoSchema.Proofs.Compile.Hermetic
import ProtoSchema.Proofs.SymbolTable.Twins

/-!
The context in which a build links each file, and linking seen from two builds.

A build starts linking from its order, the files still healthy after the import checks, the
symbol table they fill, and the graph once the table's conflicts are reported (`linkStart`). Each
file is linked with the build's files and table, seeing the files visible from it in that graph
(`linkContext`); every file the build assembles is compiled so (`assemble_compiled_in_linkContext`).

Two builds may hold different files. A file whose import closure is parsed in both from the
same schemas under the same names (`TwinClosures`), every file of it in the order and unbroken
when linking starts (`ReadyToLink`), sees twin files in both: its imports and what they re-export
point at twins (`visible_twin`). No conflict blames a file it sees, so the table gives every name
it can see alike entries in both builds, and the file is linked to the same descriptor with
alike reports (`link_hermetic`); both builds assemble it so (`assemble_hermetic`). The one lookup
that reads the whole table, that of the message an option extends, must find the same name in
both builds.
-/

namespace ProtoSchema

open ImportGraph Relation

/-- Where a build stands when it starts linking: the order it links in, the graph after the import
checks, the files still healthy there, which fill the symbol table, the table with the
declarations it refused, and the graph once those are reported. -/
structure LinkStart where
  order : List Nat
  walked : ImportGraph
  healthy : List Nat
  table : SymbolTable
  conflicts : List Conflict
  graph : ImportGraph

/-- Where a build over the parsed files `p` starts linking. -/
def linkStart (fs : FileSet) (p : Parsing) : LinkStart :=
  let files := p.files
  let g₀ : ImportGraph :=
    { ofFiles files p.failed with annotations := p.annotations ++ (ofFiles files p.failed).annotations }
  let ordered := g₀.order files (fs.files.filterMap fun f => fileIndex? files f.name)
  let g₂ := ordered.2.propagate files ordered.1
  let healthy := ordered.1.filter fun i => !g₂.isBroken i
  let built := SymbolTable.build files healthy
  { order := ordered.1, walked := g₂, healthy, table := built.1, conflicts := built.2,
    graph := (built.2.foldl (conflictStep files) g₂).propagate files ordered.1 }

theorem linkStart_graph (fs : FileSet) (p : Parsing) :
    (linkStart fs p).graph =
      ((linkStart fs p).conflicts.foldl (conflictStep p.files) (linkStart fs p).walked).propagate p.files
        (linkStart fs p).order :=
  rfl

/-- The context in which a build over the parsed files `p` links its file at index `i`. -/
def linkContext (fs : FileSet) (p : Parsing) (sourceInfo : Bool) (i : Nat) : CompileContext :=
  let file := p.files[i]?.getD default
  { files := p.files, table := (linkStart fs p).table, file := file,
    visible := (linkStart fs p).graph.visibleFiles p.files i,
    proto3 := file.schema.dialect = .proto3, sourceInfo := sourceInfo }

theorem assemble_eq_linkStart (fs : FileSet) (p : Parsing) (sourceInfo : Bool) :
    assemble fs p sourceInfo =
      ((compileAll p.files (linkStart fs p).table sourceInfo (linkStart fs p).order (linkStart fs p).graph).1,
        (linkStart fs p).order.filterMap (imageFileOf p.files (fs.files.filterMap fun f => fileIndex? p.files f.name)
          (compileAll p.files (linkStart fs p).table sourceInfo (linkStart fs p).order (linkStart fs p).graph).1
          (compileAll p.files (linkStart fs p).table sourceInfo (linkStart fs p).order (linkStart fs p).graph).2)) :=
  rfl

theorem ImportGraph.visibleFiles_congr {files : Array ParsedFile} {g g' : ImportGraph} (h : g.deps = g'.deps)
    (i : Nat) : g.visibleFiles files i = g'.visibleFiles files i := by
  unfold visibleFiles importCount
  rw [h]

def CompiledWith (files : Array ParsedFile) (table : SymbolTable) (sourceInfo : Bool) (visible : Nat → List Nat)
    (out : Array (Option FileDescriptor)) : Prop :=
  ∀ v d, out.getD v none = some d → ∃ file, files[v]? = some file ∧
    d = (compileFile
      { files := files, table := table, file := file, visible := visible v,
        proto3 := file.schema.dialect = .proto3, sourceInfo := sourceInfo }).1

section Compiled

variable {files : Array ParsedFile} {table : SymbolTable} {sourceInfo : Bool} {g₀ : ImportGraph}

theorem compileStep_compiledWith (r : ImportGraph × Array (Option FileDescriptor)) (i : Nat)
    (hdeps : r.1.deps = g₀.deps) (h : CompiledWith files table sourceInfo (g₀.visibleFiles files) r.2) :
    CompiledWith files table sourceInfo (g₀.visibleFiles files) (compileStep files table sourceInfo r i).2 := by
  obtain ⟨g, out⟩ := r
  unfold compileStep
  dsimp only
  split
  · exact h
  split
  · exact h
  split
  · exact h
  rename_i file hf
  split
  · -- a clean compile stores its descriptor at `i`, seeing what the first graph shows
    intro v d hv
    rw [Array.getD_set!] at hv
    split at hv
    · rename_i hiv
      obtain ⟨rfl, -⟩ := hiv
      cases hv
      refine ⟨file, hf, ?_⟩
      rw [visibleFiles_congr ((markBrokenImports_extends files g _).deps.trans hdeps)]
    · exact h v d hv
  · exact h

theorem compileAll_compiledWith (order : List Nat) :
    CompiledWith files table sourceInfo (g₀.visibleFiles files) (compileAll files table sourceInfo order g₀).2 := by
  rw [compileAll_eq]
  refine (List.foldlRecOn (motive := fun r => r.1.deps = g₀.deps ∧
      CompiledWith files table sourceInfo (g₀.visibleFiles files) r.2) _ _ ?_
    fun r hr i _ => ⟨?_, compileStep_compiledWith r i hr.1 hr.2⟩).2
  · refine ⟨rfl, fun v d hv => ?_⟩
    by_cases hlt : v < files.size <;> simp [Array.getD_eq_getD_getElem?, hlt] at hv
  · obtain ⟨g', out⟩ := r
    exact (compileStep_extends table sourceInfo g' out i).deps.trans hr.1

end Compiled

/-- Every file a build assembles is compiled in its link context. -/
theorem assemble_compiled_in_linkContext (fs : FileSet) (p : Parsing) (sourceInfo : Bool) :
    ∀ imf ∈ (assemble fs p sourceInfo).2, ∃ v, v < p.files.size ∧
      imf.descriptor = (compileFile (linkContext fs p sourceInfo v)).1 := by
  intro imf himf
  rw [assemble_eq_linkStart] at himf
  obtain ⟨v, -, himf⟩ := List.mem_filterMap.mp himf
  unfold imageFileOf at himf
  split at himf
  · cases himf
  split at himf
  · rename_i d f hd hf
    cases himf
    obtain ⟨file, hfile, hd'⟩ := @compileAll_compiledWith p.files (linkStart fs p).table sourceInfo
      (linkStart fs p).graph (linkStart fs p).order v d hd
    refine ⟨v, (Array.getElem?_eq_some_iff.mp hfile).1, ?_⟩
    rw [hd', linkContext, hfile]
    rfl
  · cases himf

theorem assemble_compiled_named {fs : FileSet} {p : Parsing} {sourceInfo : Bool}
    (hnames : (p.files.toList.map (·.name)).Nodup) {imf : ImageFile} (himf : imf ∈ (assemble fs p sourceInfo).2)
    {i : Nat} (hi : p.files[i]?.map (·.name) = some imf.name) :
    imf.descriptor = (compileFile (linkContext fs p sourceInfo i)).1 := by
  obtain ⟨v, hv, hd⟩ := assemble_compiled_in_linkContext fs p sourceInfo imf himf
  obtain ⟨f, hf, hname⟩ := Option.map_eq_some_iff.mp hi
  have hv' : p.files[v]? = some p.files[v] := Array.getElem?_eq_getElem hv
  have hvname : p.files[v].name = imf.name := by
    rw [ImageFile.name, hd, (compileFile_descriptor _).1, linkContext, hv']
    rfl
  rw [hd, index_eq_of_name_eq hnames hv' hf (hvname.trans hname.symm)]

section Start

variable (fs : FileSet) (p : Parsing)

theorem linkStart_spec (hnamed : ∀ f ∈ p.files.toList, f.schema.PackageNamed) :
    Recorded p.files (linkStart fs p).healthy (linkStart fs p).table (linkStart fs p).conflicts ∧
      Shaped p.files (linkStart fs p).graph ∧
      (∀ j ∈ (linkStart fs p).order, (linkStart fs p).graph.isBroken j = false → j ∈ (linkStart fs p).healthy) ∧
      ∀ c ∈ (linkStart fs p).conflicts, (linkStart fs p).graph.isBroken c.file = true := by
  unfold linkStart
  dsimp only
  generalize fs.files.filterMap (fun f => fileIndex? p.files f.name) = requested
  generalize hg₀ : ({ ofFiles p.files p.failed with
    annotations := p.annotations ++ (ofFiles p.files p.failed).annotations } : ImportGraph) = g₀
  have hs₀ : Shaped p.files g₀ := fun i => by rw [← hg₀]; exact deps_ofFiles p.files p.failed i
  have hb₀ : g₀.broken.size = p.files.size := by rw [← hg₀]; exact size_broken_ofFiles p.files p.failed
  obtain ⟨-, -, hext₁, -, -⟩ := order_spec hs₀ hb₀ requested
  generalize g₀.order p.files requested = ordered at hext₁
  obtain ⟨order, g₁⟩ := ordered
  dsimp only at hext₁ ⊢
  have hext₂ := propagate_extends p.files order g₁
  generalize propagate p.files order g₁ = g₂ at hext₂ ⊢
  have hconf := SymbolTable.build_conflicts p.files (order.filter fun i => !g₂.isBroken i)
  generalize hbuilt : SymbolTable.build p.files (order.filter fun i => !g₂.isBroken i) = built at hconf ⊢
  -- reporting the conflicts and propagating only add marks
  have hext₃ := foldl_conflictStep_extends p.files built.2 g₂
  have hext₄ := propagate_extends p.files order (built.2.foldl (conflictStep p.files) g₂)
  refine ⟨?_, ((hext₁.trans hext₂).trans (hext₃.trans hext₄)).shaped hs₀, fun j hj hb => ?_, fun c hc => ?_⟩
  · rw [← hbuilt]
    exact SymbolTable.build_recorded_of_named hnamed _
  · exact List.mem_filter.mpr ⟨hj, by simp [(hext₃.trans hext₄).isBroken_false hb]⟩
  · refine hext₄.mono _ (isBroken_foldl_conflictStep p.files built.2 g₂ c hc ?_)
    rw [hext₂.size, hext₁.size, hb₀]
    exact (hconf c hc).2

/-- With no name declared twice, linking starts from the graph the import checks leave. -/
theorem linkStart_graph_of_fresh (hnamed : ∀ f ∈ p.files.toList, f.schema.PackageNamed)
    (hr : SymbolDecl.redeclarations [] (buildDecls p.files (linkStart fs p).healthy) = []) :
    (linkStart fs p).graph = (linkStart fs p).walked.propagate p.files (linkStart fs p).order := by
  rw [linkStart_graph, (linkStart_spec fs p hnamed).1.conflicts_eq_nil hr]
  rfl

end Start

/-! ### Twin closures -/

/-- File `i₁` of one build and file `i₂` of another are twins, and so is every file either of
them reaches through its imports, with some file of the other build. -/
structure TwinClosures (files₁ files₂ : Array ParsedFile) (i₁ i₂ : Nat) : Prop where
  root : Twins files₁ files₂ i₁ i₂
  left : ∀ j₁, ReflTransGen (Imports files₁) i₁ j₁ → ∃ j₂, Twins files₁ files₂ j₁ j₂
  right : ∀ j₂, ReflTransGen (Imports files₂) i₂ j₂ → ∃ j₁, Twins files₁ files₂ j₁ j₂

section Closures

variable {files files₁ files₂ : Array ParsedFile} {g g₁ g₂ : ImportGraph} {i i₁ i₂ : Nat}

theorem TwinClosures.symm (h : TwinClosures files₁ files₂ i₁ i₂) : TwinClosures files₂ files₁ i₂ i₁ :=
  ⟨h.root.symm, fun j₂ hj => (h.right j₂ hj).imp fun _ ht => ht.symm,
    fun j₁ hj => (h.left j₁ hj).imp fun _ ht => ht.symm⟩

theorem ImportGraph.Reexports.reaches (hs : Shaped files g) {x : Nat} (h : Reexports files g i x) :
    ReflTransGen (Imports files) i x := by
  induction h with
  | direct ht => exact .single (hs.imports_iff.mpr ht)
  | throughPublic _ he ih => exact ih.tail (hs.imports_iff.mpr he.mem_targets)

theorem reaches_of_visible (hs : Shaped files g) {x : Nat} (hx : x ∈ g.visibleFiles files i) :
    ReflTransGen (Imports files) i x := by
  rcases (mem_visibleFiles i x).mp hx with rfl | hr
  · exact .refl
  · exact hr.reaches hs

theorem fileIndex?_twin (hnames₂ : (files₂.toList.map (·.name)).Nodup) {n : String} {t₁ t₂ : Nat}
    (ht : fileIndex? files₁ n = some t₁) (htw : Twins files₁ files₂ t₁ t₂) : fileIndex? files₂ n = some t₂ := by
  obtain ⟨f, hf, rfl⟩ := name_of_fileIndex? ht
  obtain ⟨f₁, f₂, hf₁, hf₂, hname, -⟩ := htw
  obtain rfl : f = f₁ := Option.some.inj (hf.symm.trans hf₁)
  rw [hname]
  exact fileIndex?_of_name hnames₂ hf₂

theorem deps_twin (hs₁ : Shaped files₁ g₁) (hs₂ : Shaped files₂ g₂) (hnames₂ : (files₂.toList.map (·.name)).Nodup)
    {d₁ d₂ k t₁ t₂ : Nat} (hd : Twins files₁ files₂ d₁ d₂) (hdep : (g₁.deps.getD d₁ [])[k]? = some (some t₁))
    (ht : Twins files₁ files₂ t₁ t₂) : (g₂.deps.getD d₂ [])[k]? = some (some t₂) := by
  obtain ⟨pf, imp, hpf, himp, hidx⟩ := hs₁.edge hdep
  obtain ⟨f₁, f₂, hf₁, hf₂, -, hschema⟩ := hd
  obtain rfl : pf = f₁ := Option.some.inj (hpf.symm.trans hf₁)
  rw [hs₂ d₂, importTargets, hf₂, Option.map_some, Option.getD_some, List.getElem?_map, ← hschema, himp,
    Option.map_some, fileIndex?_twin hnames₂ hidx ht]

theorem ImportGraph.Reexports.twin (hs₁ : Shaped files₁ g₁) (hs₂ : Shaped files₂ g₂)
    (hnames₂ : (files₂.toList.map (·.name)).Nodup) (hc : TwinClosures files₁ files₂ i₁ i₂) {x : Nat}
    (h : Reexports files₁ g₁ i₁ x) : ∃ x₂, Twins files₁ files₂ x x₂ ∧ Reexports files₂ g₂ i₂ x₂ := by
  induction h with
  | @direct t ht =>
    obtain ⟨t₂, htw⟩ := hc.left t (.single (hs₁.imports_iff.mpr ht))
    obtain ⟨k, hk⟩ := mem_targets_iff.mp ht
    exact ⟨t₂, htw, .direct (mem_targets_iff.mpr ⟨k, deps_twin hs₁ hs₂ hnames₂ hc.root hk htw⟩)⟩
  | @throughPublic d t hd he ih =>
    obtain ⟨d₂, hdtw, hd₂⟩ := ih
    obtain ⟨t₂, htw⟩ := hc.left t ((hd.reaches hs₁).tail (hs₁.imports_iff.mpr he.mem_targets))
    obtain ⟨f, k, imp, hf, himp, hkind, hdep⟩ := he
    obtain ⟨f₁, f₂, hf₁, hf₂, hname, hschema⟩ := hdtw
    obtain rfl : f = f₁ := Option.some.inj (hf.symm.trans hf₁)
    refine ⟨t₂, htw, .throughPublic hd₂ ⟨f₂, k, imp, hf₂, hschema ▸ himp, hkind, ?_⟩⟩
    exact deps_twin hs₁ hs₂ hnames₂ ⟨f, f₂, hf₁, hf₂, hname, hschema⟩ hdep htw

/-- Every file visible from a file has a twin visible from the file's twin. -/
theorem visible_twin (hs₁ : Shaped files₁ g₁) (hs₂ : Shaped files₂ g₂)
    (hnames₂ : (files₂.toList.map (·.name)).Nodup) (hc : TwinClosures files₁ files₂ i₁ i₂) {x : Nat}
    (hx : x ∈ g₁.visibleFiles files₁ i₁) : ∃ x₂ ∈ g₂.visibleFiles files₂ i₂, Twins files₁ files₂ x x₂ := by
  rcases (mem_visibleFiles i₁ x).mp hx with rfl | hr
  · exact ⟨i₂, (mem_visibleFiles i₂ i₂).mpr (.inl rfl), hc.root⟩
  · obtain ⟨x₂, htw, hr₂⟩ := hr.twin hs₁ hs₂ hnames₂ hc
    exact ⟨x₂, (mem_visibleFiles i₂ x₂).mpr (.inr hr₂), htw⟩

theorem reaches_mem_of_closed {S : List Nat} (hi : i ∈ S)
    (hS : ∀ u ∈ S, ∀ v ∈ (importTargets files u).filterMap id, v ∈ S) {j : Nat}
    (h : ReflTransGen (Imports files) i j) : j ∈ S := by
  induction h with
  | refl => exact hi
  | tail _ hstep ih =>
    obtain ⟨f, hf, imp, himp, hidx⟩ := hstep
    refine hS _ ih _ (List.mem_filterMap.mpr ⟨_, ?_, hidx⟩)
    simp only [importTargets, hf, Option.map_some, Option.getD_some]
    exact List.mem_map_of_mem himp

theorem twinClosures_of_closed {S₁ S₂ : List Nat} (hroot : Twins files₁ files₂ i₁ i₂) (hi₁ : i₁ ∈ S₁)
    (hS₁ : ∀ u ∈ S₁, ∀ v ∈ (importTargets files₁ u).filterMap id, v ∈ S₁) (hi₂ : i₂ ∈ S₂)
    (hS₂ : ∀ u ∈ S₂, ∀ v ∈ (importTargets files₂ u).filterMap id, v ∈ S₂)
    (htw₁ : ∀ j₁ ∈ S₁, ∃ j₂, Twins files₁ files₂ j₁ j₂) (htw₂ : ∀ j₂ ∈ S₂, ∃ j₁, Twins files₁ files₂ j₁ j₂) :
    TwinClosures files₁ files₂ i₁ i₂ :=
  ⟨hroot, fun j₁ hj => htw₁ j₁ (reaches_mem_of_closed hi₁ hS₁ hj),
    fun j₂ hj => htw₂ j₂ (reaches_mem_of_closed hi₂ hS₂ hj)⟩

end Closures

/-! ### Linking in two builds -/

/-- A file ready to link: it and every file it reaches through its imports are in the build's
order, still healthy when linking starts. -/
def ReadyToLink (fs : FileSet) (p : Parsing) (i : Nat) : Prop :=
  ∀ j, ReflTransGen (Imports p.files) i j → j ∈ (linkStart fs p).order ∧ (linkStart fs p).graph.isBroken j = false

theorem readyToLink_of_closed {fs : FileSet} {p : Parsing} {i : Nat} {S : List Nat} (hi : i ∈ S)
    (hS : ∀ u ∈ S, ∀ v ∈ (importTargets p.files u).filterMap id, v ∈ S)
    (hready : ∀ j ∈ S, j ∈ (linkStart fs p).order ∧ (linkStart fs p).graph.isBroken j = false) :
    ReadyToLink fs p i :=
  fun j hj => hready j (reaches_mem_of_closed hi hS hj)

theorem ReadyToLink.cleanView {fs : FileSet} {p : Parsing} {i : Nat}
    (hnamed : ∀ f ∈ p.files.toList, f.schema.PackageNamed) (h : ReadyToLink fs p i) :
    SymbolTable.CleanView p.files (linkStart fs p).healthy (linkStart fs p).table (linkStart fs p).conflicts
      ((linkStart fs p).graph.visibleFiles p.files i) := by
  obtain ⟨hrec, hs, hhealthy, hblamed⟩ := linkStart_spec fs p hnamed
  refine ⟨hrec, fun _ _ f hf => hnamed f (Array.mem_toList_iff.mpr (Array.mem_of_getElem? hf)), fun j hj => ?_,
    fun c hc hv => ?_⟩
  · obtain ⟨ho, hb⟩ := h j (reaches_of_visible hs hj)
    exact hhealthy j ho hb
  · -- a file seen is healthy, and a conflict would have broken it
    have hb := (h c.file (reaches_of_visible hs hv)).2
    rw [hblamed c hc] at hb
    cases hb

theorem parsed_eq_of_sourceOf {bucket : Bucket} {fs₁ fs₂ : FileSet} {p₁ p₂ : Parsing}
    (hp₁ : parseAll bucket fs₁ = .ok p₁) (hp₂ : parseAll bucket fs₂ = .ok p₂) {f₁ f₂ : ParsedFile}
    (hf₁ : f₁ ∈ p₁.files.toList) (hf₂ : f₂ ∈ p₂.files.toList) (hname : f₁.name = f₂.name)
    (hsrc : sourceOf bucket fs₁ f₁.name = sourceOf bucket fs₂ f₁.name) : f₁ = f₂ := by
  obtain ⟨src₁, hsrc₁, -, hload₁⟩ := (parseAll_inv hp₁).1.files f₁ hf₁
  obtain ⟨src₂, hsrc₂, -, hload₂⟩ := (parseAll_inv hp₂).1.files f₂ hf₂
  rw [hsrc, hname, hsrc₂] at hsrc₁
  obtain rfl : src₂ = src₁ := Option.some.inj hsrc₁
  have h := hload₁.symm.trans hload₂
  injection h with h
  injection h

theorem twins_of_sourceOf {bucket : Bucket} {fs₁ fs₂ : FileSet} {p₁ p₂ : Parsing}
    (hp₁ : parseAll bucket fs₁ = .ok p₁) (hp₂ : parseAll bucket fs₂ = .ok p₂) {j₁ j₂ : Nat} {n : String}
    (h₁ : p₁.files[j₁]?.map (·.name) = some n) (h₂ : p₂.files[j₂]?.map (·.name) = some n)
    (hsrc : sourceOf bucket fs₁ n = sourceOf bucket fs₂ n) : Twins p₁.files p₂.files j₁ j₂ := by
  obtain ⟨f₁, hf₁, rfl⟩ := Option.map_eq_some_iff.mp h₁
  obtain ⟨f₂, hf₂, hname⟩ := Option.map_eq_some_iff.mp h₂
  obtain rfl := parsed_eq_of_sourceOf hp₁ hp₂ (Array.mem_toList_iff.mpr (Array.mem_of_getElem? hf₁))
    (Array.mem_toList_iff.mpr (Array.mem_of_getElem? hf₂)) hname.symm hsrc
  exact ⟨f₁, f₁, hf₁, hf₂, rfl, rfl⟩

theorem linkContext_linksAlike {bucket₁ bucket₂ : Bucket} {fs₁ fs₂ : FileSet} {p₁ p₂ : Parsing}
    (hp₁ : parseAll bucket₁ fs₁ = .ok p₁) (hp₂ : parseAll bucket₂ fs₂ = .ok p₂) (sourceInfo : Bool)
    {i₁ i₂ : Nat} (hc : TwinClosures p₁.files p₂.files i₁ i₂) (hr₁ : ReadyToLink fs₁ p₁ i₁)
    (hr₂ : ReadyToLink fs₂ p₂ i₂)
    (hext : ExtendeesAlike (linkContext fs₁ p₁ sourceInfo i₁) (linkContext fs₂ p₂ sourceInfo i₂)) :
    LinksAlike (linkContext fs₁ p₁ sourceInfo i₁) (linkContext fs₂ p₂ sourceInfo i₂) := by
  obtain ⟨hnamed₁, hnames₁⟩ := parseAll_named_distinct hp₁
  obtain ⟨hnamed₂, hnames₂⟩ := parseAll_named_distinct hp₂
  obtain ⟨f₁, f₂, hf₁, hf₂, hname, hschema⟩ := hc.root
  have hs₁ := (linkStart_spec fs₁ p₁ hnamed₁).2.1
  have hs₂ := (linkStart_spec fs₂ p₂ hnamed₂).2.1
  refine ⟨by simp [linkContext, hf₁, hf₂, hname], by simp [linkContext, hf₁, hf₂, hschema],
    by simp [linkContext, hf₁, hf₂, hschema], rfl, ?_, hext⟩
  -- the files each sees are twins of files the other sees
  refine SymbolTable.CleanView.seenAlike (hr₁.cleanView hnamed₁) (hr₂.cleanView hnamed₂)
    (fun j₁ hj => visible_twin hs₁ hs₂ hnames₂ hc hj) fun j₂ hj => ?_
  obtain ⟨j₁, hj₁, htw⟩ := visible_twin hs₂ hs₁ hnames₁ hc.symm hj
  exact ⟨j₁, hj₁, htw.symm⟩

/-- Two builds assemble twin files with twin closures, each ready to link, to the same
descriptor. -/
theorem assemble_hermetic {bucket₁ bucket₂ : Bucket} {fs₁ fs₂ : FileSet} {p₁ p₂ : Parsing}
    (hp₁ : parseAll bucket₁ fs₁ = .ok p₁) (hp₂ : parseAll bucket₂ fs₂ = .ok p₂) (sourceInfo : Bool)
    {i₁ i₂ : Nat} (hc : TwinClosures p₁.files p₂.files i₁ i₂) (hr₁ : ReadyToLink fs₁ p₁ i₁)
    (hr₂ : ReadyToLink fs₂ p₂ i₂)
    (hext : ExtendeesAlike (linkContext fs₁ p₁ sourceInfo i₁) (linkContext fs₂ p₂ sourceInfo i₂))
    {imf₁ imf₂ : ImageFile} (h₁ : imf₁ ∈ (assemble fs₁ p₁ sourceInfo).2) (h₂ : imf₂ ∈ (assemble fs₂ p₂ sourceInfo).2)
    (hn₁ : p₁.files[i₁]?.map (·.name) = some imf₁.name) (hn₂ : p₂.files[i₂]?.map (·.name) = some imf₂.name) :
    imf₁.descriptor = imf₂.descriptor := by
  rw [assemble_compiled_named (parseAll_named_distinct hp₁).2 h₁ hn₁,
    assemble_compiled_named (parseAll_named_distinct hp₂).2 h₂ hn₂]
  exact (compileFile_hermetic (linkContext_linksAlike hp₁ hp₂ sourceInfo hc hr₁ hr₂ hext)).1

/-- Linking is hermetic. In two builds, a file whose import closure is parsed from the same
schemas under the same names, all of it ready to link, is linked to the same descriptor, with
the same reports at the same places: a message may differ only where it names a file outside
that closure declaring a name the file could not resolve. The messages extended by the options
the file can see are looked up in the whole table, so they must be found alike. -/
theorem link_hermetic {bucket₁ bucket₂ : Bucket} {fs₁ fs₂ : FileSet} {p₁ p₂ : Parsing}
    (hp₁ : parseAll bucket₁ fs₁ = .ok p₁) (hp₂ : parseAll bucket₂ fs₂ = .ok p₂) (sourceInfo : Bool)
    {i₁ i₂ : Nat} (hc : TwinClosures p₁.files p₂.files i₁ i₂) (hr₁ : ReadyToLink fs₁ p₁ i₁)
    (hr₂ : ReadyToLink fs₂ p₂ i₂)
    (hext : ExtendeesAlike (linkContext fs₁ p₁ sourceInfo i₁) (linkContext fs₂ p₂ sourceInfo i₂)) :
    (compileFile (linkContext fs₁ p₁ sourceInfo i₁)).1 = (compileFile (linkContext fs₂ p₂ sourceInfo i₂)).1 ∧
      List.Forall₂ Annotation.Alike (compileFile (linkContext fs₁ p₁ sourceInfo i₁)).2
        (compileFile (linkContext fs₂ p₂ sourceInfo i₂)).2 :=
  compileFile_hermetic (linkContext_linksAlike hp₁ hp₂ sourceInfo hc hr₁ hr₂ hext)


section Sample

open SymbolDecl

def hermeticUserText : String := "syntax = \"proto2\";\nimport \"b.proto\";\nmessage A \x7b optional M m = 1; \x7d\n"

def hermeticDeclText : String :=
  "syntax = \"proto2\";\nmessage M \x7b extensions 100 to 200; \x7d\nextend M \x7b optional int32 e = 100; \x7d\n"

def hermeticOtherText : String := "syntax = \"proto2\";\nmessage C \x7b optional int32 x = 1; \x7d\n"

def hermeticBucket : Bucket :=
  ⟨[("a.proto", hermeticUserText.toUTF8.toList), ("b.proto", hermeticDeclText.toUTF8.toList),
    ("c.proto", hermeticOtherText.toUTF8.toList)]⟩

def hermeticFileSet₁ : FileSet :=
  { roots := ["."], files := [⟨".", "a.proto", "a.proto"⟩, ⟨".", "b.proto", "b.proto"⟩, ⟨".", "c.proto", "c.proto"⟩] }

def hermeticFileSet₂ : FileSet := { roots := ["."], files := [⟨".", "a.proto", "a.proto"⟩] }

def hermeticParsed₁ : Parsing := (parseAll hermeticBucket hermeticFileSet₁).toOption.getD {}

def hermeticParsed₂ : Parsing := (parseAll hermeticBucket hermeticFileSet₂).toOption.getD {}

theorem link_hermetic_extensionSample :
    parseAll hermeticBucket hermeticFileSet₁ = .ok hermeticParsed₁ ∧
      parseAll hermeticBucket hermeticFileSet₂ = .ok hermeticParsed₂ ∧
      TwinClosures hermeticParsed₁.files hermeticParsed₂.files 0 0 ∧
      ReadyToLink hermeticFileSet₁ hermeticParsed₁ 0 ∧ ReadyToLink hermeticFileSet₂ hermeticParsed₂ 0 ∧
      (∃ n s, (linkContext hermeticFileSet₁ hermeticParsed₁ false 0).table.visibleEntry
          (linkContext hermeticFileSet₁ hermeticParsed₁ false 0).visible n = some s ∧
        s.info.extendee? = some ("M", "e")) ∧
      ExtendeesAlike (linkContext hermeticFileSet₁ hermeticParsed₁ false 0)
        (linkContext hermeticFileSet₂ hermeticParsed₂ false 0) ∧
      (compileFile (linkContext hermeticFileSet₁ hermeticParsed₁ false 0)).1 =
          (compileFile (linkContext hermeticFileSet₂ hermeticParsed₂ false 0)).1 ∧
        List.Forall₂ Annotation.Alike (compileFile (linkContext hermeticFileSet₁ hermeticParsed₁ false 0)).2
          (compileFile (linkContext hermeticFileSet₂ hermeticParsed₂ false 0)).2 := by
  have hp₁ : parseAll hermeticBucket hermeticFileSet₁ = .ok hermeticParsed₁ :=
    parseAll_eq_of_isSome (by decide +kernel)
  have hp₂ : parseAll hermeticBucket hermeticFileSet₂ = .ok hermeticParsed₂ :=
    parseAll_eq_of_isSome (by decide +kernel)
  obtain ⟨hrec₁, -, -, -⟩ := linkStart_spec hermeticFileSet₁ hermeticParsed₁ (parseAll_named_distinct hp₁).1
  obtain ⟨hrec₂, -, -, -⟩ := linkStart_spec hermeticFileSet₂ hermeticParsed₂ (parseAll_named_distinct hp₂).1
  -- what evaluating the two builds gives, the tables left aside
  obtain ⟨hredecl₁, hclosed₁, hready₁, hM₁, hext₁, he₁, hvis₁⟩ :
      (redeclarations [] (buildDecls hermeticParsed₁.files (linkStart hermeticFileSet₁ hermeticParsed₁).healthy)).isEmpty ∧
      (∀ u ∈ [0, 1], ∀ v ∈ (importTargets hermeticParsed₁.files u).filterMap id, v ∈ [0, 1]) ∧
      (∀ j ∈ [0, 1], j ∈ (linkStart hermeticFileSet₁ hermeticParsed₁).order ∧
        ((linkStart hermeticFileSet₁ hermeticParsed₁).walked.propagate hermeticParsed₁.files
          (linkStart hermeticFileSet₁ hermeticParsed₁).order).isBroken j = false) ∧
      (firstOf (buildDecls hermeticParsed₁.files (linkStart hermeticFileSet₁ hermeticParsed₁).healthy) "M").isSome ∧
      (∀ d ∈ buildDecls hermeticParsed₁.files (linkStart hermeticFileSet₁ hermeticParsed₁).healthy,
        d.info.extendee? = none ∨ d.info.extendee? = some ("M", "e")) ∧
      (firstOf (buildDecls hermeticParsed₁.files (linkStart hermeticFileSet₁ hermeticParsed₁).healthy) "e").map
        (fun d => (d.kind, d.file, d.info.extendee?)) = some (SymbolKind.extension, 1, some ("M", "e")) ∧
      ((linkStart hermeticFileSet₁ hermeticParsed₁).walked.propagate hermeticParsed₁.files
          (linkStart hermeticFileSet₁ hermeticParsed₁).order).visibleFiles hermeticParsed₁.files 0 = [0, 1] := by
    decide +kernel
  obtain ⟨hredecl₂, hclosed₂, hready₂, hM₂, hname₀, hname₁, hsrc₀, hsrc₁⟩ :
      (redeclarations [] (buildDecls hermeticParsed₂.files (linkStart hermeticFileSet₂ hermeticParsed₂).healthy)).isEmpty ∧
      (∀ u ∈ [0, 1], ∀ v ∈ (importTargets hermeticParsed₂.files u).filterMap id, v ∈ [0, 1]) ∧
      (∀ j ∈ [0, 1], j ∈ (linkStart hermeticFileSet₂ hermeticParsed₂).order ∧
        ((linkStart hermeticFileSet₂ hermeticParsed₂).walked.propagate hermeticParsed₂.files
          (linkStart hermeticFileSet₂ hermeticParsed₂).order).isBroken j = false) ∧
      (firstOf (buildDecls hermeticParsed₂.files (linkStart hermeticFileSet₂ hermeticParsed₂).healthy) "M").isSome ∧
      (hermeticParsed₁.files[0]?.map (·.name) = some "a.proto" ∧ hermeticParsed₂.files[0]?.map (·.name) = some "a.proto") ∧
      (hermeticParsed₁.files[1]?.map (·.name) = some "b.proto" ∧ hermeticParsed₂.files[1]?.map (·.name) = some "b.proto") ∧
      sourceOf hermeticBucket hermeticFileSet₁ "a.proto" = sourceOf hermeticBucket hermeticFileSet₂ "a.proto" ∧
      sourceOf hermeticBucket hermeticFileSet₁ "b.proto" = sourceOf hermeticBucket hermeticFileSet₂ "b.proto" := by
    decide +kernel
  have hgraph₁ := linkStart_graph_of_fresh _ _ (parseAll_named_distinct hp₁).1 (List.isEmpty_iff.mp hredecl₁)
  have hgraph₂ := linkStart_graph_of_fresh _ _ (parseAll_named_distinct hp₂).1 (List.isEmpty_iff.mp hredecl₂)
  have htwin : ∀ j ∈ [0, 1], Twins hermeticParsed₁.files hermeticParsed₂.files j j := by
    intro j hj
    rcases List.mem_pair.mp hj with rfl | rfl
    · exact twins_of_sourceOf hp₁ hp₂ hname₀.1 hname₀.2 hsrc₀
    · exact twins_of_sourceOf hp₁ hp₂ hname₁.1 hname₁.2 hsrc₁
  have hc : TwinClosures hermeticParsed₁.files hermeticParsed₂.files 0 0 :=
    twinClosures_of_closed (htwin 0 (by simp)) (by simp) hclosed₁ (by simp) hclosed₂
      (fun j hj => ⟨j, htwin j hj⟩) (fun j hj => ⟨j, htwin j hj⟩)
  have hr₁ : ReadyToLink hermeticFileSet₁ hermeticParsed₁ 0 :=
    readyToLink_of_closed (by simp) hclosed₁ (by rw [hgraph₁]; exact hready₁)
  have hr₂ : ReadyToLink hermeticFileSet₂ hermeticParsed₂ 0 :=
    readyToLink_of_closed (by simp) hclosed₂ (by rw [hgraph₂]; exact hready₂)
  have hseen : ∃ n s, (linkContext hermeticFileSet₁ hermeticParsed₁ false 0).table.visibleEntry
      (linkContext hermeticFileSet₁ hermeticParsed₁ false 0).visible n = some s ∧
        s.info.extendee? = some ("M", "e") := by
    obtain ⟨d₀, hfirst, hd₀⟩ := Option.map_eq_some_iff.mp he₁
    obtain ⟨s, hget, hkind, hfile, hi⟩ := hrec₁.first "e" d₀ hfirst
    simp only [Prod.mk.injEq] at hd₀
    have hinfo : s.info = d₀.info := hi (by rw [hd₀.1]; decide)
    refine ⟨"e", s, ?_, by rw [hinfo, hd₀.2.2]⟩
    simp only [linkContext, SymbolTable.visibleEntry, hget, hgraph₁, hvis₁, Option.filter_some]
    rw [SymbolTable.isVisible_of_info (fun fs h => by
      have hx := hd₀.2.2
      rw [← hinfo, h] at hx
      cases hx), hfile, hd₀.2.1]
    rfl
  have hext : ExtendeesAlike (linkContext hermeticFileSet₁ hermeticParsed₁ false 0)
      (linkContext hermeticFileSet₂ hermeticParsed₂ false 0) := by
    intro n s extendee scope number hs hinfo full
    obtain ⟨hget, -⟩ := Option.filter_eq_some_iff.mp hs
    obtain ⟨d₀, hmem, hd₀⟩ := hrec₁.info_mem hget fun fs h => by rw [hinfo] at h; cases h
    have hext : some (extendee, scope) = some ("M", "e") := by
      rcases hext₁ d₀ hmem with h | h <;> rw [← hd₀, hinfo] at h
      · cases h
      · exact h
    obtain ⟨rfl, rfl⟩ := Prod.mk.inj (Option.some.inj hext)
    obtain ⟨dM₁, hfirstM₁⟩ := Option.isSome_iff_exists.mp hM₁
    obtain ⟨dM₂, hfirstM₂⟩ := Option.isSome_iff_exists.mp hM₂
    obtain ⟨sM₁, hgetM₁, -⟩ := hrec₁.first "M" dM₁ hfirstM₁
    obtain ⟨sM₂, hgetM₂, -⟩ := hrec₂.first "M" dM₂ hfirstM₂
    simp only [linkContext]
    rw [SymbolTable.lookup_of_enclosingScopes_nil (by decide +kernel) (by decide +kernel) hgetM₁,
      SymbolTable.lookup_of_enclosingScopes_nil (by decide +kernel) (by decide +kernel) hgetM₂]
    constructor <;> rintro ⟨s', h⟩ <;> cases h <;> exact ⟨_, rfl⟩
  exact ⟨hp₁, hp₂, hc, hr₁, hr₂, hseen, hext, link_hermetic hp₁ hp₂ false hc hr₁ hr₂ hext⟩

end Sample

end ProtoSchema
