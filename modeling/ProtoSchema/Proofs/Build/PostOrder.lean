import ProtoSchema.Proofs.Build.Result
import ProtoSchema.Proofs.Build.Walk

/-!
The order a build compiles and assembles its files in is the recursive depth-first
post-order of the import graph. `PostOrder` states that recursion: visiting files in
order, a file already seen is passed over, and a file not seen yet is marked, its
resolved imports are visited in declaration order, and then it is emitted.

The walk of a build keeps an explicit stack of frames `(file, next import)` instead.
It computes the recursion exactly, on every graph, cyclic or not: a frame `(f, x)`
runs until it has visited the imports of `f` from `x` on and emitted `f`, and leaves
the frames below it as they were (`Walk.finish`). A cycle changes only the graph's
marks and annotations, so for the order a file on the stack counts as seen, as it
does in the recursion. The walk's potential drops at each step, so the argument is
an induction on it.

Main statement: `order_eq_postOrder`.
-/

namespace ProtoSchema

/-- The recursive depth-first post-order over `succ`, starting from the files `seen`:
visiting the files `vs` in order, a file already seen is passed over, and a file not
seen yet is marked, its successors are visited in order, and then it is emitted.
`seen'` is what is seen at the end, and `out` what was emitted. -/
inductive PostOrder (succ : Nat → List Nat) : Set Nat → List Nat → Set Nat → List Nat → Prop
  | nil {seen : Set Nat} : PostOrder succ seen [] seen []
  | skip {seen seen' : Set Nat} {v : Nat} {vs out : List Nat} :
      v ∈ seen → PostOrder succ seen vs seen' out → PostOrder succ seen (v :: vs) seen' out
  | visit {seen seen₁ seen₂ : Set Nat} {v : Nat} {vs out₁ out₂ : List Nat} :
      v ∉ seen → PostOrder succ (insert v seen) (succ v) seen₁ out₁ →
        PostOrder succ seen₁ vs seen₂ out₂ → PostOrder succ seen (v :: vs) seen₂ (out₁ ++ v :: out₂)

namespace PostOrder

variable {succ : Nat → List Nat}

theorem unique {seen seen₁ seen₂ : Set Nat} {vs out₁ out₂ : List Nat}
    (h₁ : PostOrder succ seen vs seen₁ out₁) (h₂ : PostOrder succ seen vs seen₂ out₂) :
    seen₁ = seen₂ ∧ out₁ = out₂ := by
  induction h₁ generalizing seen₂ out₂ with
  | nil =>
    cases h₂
    exact ⟨rfl, rfl⟩
  | skip hv _ ih =>
    cases h₂ with
    | skip _ h₂ => exact ih h₂
    | visit hv' _ _ => exact absurd hv hv'
  | visit hv _ _ ih₁ ih₂ =>
    cases h₂ with
    | skip hv' _ => exact absurd hv' hv
    | visit _ h₂₁ h₂₂ =>
      obtain ⟨rfl, rfl⟩ := ih₁ h₂₁
      obtain ⟨rfl, rfl⟩ := ih₂ h₂₂
      exact ⟨rfl, rfl⟩

theorem emitted {seen seen' : Set Nat} {vs out : List Nat} (h : PostOrder succ seen vs seen' out) :
    seen ⊆ seen' ∧ out.Nodup ∧ ∀ v ∈ out, v ∉ seen ∧ v ∈ seen' := by
  induction h with
  | nil => exact ⟨subset_rfl, List.nodup_nil, by simp⟩
  | skip _ _ ih => exact ih
  | @visit seen seen₁ seen₂ v vs out₁ out₂ hv _ _ ih₁ ih₂ =>
    obtain ⟨hs₁, hn₁, ho₁⟩ := ih₁
    obtain ⟨hs₂, hn₂, ho₂⟩ := ih₂
    have hv₁ : v ∈ seen₁ := hs₁ (Set.mem_insert v seen)
    refine ⟨(Set.subset_insert v seen).trans (hs₁.trans hs₂), ?_, fun u hu => ?_⟩
    · refine List.nodup_append.mpr ⟨hn₁, List.nodup_cons.mpr ⟨fun h => (ho₂ v h).1 hv₁, hn₂⟩, ?_⟩
      intro a ha b hb hab
      subst hab
      rcases List.mem_cons.mp hb with rfl | hb
      · exact (ho₁ a ha).1 (Set.mem_insert a seen)
      · exact (ho₂ a hb).1 (ho₁ a ha).2
    · rcases List.mem_append.mp hu with hu | hu
      · exact ⟨fun h => (ho₁ u hu).1 (Set.mem_insert_of_mem v h), hs₂ (ho₁ u hu).2⟩
      rcases List.mem_cons.mp hu with rfl | hu
      · exact ⟨hv, hs₂ hv₁⟩
      · exact ⟨fun h => (ho₂ u hu).1 (hs₁ (Set.mem_insert_of_mem v h)), (ho₂ u hu).2⟩

end PostOrder

namespace ImportGraph

theorem filterMap_drop_of_getElem? {l : List (Option Nat)} {x : Nat} {y : Option Nat}
    (h : l[x]? = some y) : (l.drop x).filterMap id = y.toList ++ (l.drop (x + 1)).filterMap id := by
  rw [List.drop_eq_getElem_cons (List.getElem?_eq_some_iff.mp h).1,
    (List.getElem?_eq_some_iff.mp h).2, List.filterMap_cons]
  cases y <;> rfl

namespace Walk

variable {files : Array ParsedFile}

def seenSet (files : Array ParsedFile) (w : Walk) : Set Nat :=
  {v | v < files.size ∧ w.marks.getD v .done ≠ .fresh}

theorem mem_seenSet {w : Walk} {v : Nat} :
    v ∈ seenSet files w ↔ v < files.size ∧ w.marks.getD v .done ≠ .fresh := Iff.rfl

theorem seenSet_congr {w w' : Walk} (hm : w'.marks = w.marks) : seenSet files w' = seenSet files w := by
  simp only [seenSet, hm]

theorem seenSet_mark {w : Walk} {t : Nat} (ht : t < files.size) (hsize : w.marks.size = files.size)
    {m : Mark} (hm : m ≠ .fresh) :
    seenSet files { w with marks := w.marks.set! t m } = insert t (seenSet files w) := by
  ext v
  simp only [seenSet, Set.mem_ofPred_eq, Set.mem_insert_iff, Array.getD_set!]
  by_cases hv : t = v
  · subst hv
    simp [ht, hsize, hm]
  · simp [hv, Ne.symm hv]

theorem Grows.targets {w w' : Walk} (h : Grows w w') : w'.graph.targets = w.graph.targets := by
  funext v
  simp only [ImportGraph.targets, h.graph.deps]

theorem walk_nil (fuel : Nat) (w : Walk) : walk files fuel [] w = w := by
  cases fuel <;> rfl

/-- A frame finishes as the recursion does: given fuel above the potential, the walk from
the frame `(f, x)` reaches the frames below it once it has visited the imports of `f` from
`x` on, in the order the recursion visits them, and emitted `f` after them. -/
theorem finish : ∀ (n : Nat) {w : Walk} {f x : Nat} {below : List (Nat × Nat)} {fuel : Nat},
    potential files w ((f, x) :: below) < n → Inv files w ((f, x) :: below) →
    potential files w ((f, x) :: below) < fuel →
    ∃ w' fuel' out, walk files fuel ((f, x) :: below) w = walk files fuel' below w' ∧
      Inv files w' below ∧ Grows w w' ∧ potential files w' below < fuel' ∧
      potential files w' below < potential files w ((f, x) :: below) ∧
      PostOrder w.graph.targets (seenSet files w) (((w.graph.deps.getD f []).drop x).filterMap id)
        (seenSet files w') out ∧
      w'.order.toList = w.order.toList ++ out ++ [f]
  | 0, _, _, _, _, _, hn, _, _ => absurd hn (Nat.not_lt_zero _)
  | n + 1, w, f, x, below, fuel, hn, h, hfuel => by
    obtain ⟨fuel, rfl⟩ : ∃ k, fuel = k + 1 := ⟨fuel - 1, by omega⟩
    -- each step lowers the potential, so the next frame state is below `n` and `fuel`
    have hn' := Nat.le_of_lt_succ hn
    have hfuel' := Nat.le_of_lt_succ hfuel
    have hadvance {y : Option Nat} (hx : (w.graph.deps.getD f [])[x]? = some y) :
        potential files w ((f, x + 1) :: below) < potential files w ((f, x) :: below) :=
      Nat.add_lt_add_left (stackWeight_advance (List.getElem?_eq_some_iff.mp hx).1) _
    cases hx : (w.graph.deps.getD f [])[x]? with
    | none =>
      obtain ⟨hinv, hg, hp⟩ := h.pop hx
      have hf : f ∈ seenSet files w := mem_seenSet.mpr ⟨h.head_lt, by rw [h.head_active]; simp⟩
      have hseen : seenSet files { w with marks := w.marks.set! f .done, order := w.order.push f } =
          seenSet files w := by
        rw [← Set.insert_eq_of_mem hf, ← seenSet_mark h.head_lt h.marksSize (show Mark.done ≠ .fresh by simp)]
        rfl
      refine ⟨_, fuel, [], by rw [walk, hx], hinv, hg, Nat.lt_of_lt_of_le hp hfuel', hp, ?_, by simp⟩
      rw [List.drop_eq_nil_of_le (List.getElem?_eq_none_iff.mp hx), List.filterMap_nil, hseen]
      exact .nil
    | some y =>
      cases y with
      | none =>
        have hadv := h.advance (h.frames.1.succ fun t ht => by rw [hx] at ht; cases ht)
        obtain ⟨w', fuel', out, hrun, hinv, hg, hf', hp', hpost, hord⟩ :=
          finish n (Nat.lt_of_lt_of_le (hadvance hx) hn') hadv (Nat.lt_of_lt_of_le (hadvance hx) hfuel')
        refine ⟨w', fuel', out, by rw [walk, hx]; exact hrun, hinv, hg, hf', hp'.trans (hadvance hx), ?_, hord⟩
        rwa [filterMap_drop_of_getElem? hx]
      | some t =>
        have htn : t < files.size := h.shaped.target_lt hx
        rw [filterMap_drop_of_getElem? hx]
        cases ht : w.marks.getD t .done with
        | fresh =>
          obtain ⟨h₁, hg₁, hp₁⟩ := h.descend hx ht
          obtain ⟨w₂, fuel₂, out₁, hrun₁, h₂, hg₂, hf₂, hp₂, hpost₁, hord₁⟩ :=
            finish n (Nat.lt_of_lt_of_le hp₁ hn') h₁ (Nat.lt_of_lt_of_le hp₁ hfuel')
          obtain ⟨w₃, fuel₃, out₂, hrun₂, h₃, hg₃, hf₃, hp₃, hpost₂, hord₂⟩ :=
            finish n (by omega) h₂ hf₂
          have hcall : PostOrder w.graph.targets (insert t (seenSet files w)) (w.graph.targets t)
              (seenSet files w₂) out₁ := by
            rw [← seenSet_mark htn h.marksSize (show Mark.active ≠ .fresh by simp)]
            simpa [ImportGraph.targets] using hpost₁
          have hrest : PostOrder w.graph.targets (seenSet files w₂)
              (((w.graph.deps.getD f []).drop (x + 1)).filterMap id) (seenSet files w₃) out₂ := by
            rwa [← (hg₁.trans hg₂).targets, ← (hg₁.trans hg₂).graph.deps]
          refine ⟨w₃, fuel₃, out₁ ++ t :: out₂, ?_, h₃, hg₁.trans (hg₂.trans hg₃), hf₃, by omega,
            .visit (fun hs => (mem_seenSet.mp hs).2 ht) hcall hrest, ?_⟩
          · rw [walk, hx]
            simp only [ht]
            rw [hrun₁, hrun₂]
          · rw [hord₂, hord₁]
            simp
        | active =>
          obtain ⟨h₁, hg₁, hp₁⟩ := h.cycle hx ht
          obtain ⟨hm, ho, -, -⟩ := reportCycle_spec h.shaped hx (((f, x + 1) :: below).map (·.1))
          obtain ⟨w', fuel', out, hrun, hinv, hg, hf', hp', hpost, hord⟩ :=
            finish n (Nat.lt_of_lt_of_le hp₁ hn') h₁ (Nat.lt_of_lt_of_le hp₁ hfuel')
          refine ⟨w', fuel', out, by rw [walk, hx]; simp only [ht]; exact hrun, hinv, hg₁.trans hg, hf',
            hp'.trans hp₁, .skip (mem_seenSet.mpr ⟨htn, by rw [ht]; simp⟩) ?_, by rw [hord, ho]⟩
          rwa [← hg₁.targets, ← hg₁.graph.deps, ← seenSet_congr hm]
        | done =>
          have hord₀ : t ∈ w.order.toList := (h.done t htn).1 ht
          have hadv := h.advance (h.frames.1.succ fun t' ht' => by
            rw [hx, Option.some.injEq, Option.some.injEq] at ht'
            exact .inl (ht' ▸ hord₀))
          obtain ⟨w', fuel', out, hrun, hinv, hg, hf', hp', hpost, hord⟩ :=
            finish n (Nat.lt_of_lt_of_le (hadvance hx) hn') hadv (Nat.lt_of_lt_of_le (hadvance hx) hfuel')
          refine ⟨w', fuel', out, by rw [walk, hx]; simp only [ht]; exact hrun, hinv, hg, hf',
            hp'.trans (hadvance hx), .skip (mem_seenSet.mpr ⟨htn, by rw [ht]; simp⟩) hpost, hord⟩

theorem foldl_rootStep_postOrder {fuel : Nat} :
    ∀ (roots : List Nat) {w : Walk}, Inv files w [] → freshWeight files w < fuel →
      (∀ r ∈ roots, r < files.size) →
      ∃ out, PostOrder w.graph.targets (seenSet files w) roots
          (seenSet files (roots.foldl (rootStep files fuel) w)) out ∧
        (roots.foldl (rootStep files fuel) w).order.toList = w.order.toList ++ out
  | [], w, _, _, _ => ⟨[], .nil, by simp⟩
  | r :: rs, w, h, hfuel, hroots => by
    have hr : r < files.size := hroots r List.mem_cons_self
    have hrs : ∀ r' ∈ rs, r' < files.size := fun r' h' => hroots r' (List.mem_cons_of_mem _ h')
    rw [List.foldl_cons]
    by_cases hm : w.marks.getD r .done = .fresh
    · -- a fresh root is visited: its frame finishes with the stack empty
      obtain ⟨h₁, hg₁, hp₁⟩ := h.start hr hm
      obtain ⟨w₂, fuel₂, out₁, hrun, h₂, hg₂, -, -, hpost₁, hord₁⟩ :=
        finish (potential files _ [(r, 0)] + 1) (Nat.lt_succ_self _) h₁ (hp₁.trans hfuel)
      have hstep : rootStep files fuel w r = w₂ := by
        rw [rootStep, if_neg (not_not.mpr hm), hrun, walk_nil]
      rw [hstep]
      obtain ⟨out₂, hpost₂, hord₂⟩ := foldl_rootStep_postOrder rs h₂
        (Nat.lt_of_le_of_lt (freshWeight_le files (hg₁.trans hg₂)) hfuel) hrs
      have hcall : PostOrder w.graph.targets (insert r (seenSet files w)) (w.graph.targets r)
          (seenSet files w₂) out₁ := by
        rw [← seenSet_mark hr h.marksSize (show Mark.active ≠ .fresh by simp)]
        simpa [ImportGraph.targets] using hpost₁
      have hrest : PostOrder w.graph.targets (seenSet files w₂) rs
          (seenSet files (rs.foldl (rootStep files fuel) w₂)) out₂ := by
        rwa [← (hg₁.trans hg₂).targets]
      refine ⟨out₁ ++ r :: out₂, .visit (fun hs => (mem_seenSet.mp hs).2 hm) hcall hrest, ?_⟩
      rw [hord₂, hord₁]
      simp
    · -- a root already reached is passed over
      have hstep : rootStep files fuel w r = w := by rw [rootStep, if_pos hm]
      rw [hstep]
      obtain ⟨out, hpost, hord⟩ := foldl_rootStep_postOrder rs h hfuel hrs
      exact ⟨out, .skip (mem_seenSet.mpr ⟨hr, hm⟩) hpost, hord⟩

theorem seenSet_start (g : ImportGraph) : seenSet files (start files g) = ∅ := by
  ext v
  simp only [seenSet, start, Set.mem_ofPred_eq, Set.mem_empty_iff_false, iff_false, not_and]
  intro hv
  simp [hv]

end Walk

/-- The walk computes the recursion: over a graph of the build's files, from roots among
them, the order it gives is the one outcome of the recursive post-order. -/
theorem order_eq_postOrder {files : Array ParsedFile} {g : ImportGraph} (hs : Shaped files g)
    (hb : g.broken.size = files.size) {roots : List Nat} (hroots : ∀ r ∈ roots, r < files.size)
    (out : List Nat) : (∃ seen, PostOrder g.targets ∅ roots seen out) ↔ out = (order files roots g).1 := by
  obtain ⟨out₀, hpost, hord⟩ :=
    Walk.foldl_rootStep_postOrder roots (Walk.inv_start hs hb) (Walk.freshWeight_start_lt hs) hroots
  have hempty : (Walk.start files g).order.toList = [] := rfl
  rw [Walk.seenSet_start] at hpost
  rw [hempty, List.nil_append] at hord
  have horder : (order files roots g).1 = out₀ := by
    rw [order_eq]
    exact hord
  rw [horder]
  constructor
  · rintro ⟨seen, h⟩
    exact (PostOrder.unique h hpost).2
  · rintro rfl
    exact ⟨_, hpost⟩

end ImportGraph

/-! ### The order of a build's image -/

open ImportGraph

section Image

variable {files : Array ParsedFile} {requested : List Nat} {g : ImportGraph}
  {out : Array (Option FileDescriptor)} {order : List Nat}

theorem names_filterMap_imageFileOf (hc : Compiled files order (g, out)) (includeImports : Bool)
    {l : List Nat} (hl : ∀ v ∈ l, v ∈ order) :
    ((l.filterMap (imageFileOf files requested g out)).filter
        fun f => includeImports || !f.isImport).map (·.name) =
      (l.filter fun v => !g.isBroken v && (includeImports || requested.contains v)).filterMap
        fun v => files[v]?.map (·.name) := by
  induction l with
  | nil => rfl
  | cons v l ih =>
    have hv : v ∈ order := hl v List.mem_cons_self
    have ih := ih fun u hu => hl u (List.mem_cons_of_mem v hu)
    cases hb : g.isBroken v with
    | true =>
      -- a broken file is assembled into nothing
      have hnone : imageFileOf files requested g out v = none := by simp [imageFileOf, hb]
      rw [List.filterMap_cons_none hnone, List.filter_cons, if_neg (by simp [hb]), ih]
    | false =>
      obtain ⟨imf, himf⟩ := Option.isSome_iff_exists.mp (imageFileOf_isSome hc hv hb)
      obtain ⟨-, file, hfile, hname, -, himport⟩ := imageFileOf_eq_some hc hv himf
      rw [List.filterMap_cons_some himf]
      cases hkeep : (includeImports || requested.contains v) with
      | true =>
        have hkeep' : (includeImports || !imf.isImport) = true := by
          rw [himport, Bool.not_not]
          exact hkeep
        have hsome : files[v]?.map (·.name) = some imf.name := by rw [hfile, hname]; rfl
        rw [List.filter_cons, if_pos hkeep', List.filter_cons, if_pos (by rw [hb, hkeep]; rfl),
          List.map_cons, ih]
        simp only [List.filterMap_cons, hsome]
      | false =>
        have hkeep' : ¬(includeImports || !imf.isImport) = true := by
          rw [himport, Bool.not_not, hkeep]
          exact Bool.false_ne_true
        rw [List.filter_cons, if_neg hkeep', List.filter_cons,
          if_neg (by rw [hb, hkeep]; exact Bool.false_ne_true), ih]

end Image

theorem runBuild_names_postOrder {bucket : Bucket} {fs : FileSet} {p : Parsing}
    (hp : parseAll bucket fs = .ok p) {includeImports sourceInfo : Bool} {r : BuildResult}
    (hr : runBuild bucket fs includeImports sourceInfo false = .ok r) :
    ∃ post seen, PostOrder (fun v => (importTargets p.files v).filterMap id) ∅
        (fs.files.filterMap fun f => fileIndex? p.files f.name) seen post ∧
      r.image.names = (post.filter fun v => !(assemble fs p sourceInfo).1.isBroken v &&
          (includeImports || (fs.files.filterMap fun f => fileIndex? p.files f.name).contains v)).filterMap
        fun v => p.files[v]?.map (·.name) := by
  obtain ⟨order, out, hfiles, -, -, -, hc, -, -, -, -, hord⟩ := assemble_facts fs p sourceInfo
  -- the walk starts from the graph of the parsed files, whose edges are the resolved imports
  have hs₀ : Shaped p.files ({ ofFiles p.files p.failed with
      annotations := p.annotations ++ (ofFiles p.files p.failed).annotations } : ImportGraph) :=
    deps_ofFiles p.files p.failed
  have hroots : ∀ v ∈ fs.files.filterMap (fun f => fileIndex? p.files f.name), v < p.files.size := by
    intro v hv
    obtain ⟨f, -, hf⟩ := List.mem_filterMap.mp hv
    exact fileIndex?_lt hf
  obtain ⟨seen, hpost⟩ :=
    (order_eq_postOrder hs₀ (size_broken_ofFiles p.files p.failed) hroots order).mpr hord
  have hsucc : targets ({ ofFiles p.files p.failed with
      annotations := p.annotations ++ (ofFiles p.files p.failed).annotations } : ImportGraph) =
      fun v => (importTargets p.files v).filterMap id := by
    funext v
    rw [targets, hs₀ v]
  rw [hsucc] at hpost
  refine ⟨order, seen, hpost, ?_⟩
  rw [runBuild_eq hp] at hr
  cases himg : Image.ofFiles (assemble fs p sourceInfo).2 with
  | error e =>
    rw [himg] at hr
    cases hr
  | ok image =>
    rw [himg] at hr
    cases hr
    rw [(Image.validate_eq_ok.mp himg).2, hfiles,
      ← names_filterMap_imageFileOf hc includeImports fun v hv => hv]
    cases includeImports <;> simp [Image.names, Image.withoutImports]

/-- Every file of the image built, in order, is where the recursive depth-first post-order
of the import graph puts it, and the explicit-stack walk computes that recursion on every
graph of imports, cyclic or not: over a graph whose edges are the resolved imports of the
files, from roots among them, the walk's order is the one outcome of the recursion. -/
theorem build_order_eq_postOrder :
    (∀ (files : Array ParsedFile) (g : ImportGraph) (roots : List Nat), Shaped files g →
      g.broken.size = files.size → (∀ r ∈ roots, r < files.size) →
      ∀ out, (∃ seen, PostOrder g.targets ∅ roots seen out) ↔ out = (g.order files roots).1) ∧
    ∀ (bucket : Bucket) (fs : FileSet) (p : Parsing), parseAll bucket fs = .ok p →
      ∀ (includeImports sourceInfo : Bool) (r : BuildResult),
        runBuild bucket fs includeImports sourceInfo false = .ok r →
        ∃ post seen, PostOrder (fun v => (importTargets p.files v).filterMap id) ∅
            (fs.files.filterMap fun f => fileIndex? p.files f.name) seen post ∧
          r.image.names = (post.filter fun v => !(assemble fs p sourceInfo).1.isBroken v &&
              (includeImports || (fs.files.filterMap fun f => fileIndex? p.files f.name).contains v)).filterMap
            fun v => p.files[v]?.map (·.name) :=
  ⟨fun _ _ _ hs hb hroots out => order_eq_postOrder hs hb hroots out,
    fun _ _ _ hp _ _ _ hr => runBuild_names_postOrder hp hr⟩

def ParsedFile.importing (name dep : String) : ParsedFile :=
  { (default : ParsedFile) with
    name, schema := { (default : SchemaFile) with imports := [{ (default : Import) with path := ⟨dep, {}⟩ }] } }

def twoCycle : Array ParsedFile :=
  #[ParsedFile.importing "a.proto" "b.proto", ParsedFile.importing "b.proto" "a.proto"]

def twoCycleGraph : ImportGraph := { deps := #[[some 1], [some 0]], broken := #[false, false], annotations := #[] }

/-- The walk of two files importing each other, from the first, ends with the second, then the
first; and the image of the sample build, whose file publicly imports a well-known file, lists
the unbroken files of the post-order. -/
theorem build_order_eq_postOrder_twoCycle :
    (∃ seen, PostOrder twoCycleGraph.targets ∅ [0] seen [1, 0]) ∧
      ∃ r, runBuild linkSampleBucket linkSampleFileSet true false false = .ok r ∧
        ∃ post seen, PostOrder (fun v => (importTargets linkSampleParsed.files v).filterMap id) ∅
            (linkSampleFileSet.files.filterMap fun f => fileIndex? linkSampleParsed.files f.name) seen post ∧
          r.image.names = (post.filter fun v => !(assemble linkSampleFileSet linkSampleParsed false).1.isBroken v &&
              (true || (linkSampleFileSet.files.filterMap fun f => fileIndex? linkSampleParsed.files f.name).contains v)).filterMap
            fun v => linkSampleParsed.files[v]?.map (·.name) := by
  have hs : Shaped twoCycle twoCycleGraph := by
    intro i
    rcases i with _ | _ | i
    · decide +kernel
    · decide +kernel
    · simp [twoCycleGraph, importTargets, twoCycle]
  exact ⟨(build_order_eq_postOrder.1 twoCycle twoCycleGraph [0] hs rfl (by decide) [1, 0]).mpr (by decide),
    _, runBuild_linkSample,
    build_order_eq_postOrder.2 linkSampleBucket linkSampleFileSet linkSampleParsed linkSample_inputs.2.2 true false _
      runBuild_linkSample⟩

end ProtoSchema
