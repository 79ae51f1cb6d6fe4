import Mathlib
import ProtoSchema.Proofs.Build.PostOrder
import ProtoSchema.Proofs.Build.Blame

/-!
Import cycles and the order of a build. The walk lists the files reached from the
requested files, each once, and each after the files it imports unless it is broken. It
reports an import cycle exactly when the files reached hold one: each report names a cycle
of files reached, in the order they import each other, stands on the import of the last
that leads back to the first, and every file of that cycle is broken.

Soundness follows the stack: the files of the frames, from the bottom up, each import the
next (`Walk.Frames.isChain`), so the stack from the file a closing import points at is a
cycle. The files on the stack are reached from the roots because every file the walk ever
marks is, and that is read off the recursion the walk computes (`PostOrder.mem_iff_reaches`).

Completeness rests on the walk never reading the broken marks (`Walk.Agree.walk`): walked
over the same graph with nothing broken, the order and the reports are the same. There a
walk without reports leaves the graph as it was, so no file is broken at the end and
each import points back in the order; a cycle among the files reached would then climb
strictly back in the order to where it started.

Main statement: `ImportGraph.order_reports_cycles`.
-/

namespace ProtoSchema

open Relation

/-! ### What the recursion reaches -/

namespace PostOrder

variable {succ : Nat → List Nat}

theorem reached {seen seen' : Set Nat} {vs out : List Nat} (h : PostOrder succ seen vs seen' out) :
    ∀ v ∈ out, ∃ u ∈ vs, ReflTransGen (fun a b => b ∈ succ a) u v := by
  induction h with
  | nil => simp
  | skip _ _ ih =>
    intro v hv
    obtain ⟨u, hu, hr⟩ := ih v hv
    exact ⟨u, List.mem_cons_of_mem _ hu, hr⟩
  | @visit seen seen₁ seen₂ v vs out₁ out₂ _ _ _ ih₁ ih₂ =>
    intro u hu
    rcases List.mem_append.mp hu with hu | hu
    · obtain ⟨s, hs, hr⟩ := ih₁ u hu
      exact ⟨v, List.mem_cons_self, ReflTransGen.head hs hr⟩
    rcases List.mem_cons.mp hu with rfl | hu
    · exact ⟨u, List.mem_cons_self, .refl⟩
    · obtain ⟨s, hs, hr⟩ := ih₂ u hu
      exact ⟨s, List.mem_cons_of_mem _ hs, hr⟩

theorem mem_seen {seen seen' : Set Nat} {vs out : List Nat} (h : PostOrder succ seen vs seen' out) :
    ∀ u ∈ vs, u ∈ seen' := by
  induction h with
  | nil => simp
  | skip hv h ih =>
    intro u hu
    rcases List.mem_cons.mp hu with rfl | hu
    · exact (emitted h).1 hv
    · exact ih u hu
  | visit _ h₁ h₂ _ ih₂ =>
    intro u hu
    rcases List.mem_cons.mp hu with rfl | hu
    · exact (emitted h₂).1 ((emitted h₁).1 (Set.mem_insert u _))
    · exact ih₂ u hu

theorem closed {seen seen' : Set Nat} {vs out : List Nat} (h : PostOrder succ seen vs seen' out) :
    ∀ v ∈ out, ∀ t ∈ succ v, t ∈ seen' := by
  induction h with
  | nil => simp
  | skip _ _ ih => exact ih
  | @visit seen seen₁ seen₂ v vs out₁ out₂ _ h₁ h₂ ih₁ ih₂ =>
    have hs₂ : seen₁ ⊆ seen₂ := (emitted h₂).1
    intro u hu t ht
    rcases List.mem_append.mp hu with hu | hu
    · exact hs₂ (ih₁ u hu t ht)
    rcases List.mem_cons.mp hu with rfl | hu
    · exact hs₂ (mem_seen h₁ t ht)
    · exact ih₂ u hu t ht

theorem seen_subset {seen seen' : Set Nat} {vs out : List Nat} (h : PostOrder succ seen vs seen' out) :
    seen' ⊆ seen ∪ {v | v ∈ out} := by
  induction h with
  | nil => exact Set.subset_union_left
  | skip _ _ ih => exact ih
  | @visit seen seen₁ seen₂ v vs out₁ out₂ _ _ _ ih₁ ih₂ =>
    intro u hu
    rcases ih₂ hu with hu | hu
    · rcases ih₁ hu with hu | hu
      · rcases Set.mem_insert_iff.mp hu with rfl | hu
        · exact .inr (by simp)
        · exact .inl hu
      · exact .inr (by simp [Set.mem_ofPred_eq.mp hu])
    · exact .inr (by simp [Set.mem_ofPred_eq.mp hu])

/-- From nothing seen, the recursion emits exactly the files its start reaches, and sees
nothing else. -/
theorem mem_iff_reaches {seen' : Set Nat} {vs out : List Nat} (h : PostOrder succ ∅ vs seen' out)
    (v : Nat) : v ∈ out ↔ ∃ u ∈ vs, ReflTransGen (fun a b => b ∈ succ a) u v := by
  have hseen : ∀ u ∈ seen', u ∈ out := fun u hu => by
    simpa using seen_subset h hu
  refine ⟨reached h v, ?_⟩
  rintro ⟨u, hu, hr⟩
  induction hr with
  | refl => exact hseen u (mem_seen h u hu)
  | tail _ hbc ih => exact hseen _ (closed h _ ih _ hbc)

end PostOrder

namespace ImportGraph

variable {files : Array ParsedFile}

def Reaches (files : Array ParsedFile) (roots : List Nat) (v : Nat) : Prop :=
  ∃ r ∈ roots, ReflTransGen (Imports files) r v

def HasCycle (files : Array ParsedFile) (roots : List Nat) : Prop :=
  ∃ v, Reaches files roots v ∧ TransGen (Imports files) v v

theorem Reaches.tail {roots : List Nat} {u v : Nat} (h : Reaches files roots u) (huv : Imports files u v) :
    Reaches files roots v := by
  obtain ⟨r, hr, hru⟩ := h
  exact ⟨r, hr, hru.tail huv⟩

theorem Reaches.trans {roots : List Nat} {u v : Nat} (h : Reaches files roots u)
    (huv : ReflTransGen (Imports files) u v) : Reaches files roots v := by
  obtain ⟨r, hr, hru⟩ := h
  exact ⟨r, hr, hru.trans huv⟩

theorem Shaped.imports_iff {g : ImportGraph} (hs : Shaped files g) {v t : Nat} :
    Imports files v t ↔ t ∈ g.targets v := by
  cases hf : files[v]? with
  | none => simp [Imports, hf, targets, hs v, importTargets]
  | some file =>
    rw [mem_targets hs hf]
    simp [Imports, hf]

theorem Shaped.edges_eq {g : ImportGraph} (hs : Shaped files g) :
    (fun a b => b ∈ g.targets a) = Imports files := by
  funext a b
  exact propext hs.imports_iff.symm

theorem mem_order_iff {g : ImportGraph} (hs : Shaped files g) (hb : g.broken.size = files.size)
    {roots : List Nat} (hroots : ∀ r ∈ roots, r < files.size) (v : Nat) :
    v ∈ (order files roots g).1 ↔ Reaches files roots v := by
  obtain ⟨seen, hpost⟩ := (order_eq_postOrder hs hb hroots _).mpr rfl
  rw [PostOrder.mem_iff_reaches hpost, hs.edges_eq]
  rfl

theorem Before.idxOf_lt {l : List Nat} {t v : Nat} (h : Before l t v) (hn : l.Nodup) :
    l.idxOf t < l.idxOf v := by
  obtain ⟨l₁, l₂, rfl, ht⟩ := h
  have hv : v ∉ l₁ := fun hv => (List.nodup_append.mp hn).2.2 v hv v List.mem_cons_self rfl
  rw [List.idxOf_append_of_mem ht, List.idxOf_append_of_notMem hv, List.idxOf_cons_self]
  simpa using List.idxOf_lt_length_of_mem ht

/-! ### Cycle reports -/

/-- The annotation `a` reports the import cycle that runs from `c` through `cs` back to `c`:
its files are distinct, each imports the next and the last imports `c`; `a` stands on
the import statement of the last file that resolves to `c`, and its message names the
files round the cycle, `c` first and last. -/
structure CycleReport (files : Array ParsedFile) (a : Annotation) (c : Nat) (cs : List Nat) : Prop where
  nodup : (c :: cs).Nodup
  chain : (c :: cs ++ [c]).IsChain (Imports files)
  closing : ∃ f pf imp, (c :: cs).getLast? = some f ∧ files[f]? = some pf ∧ imp ∈ pf.schema.imports ∧
    fileIndex? files imp.path.value = some c ∧
    a = Annotation.atSpan pf.path .dependency
      ("File recursively imports itself: " ++
        " -> ".intercalate ((c :: cs ++ [c]).map fun v => (files[v]?.map (·.name)).getD ""))
      imp.path.span

def Reported (files : Array ParsedFile) (roots : List Nat) (g g' : ImportGraph) : Prop :=
  ∀ a ∈ g'.annotations.toList.drop g.annotations.size, ∃ c cs, CycleReport files a c cs ∧
    ∀ v ∈ c :: cs, Reaches files roots v ∧ g'.isBroken v = true

theorem reportCycle_graph {w : Walk} {f x t : Nat} (hs : Shaped files w.graph)
    (hx : (w.graph.deps.getD f [])[x]? = some (some t)) (stack : List Nat) :
    ∃ pf imp, files[f]? = some pf ∧ pf.schema.imports[x]? = some imp ∧
      fileIndex? files imp.path.value = some t ∧
      (reportCycle files w stack f x t).graph =
        (stack.reverse.drop (stack.reverse.idxOf t)).foldl markBroken
          (w.graph.importError pf imp ("File recursively imports itself: " ++ " -> ".intercalate
            ((stack.reverse.drop (stack.reverse.idxOf t) ++ [t]).map
              fun v => (files[v]?.map (·.name)).getD ""))) := by
  obtain ⟨pf, imp, hf, hi, ht⟩ := hs.edge hx
  exact ⟨pf, imp, hf, hi, ht, by simp only [reportCycle, hf, hi]⟩

namespace Walk

/-- The files of the frames below the frame of `a`, from the bottom up, and then `a`: each of
them imports the next. -/
theorem Frames.isChain {w : Walk} (hs : Shaped files w.graph) {stack : List (Nat × Nat)} :
    ∀ {a : Nat}, w.Frames (some a) stack → ((stack.map (·.1)).reverse ++ [a]).IsChain (Imports files) := by
  induction stack with
  | nil => simp
  | cons e rest ih =>
    intro a hfr
    obtain ⟨f, x⟩ := e
    obtain ⟨-, hd, -, hr⟩ := hfr
    simp only [List.map_cons, List.reverse_cons]
    exact (ih hr).append (.singleton a) (by simp [hs.imports hd])

variable {w : Walk} {f x t : Nat} {below : List (Nat × Nat)}

theorem Inv.cycle_from (h : Inv files w ((f, x) :: below)) (ht : w.marks.getD t .done = .active) (y : Nat) :
    ∃ cs, (((f, y) :: below).map (·.1)).reverse.drop ((((f, y) :: below).map (·.1)).reverse.idxOf t) = t :: cs ∧
      (t :: cs).Nodup ∧ (t :: cs).IsChain (Imports files) ∧ (t :: cs).getLast? = some f ∧
      ∀ v ∈ t :: cs, v ∈ ((f, x) :: below).map (·.1) := by
  -- the stack from the bottom up: the frames below `f`, then `f`
  have hpath : (((f, y) :: below).map (·.1)).reverse = (below.map (·.1)).reverse ++ [f] := by simp
  have hnd : ((below.map (·.1)).reverse ++ [f]).Nodup := by
    simpa using List.nodup_reverse.mpr h.stackNodup
  have htp : t ∈ (below.map (·.1)).reverse ++ [f] := by
    have := (h.active t).1 ht
    simp only [List.map_cons, List.mem_cons] at this
    simpa [or_comm] using this
  obtain ⟨p₁, cs, hsplit⟩ := List.append_of_mem htp
  have htn : t ∉ p₁ := fun hm => (List.nodup_append.mp (hsplit ▸ hnd)).2.2 t hm t List.mem_cons_self rfl
  refine ⟨cs, ?_, List.Nodup.of_append_right (hsplit ▸ hnd), ?_, ?_, fun v hv => ?_⟩
  · rw [hpath, hsplit, List.idxOf_append_of_notMem htn, List.idxOf_cons_self, Nat.add_zero, List.drop_left]
  · have := Frames.isChain h.shaped h.frames.2
    rw [hsplit] at this
    exact this.right_of_append
  · have hl : ((below.map (·.1)).reverse ++ [f]).getLast? = some f := by simp
    rwa [hsplit, List.getLast?_append_of_ne_nil _ (List.cons_ne_nil _ _)] at hl
  · have : v ∈ (below.map (·.1)).reverse ++ [f] := hsplit ▸ List.mem_append_right p₁ hv
    simp only [List.mem_append, List.mem_reverse, List.mem_singleton] at this
    simp only [List.map_cons, List.mem_cons]
    exact this.symm

theorem Inv.reportCycle_reports (h : Inv files w ((f, x) :: below))
    (hx : (w.graph.deps.getD f [])[x]? = some (some t)) (ht : w.marks.getD t .done = .active) :
    let g' := (reportCycle files w (((f, x + 1) :: below).map (·.1)) f x t).graph
    Extends w.graph g' ∧ ∃ a c cs, g'.annotations = w.graph.annotations.push a ∧ CycleReport files a c cs ∧
      ∀ v ∈ c :: cs, v ∈ ((f, x) :: below).map (·.1) ∧ g'.isBroken v = true := by
  intro g'
  obtain ⟨pf, imp, hf, hi, hidx, heq⟩ := reportCycle_graph h.shaped hx (((f, x + 1) :: below).map (·.1))
  obtain ⟨cs, hcycle, hnd, hchain, hlast, hstack⟩ := h.cycle_from ht (x + 1)
  rw [hcycle] at heq
  generalize hmsg : "File recursively imports itself: " ++
    " -> ".intercalate ((t :: cs ++ [t]).map fun v => (files[v]?.map (·.name)).getD "") = msg at heq
  obtain ⟨hext, hbroken⟩ := foldl_markBroken (t :: cs) (w.graph.importError pf imp msg)
  rw [← heq] at hext hbroken
  refine ⟨(Extends.importError _ _ _ _).trans hext, Annotation.atSpan pf.path .dependency msg imp.path.span, t, cs,
    by simp [g', heq], ⟨hnd, ?_, ?_⟩, fun v hv => ⟨hstack v hv, hbroken v hv ?_⟩⟩
  · -- the cycle closes at `f`, its last file, which imports `t`
    refine hchain.append (.singleton t) fun a ha b hb => ?_
    rw [hlast, Option.mem_some_iff] at ha
    rw [List.head?_singleton, Option.mem_some_iff] at hb
    subst ha hb
    exact h.shaped.imports hx
  · exact ⟨f, pf, imp, hlast, hf, List.mem_of_getElem? hi, hidx, by rw [hmsg]⟩
  · obtain ⟨e, he, rfl⟩ := List.mem_map.mp (hstack v hv)
    simpa [h.brokenSize] using h.stackBound e he

end Walk

/-! ### Reports stay reports -/

theorem Reported.push {roots : List Nat} {g g₁ g₂ : ImportGraph} {a : Annotation} {c : Nat}
    {cs : List Nat} (hr : Reported files roots g g₁) (hle : g.annotations.size ≤ g₁.annotations.size)
    (hext : Extends g₁ g₂) (hann : g₂.annotations = g₁.annotations.push a) (hrep : CycleReport files a c cs)
    (hcyc : ∀ v ∈ c :: cs, Reaches files roots v ∧ g₂.isBroken v = true) : Reported files roots g g₂ := by
  intro a' ha'
  rw [hann, Array.toList_push, List.drop_append_of_le_length (by simpa using hle)] at ha'
  rcases List.mem_append.mp ha' with ha' | ha'
  · obtain ⟨c', cs', hrep', hcyc'⟩ := hr a' ha'
    exact ⟨c', cs', hrep', fun v hv => ⟨(hcyc' v hv).1, hext.mono v (hcyc' v hv).2⟩⟩
  · rw [List.mem_singleton.mp ha']
    exact ⟨c, cs, hrep, hcyc⟩

theorem transGen_of_isChain {R : Nat → Nat → Prop} {b : Nat} :
    ∀ {a : Nat} {l : List Nat}, (a :: l ++ [b]).IsChain R → TransGen R a b := by
  intro a l
  induction l generalizing a with
  | nil =>
    intro h
    exact .single (List.isChain_pair.mp h)
  | cons d l ih =>
    intro h
    rw [List.cons_append, List.cons_append, List.isChain_cons_cons] at h
    exact .head h.1 (ih h.2)

theorem CycleReport.transGen {a : Annotation} {c : Nat} {cs : List Nat} (h : CycleReport files a c cs) :
    TransGen (Imports files) c c :=
  transGen_of_isChain h.chain

namespace Walk

theorem Grows.seenSet_subset {w w' : Walk} (h : Grows w w') : seenSet files w ⊆ seenSet files w' :=
  fun _ hv => ⟨hv.1, h.marks _ hv.2⟩

theorem Inv.mem_seenSet {w : Walk} {stack : List (Nat × Nat)} (h : Inv files w stack) {v : Nat}
    (hv : v ∈ stack.map (·.1)) : v ∈ seenSet files w := by
  obtain ⟨e, he, rfl⟩ := List.mem_map.mp hv
  refine ⟨h.stackBound e he, ?_⟩
  rw [(h.active e.1).2 hv]
  simp

theorem Inv.grows_walk (fuel : Nat) :
    ∀ {w : Walk} {stack : List (Nat × Nat)}, Inv files w stack → Grows w (walk files fuel stack w) := by
  induction fuel with
  | zero => exact fun {w} _ _ => Grows.refl w
  | succ fuel ih =>
    intro w stack h
    cases stack with
    | nil => exact Grows.refl w
    | cons e below =>
      obtain ⟨f, x⟩ := e
      obtain ⟨w', stack', he, h', hg, -, -⟩ := h.step fuel
      rw [he]
      exact hg.trans (ih h')

theorem Inv.rootStep_cases {w : Walk} (h : Inv files w []) (fuel r : Nat) :
    rootStep files fuel w r = w ∨ ∃ w', Inv files w' [(r, 0)] ∧ w'.graph = w.graph ∧
      rootStep files fuel w r = walk files fuel [(r, 0)] w' := by
  unfold rootStep
  split
  · exact .inl rfl
  · rename_i hm
    exact .inr ⟨_, (h.start (h.lt_of_fresh (not_not.mp hm)) (not_not.mp hm)).1, rfl, rfl⟩

theorem Inv.reported_walk {roots : List Nat} {g : ImportGraph} (fuel : Nat) :
    ∀ {w : Walk} {stack : List (Nat × Nat)}, Inv files w stack →
      seenSet files (walk files fuel stack w) ⊆ {v | Reaches files roots v} →
      Extends g w.graph → Reported files roots g w.graph →
      Reported files roots g (walk files fuel stack w).graph := by
  induction fuel with
  | zero => exact fun _ _ _ hr => hr
  | succ fuel ih =>
    intro w stack h hend hext hr
    cases stack with
    | nil => exact hr
    | cons e below =>
      obtain ⟨f, x⟩ := e
      obtain ⟨w', stack', he, h', hg, -, hgraph⟩ := h.step fuel
      rw [he] at hend ⊢
      rcases hgraph with hsame | ⟨t, hx, ht, rfl⟩
      · exact ih h' hend (hsame ▸ hext) (hsame ▸ hr)
      · obtain ⟨hext', a, c, cs, hann, hrep, hcyc⟩ := h.reportCycle_reports hx ht
        -- the files of the stack are marked at the end too
        have hseen : seenSet files w ⊆ seenSet files (walk files fuel stack' _) :=
          (hg.trans (Inv.grows_walk fuel h')).seenSet_subset
        refine ih h' hend (hext.trans hext') (hr.push hext.grows.length_le hext' hann hrep fun v hv => ?_)
        exact ⟨hend (hseen (h.mem_seenSet (hcyc v hv).1)), (hcyc v hv).2⟩

theorem Inv.reported_foldl {roots : List Nat} {g : ImportGraph} {fuel : Nat} (rs : List Nat) :
    ∀ {w : Walk}, Inv files w [] → freshWeight files w < fuel →
      seenSet files (rs.foldl (rootStep files fuel) w) ⊆ {v | Reaches files roots v} →
      Extends g w.graph → Reported files roots g w.graph →
      Reported files roots g (rs.foldl (rootStep files fuel) w).graph := by
  induction rs with
  | nil => exact fun _ _ _ _ hr => hr
  | cons r rest ih =>
    intro w h hfuel hend hext hr
    rw [List.foldl_cons] at hend ⊢
    obtain ⟨h₁, hg₁, -⟩ := h.rootStep_spec hfuel r
    have hfuel₁ := Nat.lt_of_le_of_lt (freshWeight_le files hg₁) hfuel
    have hend₁ := ((h₁.foldl_rootStep rest hfuel₁).2.1.seenSet_subset).trans hend
    refine ih h₁ hfuel₁ hend (hext.trans hg₁.graph) ?_
    rcases h.rootStep_cases fuel r with heq | ⟨w', h', hg', heq⟩
    · rwa [heq]
    · rw [heq] at hend₁ ⊢
      exact Inv.reported_walk fuel h' hend₁ (hg' ▸ hext) (hg' ▸ hr)

end Walk

theorem order_reported {g : ImportGraph} (hs : Shaped files g) (hb : g.broken.size = files.size)
    {roots : List Nat} (hroots : ∀ r ∈ roots, r < files.size) :
    Reported files roots g (order files roots g).2 := by
  obtain ⟨out, hpost, -⟩ :=
    Walk.foldl_rootStep_postOrder roots (Walk.inv_start hs hb) (Walk.freshWeight_start_lt hs) hroots
  rw [Walk.seenSet_start] at hpost
  have hend : Walk.seenSet files (roots.foldl (Walk.rootStep files (2 * files.size + g.importCount + 2))
      (Walk.start files g)) ⊆ {v | Reaches files roots v} := by
    intro v hv
    have hout : v ∈ out := by simpa using PostOrder.seen_subset hpost hv
    obtain ⟨u, hu, hr⟩ := PostOrder.reached hpost v hout
    exact ⟨u, hu, by rwa [Walk.start, hs.edges_eq] at hr⟩
  rw [order_eq]
  exact Walk.Inv.reported_foldl roots (Walk.inv_start hs hb) (Walk.freshWeight_start_lt hs) hend
    (Extends.refl g) (by simp [Reported, Walk.start, ← Array.length_toList])

/-! ### The walk never reads the broken marks -/

namespace Walk

/-- Two states of the walk alike in everything but which files are broken. -/
structure Agree (w₁ w₂ : Walk) : Prop where
  marks : w₁.marks = w₂.marks
  order : w₁.order = w₂.order
  deps : w₁.graph.deps = w₂.graph.deps
  annotations : w₁.graph.annotations = w₂.graph.annotations

theorem Agree.reportCycle {w₁ w₂ : Walk} (h : Agree w₁ w₂) (stack : List Nat) (f x t : Nat) :
    Agree (reportCycle files w₁ stack f x t) (reportCycle files w₂ stack f x t) := by
  unfold ImportGraph.reportCycle
  dsimp only
  cases files[f]? with
  | none => exact h
  | some pf =>
    dsimp only
    cases pf.schema.imports[x]? with
    | none => exact h
    | some imp =>
      refine ⟨h.marks, h.order, ?_, ?_⟩
      · simp only [(foldl_markBroken _ _).1.deps, deps_importError, h.deps]
      · simp only [annotations_foldl_markBroken, annotations_importError, h.annotations]

/-- States alike walk alike: each step reads the edges and the marks, never the broken marks,
so both take the same branch. -/
theorem Agree.walk (fuel : Nat) :
    ∀ {stack : List (Nat × Nat)} {w₁ w₂ : Walk}, Agree w₁ w₂ →
      Agree (walk files fuel stack w₁) (walk files fuel stack w₂) := by
  induction fuel with
  | zero => exact fun h => h
  | succ fuel ih =>
    intro stack w₁ w₂ h
    cases stack with
    | nil => exact h
    | cons e below =>
      obtain ⟨f, x⟩ := e
      rw [ImportGraph.walk, ImportGraph.walk, h.deps, h.marks]
      cases (w₂.graph.deps.getD f [])[x]? with
      | none => exact ih ⟨rfl, congrArg (·.push f) h.order, h.deps, h.annotations⟩
      | some y =>
        cases y with
        | none => exact ih h
        | some t =>
          dsimp only
          cases w₂.marks.getD t .done with
          | fresh => exact ih ⟨rfl, h.order, h.deps, h.annotations⟩
          | active => exact ih (h.reportCycle _ f x t)
          | done => exact ih h

theorem Agree.foldl_rootStep (fuel : Nat) (rs : List Nat) :
    ∀ {w₁ w₂ : Walk}, Agree w₁ w₂ → Agree (rs.foldl (rootStep files fuel) w₁) (rs.foldl (rootStep files fuel) w₂) := by
  induction rs with
  | nil => exact fun h => h
  | cons r rest ih =>
    intro w₁ w₂ h
    refine ih ?_
    unfold rootStep
    rw [h.marks]
    by_cases hm : w₂.marks.getD r .done ≠ .fresh
    · rw [if_pos hm, if_pos hm]
      exact h
    · rw [if_neg hm, if_neg hm]
      exact Agree.walk fuel ⟨rfl, h.order, h.deps, h.annotations⟩

end Walk

/-! ### A walk without reports leaves the graph as it was -/

def KeptOrAnnotated (g g' : ImportGraph) : Prop := g' = g ∨ g.annotations.size < g'.annotations.size

theorem KeptOrAnnotated.trans {g₁ g₂ g₃ : ImportGraph} (h₁ : KeptOrAnnotated g₁ g₂)
    (h₂ : KeptOrAnnotated g₂ g₃) : KeptOrAnnotated g₁ g₃ := by
  rcases h₂ with rfl | h₂
  · exact h₁
  rcases h₁ with rfl | h₁
  · exact .inr h₂
  · exact .inr (h₁.trans h₂)

namespace Walk

theorem Inv.kept_walk (fuel : Nat) :
    ∀ {w : Walk} {stack : List (Nat × Nat)}, Inv files w stack →
      KeptOrAnnotated w.graph (walk files fuel stack w).graph := by
  induction fuel with
  | zero => exact fun _ => .inl rfl
  | succ fuel ih =>
    intro w stack h
    cases stack with
    | nil => exact .inl rfl
    | cons e below =>
      obtain ⟨f, x⟩ := e
      obtain ⟨w', stack', he, h', -, -, hgraph⟩ := h.step fuel
      rw [he]
      refine KeptOrAnnotated.trans ?_ (ih h')
      rcases hgraph with hsame | ⟨t, hx, ht, rfl⟩
      · exact .inl hsame
      · -- a report adds its annotation
        obtain ⟨-, a, -, -, hann, -⟩ := h.reportCycle_reports hx ht
        exact .inr (by rw [hann, Array.size_push]; omega)

theorem Inv.kept_foldl {fuel : Nat} (rs : List Nat) :
    ∀ {w : Walk}, Inv files w [] → freshWeight files w < fuel →
      KeptOrAnnotated w.graph (rs.foldl (rootStep files fuel) w).graph := by
  induction rs with
  | nil => exact fun _ _ => .inl rfl
  | cons r rest ih =>
    intro w h hfuel
    rw [List.foldl_cons]
    obtain ⟨h₁, hg₁, -⟩ := h.rootStep_spec hfuel r
    refine KeptOrAnnotated.trans ?_ (ih h₁ (Nat.lt_of_le_of_lt (freshWeight_le files hg₁) hfuel))
    rcases h.rootStep_cases fuel r with heq | ⟨w', h', hg', heq⟩
    · rw [heq]
      exact .inl rfl
    · rw [heq, ← hg']
      exact h'.kept_walk fuel

end Walk

theorem order_before_of_quiet {g : ImportGraph} (hs : Shaped files g) (roots : List Nat)
    (hq : (order files roots g).2.annotations.size ≤ g.annotations.size) :
    ∀ v ∈ (order files roots g).1, ∀ t ∈ g.targets v, Before (order files roots g).1 t v := by
  let g₀ : ImportGraph := { g with broken := Array.replicate files.size false }
  have hs₀ : Shaped files g₀ := hs
  have hb₀ : g₀.broken.size = files.size := by simp [g₀]
  have hagree : Walk.Agree
      (roots.foldl (Walk.rootStep files (2 * files.size + g.importCount + 2)) (Walk.start files g₀))
      (roots.foldl (Walk.rootStep files (2 * files.size + g.importCount + 2)) (Walk.start files g)) :=
    Walk.Agree.foldl_rootStep _ roots ⟨rfl, rfl, rfl, rfl⟩
  have hlist : (order files roots g₀).1 = (order files roots g).1 := congrArg Array.toList hagree.order
  have hann : (order files roots g₀).2.annotations = (order files roots g).2.annotations :=
    hagree.annotations
  have hkept : KeptOrAnnotated g₀ (order files roots g₀).2 :=
    Walk.Inv.kept_foldl roots (Walk.inv_start hs₀ hb₀) (Walk.freshWeight_start_lt hs₀)
  have hg₀ : (order files roots g₀).2 = g₀ :=
    hkept.resolve_right fun hlt => absurd hq (Nat.not_le.mpr (by rw [← hann]; exact hlt))
  obtain ⟨-, -, -, -, hord⟩ := order_spec hs₀ hb₀ roots
  intro v hv t ht
  rw [← hlist] at hv ⊢
  rcases hord v hv t (by rwa [hg₀]) with hbr | hbefore
  · -- nothing is broken in `g₀`
    have hfree : g₀.isBroken v = false := by
      by_cases hv' : v < files.size <;> simp [g₀, isBroken, hv']
    rw [hg₀, hfree] at hbr
    cases hbr
  · exact hbefore

theorem not_hasCycle {g : ImportGraph} (hs : Shaped files g) (hb : g.broken.size = files.size)
    {roots : List Nat} (hroots : ∀ r ∈ roots, r < files.size)
    (hback : ∀ v ∈ (order files roots g).1, ∀ t ∈ g.targets v, Before (order files roots g).1 t v) :
    ¬ HasCycle files roots := by
  rintro ⟨v, hv, hcyc⟩
  have hnd := (order_spec hs hb roots).1
  have hdrop : ∀ {a b : Nat}, Reaches files roots a → TransGen (Imports files) a b →
      (order files roots g).1.idxOf b < (order files roots g).1.idxOf a := by
    intro a b ha hab
    induction hab with
    | single hab =>
      exact (hback a ((mem_order_iff hs hb hroots a).mpr ha) _ (hs.imports_iff.mp hab)).idxOf_lt hnd
    | tail hab hbc ih =>
      have hb' := ha.trans hab.to_reflTransGen
      exact ((hback _ ((mem_order_iff hs hb hroots _).mpr hb') _ (hs.imports_iff.mp hbc)).idxOf_lt hnd).trans ih
  exact Nat.lt_irrefl _ (hdrop hv hcyc)

/-! ### The order and its cycle reports -/

/-- What ordering the files reached from `roots` over `g` guarantees, with `order` the order
it gives and `g'` the graph after it. The files reached are listed, each once, and nothing
else. The annotations of `g` stay first, and more are added exactly when the files reached
hold an import cycle; each one added reports a cycle of files reached, all of them broken. A
file reached and not broken comes after every file it imports. -/
structure CyclesChecked (files : Array ParsedFile) (roots : List Nat) (g : ImportGraph)
    (order : List Nat) (g' : ImportGraph) : Prop where
  nodup : order.Nodup
  mem_iff : ∀ v, v ∈ order ↔ Reaches files roots v
  kept : g.annotations.toList <+: g'.annotations.toList
  added_iff : g.annotations.size < g'.annotations.size ↔ HasCycle files roots
  reports : Reported files roots g g'
  before : ∀ i j, Reaches files roots i → Imports files i j → g'.isBroken i = false → Before order j i

/-- Ordering the files reached from the requested ones, over the graph of their imports, lists
each of them once, reports an import cycle exactly when they hold one, naming the cycle and
breaking its files, and puts every file that is not broken after the files it imports. -/
theorem order_reports_cycles {g : ImportGraph} (hs : Shaped files g) (hb : g.broken.size = files.size)
    {roots : List Nat} (hroots : ∀ r ∈ roots, r < files.size) :
    CyclesChecked files roots g (order files roots g).1 (order files roots g).2 := by
  obtain ⟨hnd, -, hext, -, hord⟩ := order_spec hs hb roots
  have hrep := order_reported hs hb hroots
  have htargets : (order files roots g).2.targets = g.targets := by
    funext v
    simp only [targets, hext.deps]
  refine ⟨hnd, mem_order_iff hs hb hroots, hext.grows, ⟨fun hlt => ?_, fun hcyc => ?_⟩, hrep, ?_⟩
  · -- an annotation added reports a cycle of files reached
    obtain ⟨a, ha⟩ : ∃ a, a ∈ (order files roots g).2.annotations.toList.drop g.annotations.size :=
      List.exists_mem_of_ne_nil _ (by simp; omega)
    obtain ⟨c, cs, hc, hcyc⟩ := hrep a ha
    exact ⟨c, (hcyc c List.mem_cons_self).1, hc.transGen⟩
  · -- with no annotation added, the place in the order drops along every import
    by_contra hle
    exact not_hasCycle hs hb hroots (order_before_of_quiet hs roots (Nat.not_lt.mp hle)) hcyc
  · intro i j hi hij hbr
    rcases hord i ((mem_order_iff hs hb hroots i).mpr hi) j (htargets ▸ hs.imports_iff.mp hij) with h | h
    · rw [hbr] at h
      cases h
    · exact h

def mutualSample : Array ParsedFile :=
  #[{ name := "a.proto", path := "a.proto",
      schema := { (default : SchemaFile) with imports := [{ (default : Import) with path := ⟨"b.proto", {}⟩ }] } },
    { name := "b.proto", path := "b.proto",
      schema := { (default : SchemaFile) with imports := [{ (default : Import) with path := ⟨"a.proto", {}⟩ }] } },
    { name := "c.proto", path := "c.proto", schema := default }]

theorem order_reports_cycles_mutualSample :
    Shaped mutualSample (ofFiles mutualSample []) ∧
      (ofFiles mutualSample []).broken.size = mutualSample.size ∧ (∀ r ∈ [0, 1, 2], r < mutualSample.size) ∧
      CyclesChecked mutualSample [0, 1, 2] (ofFiles mutualSample [])
        ((ofFiles mutualSample []).order mutualSample [0, 1, 2]).1
        ((ofFiles mutualSample []).order mutualSample [0, 1, 2]).2 :=
  ⟨deps_ofFiles mutualSample [], size_broken_ofFiles mutualSample [], by decide,
    order_reports_cycles (deps_ofFiles mutualSample []) (size_broken_ofFiles mutualSample []) (by decide)⟩

/-- Walked from the three files, the order is `b.proto`, `a.proto`, `c.proto`, and the cycle is
reported once, from `a.proto` round to it. -/
example : ((ofFiles mutualSample []).order mutualSample [0, 1, 2]).1 = [1, 0, 2] ∧
    ((ofFiles mutualSample []).order mutualSample [0, 1, 2]).2.annotations.toList.map (·.message) =
      ["File recursively imports itself: a.proto -> b.proto -> a.proto"] := by
  decide +kernel

end ImportGraph

end ProtoSchema
