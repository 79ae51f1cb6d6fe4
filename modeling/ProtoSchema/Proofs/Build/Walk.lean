import Mathlib.Algebra.BigOperators.Group.Finset.Basic
import Mathlib.Algebra.BigOperators.Group.Finset.Piecewise
import Mathlib.Algebra.Order.BigOperators.Group.Finset
import ProtoSchema.Proofs.Build.Graph

/-!
The depth-first walk that orders the files of a build. The walk keeps an
explicit stack of frames `(file, next import to visit)`; a file is `active`
exactly while it has a frame, and `done` exactly once it is in the order.
Each frame sits on the import of the frame below that led to it, and each
of the imports a frame has passed is settled: it points at a file already ordered,
or the frame's file is broken (an import cycle breaks every file on it).

When a frame is popped, all its imports are settled, so in the final order
every file comes after every file it imports unless it is broken
(`order_spec`). The walk runs on fuel; a potential (for each fresh file its
imports plus two, for each frame its imports left plus one) drops at every
step and starts below the fuel the build gives, so the walk always ends
with an empty stack.
-/

namespace ProtoSchema

theorem Array.getD_set! {α : Type} (a : Array α) (i j : Nat) (x d : α) :
    (a.set! i x).getD j d = if i = j ∧ i < a.size then x else a.getD j d := by
  simp only [Array.set!_eq_setIfInBounds, Array.getD_eq_getD_getElem?, Array.getElem?_setIfInBounds]
  by_cases h : i = j
  · subst h
    by_cases hi : i < a.size <;> simp [hi]
  · simp [h]

namespace ImportGraph

theorem fileIndex?_lt {files : Array ParsedFile} {name : String} {t : Nat}
    (h : fileIndex? files name = some t) : t < files.size := by
  rw [fileIndex?, Array.findIdx?_eq_some_iff_getElem] at h
  exact h.1

theorem Shaped.edge {files : Array ParsedFile} {g : ImportGraph} (hg : Shaped files g) {v k : Nat}
    {y : Option Nat} (h : (g.deps.getD v [])[k]? = some y) :
    ∃ pf imp, files[v]? = some pf ∧ pf.schema.imports[k]? = some imp ∧
      fileIndex? files imp.path.value = y := by
  rw [hg v, importTargets] at h
  cases hf : files[v]? with
  | none => simp [hf] at h
  | some pf =>
    cases hi : pf.schema.imports[k]? with
    | none => simp [hf, hi] at h
    | some imp =>
      simp only [hf, hi, Option.map_some, Option.getD_some, List.getElem?_map,
        Option.some.injEq] at h
      exact ⟨pf, imp, rfl, hi, h⟩

theorem Shaped.target_lt {files : Array ParsedFile} {g : ImportGraph} (hg : Shaped files g)
    {v k t : Nat} (h : (g.deps.getD v [])[k]? = some (some t)) : t < files.size := by
  obtain ⟨_, _, _, _, ht⟩ := hg.edge h
  exact fileIndex?_lt ht

theorem mem_targets_iff {g : ImportGraph} {v t : Nat} :
    t ∈ g.targets v ↔ ∃ k : Nat, (g.deps.getD v [])[k]? = some (some t) := by
  rw [← List.mem_iff_getElem?]
  simp [targets]

def Before (l : List Nat) (t v : Nat) : Prop := ∃ l₁ l₂, l = l₁ ++ v :: l₂ ∧ t ∈ l₁

theorem Before.append {l : List Nat} {t v : Nat} (h : Before l t v) (s : List Nat) : Before (l ++ s) t v := by
  obtain ⟨l₁, l₂, rfl, ht⟩ := h
  exact ⟨l₁, l₂ ++ s, by simp, ht⟩

theorem Before.mono {l l' : List Nat} {t v : Nat} (h : Before l t v) (hl : l <+: l') : Before l' t v := by
  obtain ⟨s, rfl⟩ := hl
  exact h.append s

theorem Before.mem_prefix {p s : List Nat} {t v : Nat} (h : Before (p ++ v :: s) t v)
    (hn : (p ++ v :: s).Nodup) : t ∈ p := by
  obtain ⟨l₁, l₂, he, ht⟩ := h
  have hnot {q r : List Nat} (hq : (q ++ v :: r).Nodup) : v ∉ q := fun hv =>
    (List.nodup_append.mp hq).2.2 v hv v List.mem_cons_self rfl
  have hlen : l₁.length = p.length := by
    have hidx := congrArg (List.idxOf v) he
    rw [List.idxOf_append, List.idxOf_append, if_neg (hnot hn), if_neg (hnot (he ▸ hn))] at hidx
    simpa using hidx.symm
  obtain ⟨rfl, -⟩ := List.append_inj he.symm hlen
  exact ht

theorem Extends.markBroken (g : ImportGraph) (i : Nat) : Extends g (g.markBroken i) :=
  ⟨rfl, by simp, fun _ hj => isBroken_markBroken_of_isBroken i hj, by simp⟩

theorem Extends.importError (g : ImportGraph) (file : ParsedFile) (imp : Import) (m : String) :
    Extends g (g.importError file imp m) :=
  ⟨rfl, rfl, fun _ => id, by simp⟩

theorem foldl_markBroken : ∀ (l : List Nat) (g : ImportGraph),
    Extends g (l.foldl markBroken g) ∧
      ∀ j ∈ l, j < g.broken.size → (l.foldl markBroken g).isBroken j = true
  | [], g => ⟨Extends.refl g, by simp⟩
  | i :: rest, g => by
    obtain ⟨hext, hbroken⟩ := foldl_markBroken rest (g.markBroken i)
    refine ⟨(Extends.markBroken g i).trans hext, fun j hj hjs => ?_⟩
    rcases List.mem_cons.mp hj with rfl | hj
    · exact hext.mono j (isBroken_markBroken_self hjs)
    · exact hbroken j hj (by simpa using hjs)

theorem foldl_add_length {α : Type} : ∀ (l : List (List α)) (n : Nat),
    l.foldl (fun n d => n + d.length) n = n + ∑ v ∈ Finset.range l.length, (l.getD v []).length
  | [], n => by simp
  | a :: l, n => by
    rw [List.foldl_cons, foldl_add_length l, List.length_cons, Finset.sum_range_succ']
    simp only [List.getD_cons_succ, List.getD_cons_zero]
    omega

theorem importCount_eq (g : ImportGraph) :
    g.importCount = ∑ v ∈ Finset.range g.deps.size, (g.deps.getD v []).length := by
  rw [importCount, ← Array.foldl_toList, foldl_add_length, Nat.zero_add, Array.length_toList]
  refine Finset.sum_congr rfl fun v _ => ?_
  simp [Array.getD_eq_getD_getElem?, List.getD_eq_getElem?_getD]

theorem Shaped.sum_length_eq {files : Array ParsedFile} {g : ImportGraph} (hs : Shaped files g) :
    ∑ v ∈ Finset.range files.size, (g.deps.getD v []).length = g.importCount := by
  have hzero : ∀ v, files.size ≤ v ∨ g.deps.size ≤ v → (g.deps.getD v []).length = 0 := by
    rintro v (hv | hv)
    · rw [hs v, importTargets, Array.getElem?_eq_none hv]
      rfl
    · rw [Array.getD_eq_getD_getElem?, Array.getElem?_eq_none hv]
      rfl
  rw [importCount_eq]
  calc ∑ v ∈ Finset.range files.size, (g.deps.getD v []).length
      = ∑ v ∈ Finset.range (files.size + g.deps.size), (g.deps.getD v []).length :=
        Finset.sum_subset (Finset.range_subset_range.mpr (Nat.le_add_right _ _))
          fun v _ hv => hzero v (Or.inl (by simpa using hv))
    _ = ∑ v ∈ Finset.range g.deps.size, (g.deps.getD v []).length :=
        (Finset.sum_subset (Finset.range_subset_range.mpr (Nat.le_add_left _ _))
          fun v _ hv => hzero v (Or.inr (by simpa using hv))).symm

namespace Walk

/-! ### The invariant -/

def Settled (w : Walk) (f x : Nat) : Prop :=
  ∀ k < x, ∀ t, (w.graph.deps.getD f [])[k]? = some (some t) →
    t ∈ w.order.toList ∨ w.graph.isBroken f = true

def Frames (w : Walk) : Option Nat → List (Nat × Nat) → Prop
  | _, [] => True
  | none, (f, x) :: rest => w.Settled f x ∧ w.Frames (some f) rest
  | some a, (f, x) :: rest =>
      0 < x ∧ (w.graph.deps.getD f [])[x - 1]? = some (some a) ∧ w.Settled f (x - 1) ∧
        w.Frames (some f) rest

/-- What a later state of the walk keeps: the order only grows, the graph only gains
marks and annotations, and a file that has left `fresh` never returns to it. -/
structure Grows (w w' : Walk) : Prop where
  order : w.order.toList <+: w'.order.toList
  graph : Extends w.graph w'.graph
  marks : ∀ v, w.marks.getD v .done ≠ .fresh → w'.marks.getD v .done ≠ .fresh

theorem Grows.refl (w : Walk) : Grows w w := ⟨List.prefix_refl _, Extends.refl _, fun _ => id⟩

theorem Grows.trans {w₁ w₂ w₃ : Walk} (h₁ : Grows w₁ w₂) (h₂ : Grows w₂ w₃) : Grows w₁ w₃ :=
  ⟨h₁.order.trans h₂.order, h₁.graph.trans h₂.graph, fun v hv => h₂.marks v (h₁.marks v hv)⟩

theorem Settled.mono {w w' : Walk} (h : Grows w w') {f x : Nat} (hs : w.Settled f x) :
    w'.Settled f x := by
  intro k hk t ht
  rw [h.graph.deps] at ht
  rcases hs k hk t ht with ht | ht
  · exact Or.inl (h.order.subset ht)
  · exact Or.inr (h.graph.mono f ht)

theorem Frames.mono {w w' : Walk} (h : Grows w w') :
    ∀ {above : Option Nat} {stack : List (Nat × Nat)}, w.Frames above stack → w'.Frames above stack
  | _, [], _ => trivial
  | none, (_, _) :: _, ⟨hs, hr⟩ => ⟨hs.mono h, Frames.mono h hr⟩
  | some _, (_, _) :: _, ⟨hx, hd, hs, hr⟩ => ⟨hx, by rw [h.graph.deps]; exact hd, hs.mono h, Frames.mono h hr⟩

variable (files : Array ParsedFile)

/-- The invariant of the walk with its stack. -/
structure Inv (w : Walk) (stack : List (Nat × Nat)) : Prop where
  shaped : Shaped files w.graph
  marksSize : w.marks.size = files.size
  brokenSize : w.graph.broken.size = files.size
  active : ∀ v, w.marks.getD v .done = .active ↔ v ∈ stack.map (·.1)
  stackNodup : (stack.map (·.1)).Nodup
  stackBound : ∀ e ∈ stack, e.1 < files.size
  done : ∀ v < files.size, w.marks.getD v .done = .done ↔ v ∈ w.order.toList
  orderBound : ∀ v ∈ w.order.toList, v < files.size
  orderNodup : w.order.toList.Nodup
  ordered : ∀ v ∈ w.order.toList, ∀ t ∈ w.graph.targets v,
    w.graph.isBroken v = true ∨ Before w.order.toList t v
  frames : w.Frames none stack

/-! ### The potential -/

def weightOf (w : Walk) (v : Nat) : Nat :=
  if w.marks.getD v .done = .fresh then (w.graph.deps.getD v []).length + 2 else 0

def freshWeight (w : Walk) : Nat := ∑ v ∈ Finset.range files.size, weightOf w v

def stackWeight (w : Walk) : List (Nat × Nat) → Nat
  | [] => 0
  | e :: stack => (w.graph.deps.getD e.1 []).length - e.2 + 1 + stackWeight w stack

def potential (w : Walk) (stack : List (Nat × Nat)) : Nat := freshWeight files w + stackWeight w stack

def start (g : ImportGraph) : Walk :=
  { marks := Array.replicate files.size .fresh, order := #[], graph := g }

def rootStep (fuel : Nat) (w : Walk) (r : Nat) : Walk :=
  if w.marks.getD r .done ≠ .fresh then w
  else walk files fuel [(r, 0)] { w with marks := w.marks.set! r .active }

theorem stackWeight_cons (w : Walk) (e : Nat × Nat) (stack : List (Nat × Nat)) :
    stackWeight w (e :: stack) = (w.graph.deps.getD e.1 []).length - e.2 + 1 + stackWeight w stack :=
  rfl

theorem stackWeight_congr {w w' : Walk} (hd : w'.graph.deps = w.graph.deps) :
    ∀ stack : List (Nat × Nat), stackWeight w' stack = stackWeight w stack
  | [] => rfl
  | e :: stack => by rw [stackWeight_cons, stackWeight_cons, hd, stackWeight_congr hd stack]

theorem freshWeight_congr {w w' : Walk} (hd : w'.graph.deps = w.graph.deps)
    (hm : ∀ v, w'.marks.getD v .done = .fresh ↔ w.marks.getD v .done = .fresh) :
    freshWeight files w' = freshWeight files w := by
  unfold freshWeight
  refine Finset.sum_congr rfl fun v _ => ?_
  simp only [weightOf, hd, hm v]

theorem freshWeight_set {w : Walk} {t : Nat} (ht : t < files.size) (hsize : w.marks.size = files.size)
    (hfresh : w.marks.getD t .done = .fresh) {m : Mark} (hm : m ≠ .fresh) :
    freshWeight files { w with marks := w.marks.set! t m } + ((w.graph.deps.getD t []).length + 2) =
      freshWeight files w := by
  have hts : t < w.marks.size := hsize ▸ ht
  have hpt : ∀ v ∈ Finset.range files.size,
      weightOf { w with marks := w.marks.set! t m } v +
        (if t = v then (w.graph.deps.getD t []).length + 2 else 0) = weightOf w v := by
    intro v _
    by_cases hv : t = v
    · subst hv
      simp [weightOf, hts, hm, hfresh]
    · simp [weightOf, hv]
  unfold freshWeight
  rw [← Finset.sum_congr rfl hpt, Finset.sum_add_distrib, Finset.sum_ite_eq,
    if_pos (Finset.mem_range.mpr ht)]

theorem freshWeight_le {w w' : Walk} (hg : Grows w w') : freshWeight files w' ≤ freshWeight files w := by
  refine Finset.sum_le_sum fun v _ => ?_
  unfold weightOf
  by_cases hv : w'.marks.getD v .done = .fresh
  · have : w.marks.getD v .done = .fresh := Classical.byContradiction fun h => hg.marks v h hv
    simp [hv, this, hg.graph.deps]
  · rw [if_neg hv]
    exact Nat.zero_le _

/-! ### One step of the walk -/

theorem Settled.zero (w : Walk) (f : Nat) : w.Settled f 0 := fun _ hk => absurd hk (Nat.not_lt_zero _)

theorem Settled.succ {w : Walk} {f x : Nat} (hs : w.Settled f x)
    (hx : ∀ t, (w.graph.deps.getD f [])[x]? = some (some t) →
      t ∈ w.order.toList ∨ w.graph.isBroken f = true) :
    w.Settled f (x + 1) := by
  intro k hk t ht
  rcases Nat.lt_succ_iff_lt_or_eq.mp hk with hk | rfl
  · exact hs k hk t ht
  · exact hx t ht

theorem Frames.pop {w w' : Walk} (hg : Grows w w') {f : Nat} (hf : f ∈ w'.order.toList) :
    ∀ {below : List (Nat × Nat)}, w.Frames (some f) below → w'.Frames none below
  | [], _ => trivial
  | (f', x') :: rest, ⟨hx, hd, hs, hr⟩ => by
    refine ⟨?_, hr.mono hg⟩
    obtain ⟨y, rfl⟩ : ∃ y, x' = y + 1 := ⟨x' - 1, by omega⟩
    simp only [Nat.add_sub_cancel] at hd hs
    refine (hs.mono hg).succ fun t ht => ?_
    rw [hg.graph.deps, hd, Option.some.injEq, Option.some.injEq] at ht
    exact Or.inl (ht ▸ hf)

variable {files}

section Step

variable {w : Walk} {f x : Nat} {below : List (Nat × Nat)}

theorem Inv.head_lt (h : Inv files w ((f, x) :: below)) : f < files.size :=
  h.stackBound _ List.mem_cons_self

theorem Inv.head_active (h : Inv files w ((f, x) :: below)) : w.marks.getD f .done = .active :=
  (h.active f).2 (by simp)

theorem Inv.head_not_mem (h : Inv files w ((f, x) :: below)) : f ∉ below.map (·.1) := by
  have := h.stackNodup
  simp only [List.map_cons, List.nodup_cons] at this
  exact this.1

theorem Inv.head_not_ordered (h : Inv files w ((f, x) :: below)) : f ∉ w.order.toList := by
  intro hm
  have := (h.done f h.head_lt).2 hm
  rw [h.head_active] at this
  cases this

theorem Inv.pop (h : Inv files w ((f, x) :: below))
    (hx : (w.graph.deps.getD f [])[x]? = none) :
    let w' : Walk := { w with marks := w.marks.set! f .done, order := w.order.push f }
    Inv files w' below ∧ Grows w w' ∧ potential files w' below < potential files w ((f, x) :: below) := by
  intro w'
  have hfs : f < w.marks.size := h.marksSize ▸ h.head_lt
  have hmark : ∀ v, w'.marks.getD v .done = if v = f then .done else w.marks.getD v .done := by
    intro v
    by_cases hv : v = f
    · simp [w', hv, hfs]
    · simp [w', hv, Ne.symm hv]
  have horder : w'.order.toList = w.order.toList ++ [f] := by simp [w']
  have hgrows : Grows w w' := by
    refine ⟨by rw [horder]; exact List.prefix_append _ _, Extends.refl _, fun v hv => ?_⟩
    rw [hmark]
    split
    · simp
    · exact hv
  -- every import of `f` lies before the passed index `x`, so it is settled
  have hsettled : ∀ t ∈ w.graph.targets f, t ∈ w.order.toList ∨ w.graph.isBroken f = true := by
    intro t ht
    obtain ⟨k, hk⟩ := mem_targets_iff.mp ht
    have hkx : k < x := by
      have := (List.getElem?_eq_none_iff.mp hx)
      have := (List.getElem?_eq_some_iff.mp hk).1
      omega
    exact h.frames.1 k hkx t hk
  refine ⟨⟨h.shaped, by simp [w', h.marksSize], h.brokenSize, ?_, ?_, ?_, ?_, ?_, ?_, ?_, ?_⟩,
    hgrows, ?_⟩
  · intro v
    rw [hmark]
    by_cases hv : v = f
    · subst hv
      simp [h.head_not_mem]
    · simp only [if_neg hv]
      rw [h.active v]
      simp [hv]
  · have := h.stackNodup
    simp only [List.map_cons, List.nodup_cons] at this
    exact this.2
  · exact fun e he => h.stackBound e (List.mem_cons_of_mem _ he)
  · intro v hv
    rw [hmark, horder]
    by_cases hvf : v = f
    · simp [hvf]
    · simp only [if_neg hvf, h.done v hv]
      simp [hvf]
  · rw [horder]
    intro v hv
    rcases List.mem_append.mp hv with hv | hv
    · exact h.orderBound v hv
    · simp only [List.mem_singleton] at hv
      exact hv ▸ h.head_lt
  · rw [horder]
    exact List.nodup_append.mpr ⟨h.orderNodup, List.nodup_singleton f,
      fun a ha b hb => by simp only [List.mem_singleton] at hb; exact hb ▸ fun he => h.head_not_ordered (he ▸ ha)⟩
  · rw [horder]
    intro v hv t ht
    rcases List.mem_append.mp hv with hv | hv
    · exact (h.ordered v hv t ht).imp_right (·.append [f])
    · simp only [List.mem_singleton] at hv
      subst hv
      exact (hsettled t ht).symm.imp_right fun ht => ⟨w.order.toList, [], rfl, ht⟩
  · exact Frames.pop hgrows (by simp [horder]) h.frames.2
  · have hfresh : freshWeight files w' = freshWeight files w :=
      freshWeight_congr files rfl fun v => by
        rw [hmark]
        by_cases hv : v = f
        · simp [hv, h.head_active]
        · simp [hv]
    simp only [potential, hfresh, stackWeight_cons,
      stackWeight_congr (show w'.graph.deps = w.graph.deps from rfl)]
    omega

theorem reportCycle_spec (hs : Shaped files w.graph) {t : Nat}
    (hx : (w.graph.deps.getD f [])[x]? = some (some t)) (stack : List Nat) :
    let w' := reportCycle files w stack f x t
    w'.marks = w.marks ∧ w'.order = w.order ∧ Extends w.graph w'.graph ∧
      ∀ j ∈ stack.reverse.drop (stack.reverse.idxOf t), j < w.graph.broken.size →
        w'.graph.isBroken j = true := by
  obtain ⟨pf, imp, hf, hi, -⟩ := hs.edge hx
  simp only [reportCycle, hf, hi, true_and]
  obtain ⟨hext, hbroken⟩ := foldl_markBroken (stack.reverse.drop (stack.reverse.idxOf t))
    (w.graph.importError pf imp _)
  exact ⟨(Extends.importError _ _ _ _).trans hext, hbroken⟩

theorem Inv.advance (h : Inv files w ((f, x) :: below)) (hs : w.Settled f (x + 1)) :
    Inv files w ((f, x + 1) :: below) :=
  { h with
    stackBound := fun e he => by
      rcases List.mem_cons.mp he with rfl | he
      · exact h.head_lt
      · exact h.stackBound e (List.mem_cons_of_mem _ he)
    frames := ⟨hs, h.frames.2⟩ }

theorem stackWeight_advance (hx : x < (w.graph.deps.getD f []).length) :
    stackWeight w ((f, x + 1) :: below) < stackWeight w ((f, x) :: below) := by
  simp only [stackWeight_cons]
  omega

theorem Inv.regraph {w' : Walk} {stack : List (Nat × Nat)} (h : Inv files w stack)
    (hm : w'.marks = w.marks) (ho : w'.order = w.order) (hg : Extends w.graph w'.graph) :
    Inv files w' stack ∧ Grows w w' := by
  have hgrows : Grows w w' := ⟨by rw [ho], hg, fun v hv => by rw [hm]; exact hv⟩
  refine ⟨⟨hg.shaped h.shaped, by rw [hm]; exact h.marksSize, by rw [hg.size]; exact h.brokenSize,
    fun v => by rw [hm]; exact h.active v, h.stackNodup, h.stackBound,
    fun v hv => by rw [hm, ho]; exact h.done v hv, by rw [ho]; exact h.orderBound,
    by rw [ho]; exact h.orderNodup, ?_, h.frames.mono hgrows⟩, hgrows⟩
  intro v hv t ht
  rw [ho] at hv ⊢
  rw [targets, hg.deps] at ht
  exact (h.ordered v hv t ht).imp_left (hg.mono v)

theorem Inv.activate {stack : List (Nat × Nat)} (h : Inv files w stack) {t : Nat}
    (htn : t < files.size) (ht : w.marks.getD t .done = .fresh) :
    let w' : Walk := { w with marks := w.marks.set! t .active }
    (∀ v, w'.marks.getD v .done = .active ↔ v = t ∨ v ∈ stack.map (·.1)) ∧
      (t :: stack.map (·.1)).Nodup ∧
      (∀ v < files.size, w'.marks.getD v .done = .done ↔ v ∈ w.order.toList) ∧ Grows w w' ∧
      freshWeight files w' + ((w.graph.deps.getD t []).length + 2) = freshWeight files w := by
  intro w'
  have hts : t < w.marks.size := by rw [h.marksSize]; exact htn
  have hmark : ∀ v, w'.marks.getD v .done = if v = t then .active else w.marks.getD v .done := by
    intro v
    by_cases hv : v = t
    · simp [w', hv, hts]
    · simp [w', hv, Ne.symm hv]
  have hnot : t ∉ stack.map (·.1) := fun hm => by
    rw [← h.active t, ht] at hm
    cases hm
  refine ⟨fun v => ?_, List.nodup_cons.mpr ⟨hnot, h.stackNodup⟩, fun v hv => ?_,
    ⟨List.prefix_refl _, Extends.refl _, fun v hv => ?_⟩,
    freshWeight_set files htn h.marksSize ht (show Mark.active ≠ .fresh by simp)⟩
  · rw [hmark]
    by_cases hv : v = t
    · simp [hv]
    · rw [if_neg hv, h.active v]
      simp [hv]
  · rw [hmark]
    by_cases hvt : v = t
    · subst hvt
      rw [if_pos rfl, ← h.done v hv, ht]
      simp
    · rw [if_neg hvt]
      exact h.done v hv
  · rw [hmark]
    split
    · simp
    · exact hv

theorem Inv.descend (h : Inv files w ((f, x) :: below)) {t : Nat}
    (hx : (w.graph.deps.getD f [])[x]? = some (some t)) (ht : w.marks.getD t .done = .fresh) :
    let w' : Walk := { w with marks := w.marks.set! t .active }
    Inv files w' ((t, 0) :: (f, x + 1) :: below) ∧ Grows w w' ∧
      potential files w' ((t, 0) :: (f, x + 1) :: below) < potential files w ((f, x) :: below) := by
  intro w'
  have htn : t < files.size := h.shaped.target_lt hx
  obtain ⟨hact, hnodup, hdone, hgrows, hfresh⟩ := h.activate htn ht
  replace hfresh : freshWeight files w' + _ = _ := hfresh
  refine ⟨⟨h.shaped, by simp [w', h.marksSize], h.brokenSize, fun v => by simpa [w'] using hact v,
    hnodup, ?_, hdone, h.orderBound, h.orderNodup, h.ordered, ?_⟩, hgrows, ?_⟩
  · intro e he
    rcases List.mem_cons.mp he with rfl | he
    · exact htn
    rcases List.mem_cons.mp he with rfl | he
    · exact h.head_lt
    · exact h.stackBound e (List.mem_cons_of_mem _ he)
  · exact ⟨Settled.zero _ _, Nat.succ_pos x, hx, h.frames.1.mono hgrows, h.frames.2.mono hgrows⟩
  · have hlen : x < (w.graph.deps.getD f []).length := (List.getElem?_eq_some_iff.mp hx).1
    simp only [potential, stackWeight_cons, stackWeight_congr (show w'.graph.deps = w.graph.deps from rfl)]
    omega

theorem Inv.start (h : Inv files w []) {r : Nat} (hr : r < files.size)
    (hm : w.marks.getD r .done = .fresh) :
    let w' : Walk := { w with marks := w.marks.set! r .active }
    Inv files w' [(r, 0)] ∧ Grows w w' ∧ potential files w' [(r, 0)] < freshWeight files w := by
  intro w'
  obtain ⟨hact, -, hdone, hgrows, hfresh⟩ := h.activate hr hm
  replace hfresh : freshWeight files w' + _ = _ := hfresh
  refine ⟨⟨h.shaped, by simp [w', h.marksSize], h.brokenSize, fun v => by simpa [w'] using hact v,
    by simp, fun e he => ?_, hdone, h.orderBound, h.orderNodup, h.ordered,
    ⟨Settled.zero _ _, trivial⟩⟩, hgrows, ?_⟩
  · rw [List.mem_singleton.mp he]
    exact hr
  · simp only [potential, stackWeight_cons, stackWeight_congr (show w'.graph.deps = w.graph.deps from rfl)]
    simp only [stackWeight]
    omega

theorem Inv.head_mem_cycle (h : Inv files w ((f, x) :: below)) {t : Nat} (y : Nat)
    (ht : w.marks.getD t .done = .active) :
    f ∈ (((f, y) :: below).map (·.1)).reverse.drop ((((f, y) :: below).map (·.1)).reverse.idxOf t) := by
  have htm : t ∈ (below.map (·.1)).reverse ++ [f] := by
    have := (h.active t).1 ht
    simp only [List.map_cons, List.mem_cons] at this
    simp only [List.mem_append, List.mem_reverse, List.mem_singleton]
    exact this.symm
  have hle := List.idxOf_lt_length_of_mem htm
  rw [List.length_append, List.length_singleton] at hle
  simp only [List.map_cons, List.reverse_cons]
  rw [List.drop_append_of_le_length (by omega)]
  simp

theorem Inv.cycle (h : Inv files w ((f, x) :: below)) {t : Nat}
    (hx : (w.graph.deps.getD f [])[x]? = some (some t)) (ht : w.marks.getD t .done = .active) :
    let w' := reportCycle files w (((f, x + 1) :: below).map (·.1)) f x t
    Inv files w' ((f, x + 1) :: below) ∧ Grows w w' ∧
      potential files w' ((f, x + 1) :: below) < potential files w ((f, x) :: below) := by
  intro w'
  obtain ⟨hm, ho, hext, hcycle⟩ := reportCycle_spec h.shaped hx (((f, x + 1) :: below).map (·.1))
  obtain ⟨hinv, hgrows⟩ := h.regraph hm ho hext
  have hbroken : w'.graph.isBroken f = true :=
    hcycle f (h.head_mem_cycle (x + 1) ht) (by rw [h.brokenSize]; exact h.head_lt)
  refine ⟨hinv.advance (hinv.frames.1.succ fun _ _ => Or.inr hbroken), hgrows, ?_⟩
  have hlen : x < (w.graph.deps.getD f []).length := (List.getElem?_eq_some_iff.mp hx).1
  have hfresh : freshWeight files w' = freshWeight files w :=
    freshWeight_congr files hext.deps fun v => by rw [hm]
  simp only [potential, hfresh, stackWeight_congr (show w'.graph.deps = w.graph.deps from hext.deps)]
  exact Nat.add_lt_add_left (stackWeight_advance hlen) _

theorem Inv.step (h : Inv files w ((f, x) :: below)) (fuel : Nat) :
    ∃ w' stack', walk files (fuel + 1) ((f, x) :: below) w = walk files fuel stack' w' ∧
      Inv files w' stack' ∧ Grows w w' ∧ potential files w' stack' < potential files w ((f, x) :: below) ∧
      (w'.graph = w.graph ∨ ∃ t, (w.graph.deps.getD f [])[x]? = some (some t) ∧
        w.marks.getD t .done = .active ∧ w' = reportCycle files w (((f, x + 1) :: below).map (·.1)) f x t) := by
  have hlen {y : Option Nat} (hx : (w.graph.deps.getD f [])[x]? = some y) :
      x < (w.graph.deps.getD f []).length := (List.getElem?_eq_some_iff.mp hx).1
  cases hx : (w.graph.deps.getD f [])[x]? with
  | none =>
    obtain ⟨hinv, hg, hp⟩ := h.pop hx
    exact ⟨_, _, by rw [walk, hx], hinv, hg, hp, Or.inl rfl⟩
  | some y =>
    cases y with
    | none =>
      -- an import that did not resolve: nothing to visit
      refine ⟨w, _, by rw [walk, hx], h.advance (h.frames.1.succ fun t ht => ?_), Grows.refl w,
        Nat.add_lt_add_left (stackWeight_advance (hlen hx)) _, Or.inl rfl⟩
      rw [hx] at ht
      cases ht
    | some t =>
      cases ht : w.marks.getD t .done with
      | fresh =>
        obtain ⟨hinv, hg, hp⟩ := h.descend hx ht
        exact ⟨_, _, by rw [walk, hx]; simp only [ht], hinv, hg, hp, Or.inl rfl⟩
      | active =>
        obtain ⟨hinv, hg, hp⟩ := h.cycle hx ht
        exact ⟨_, _, by rw [walk, hx]; simp only [ht], hinv, hg, hp, Or.inr ⟨t, rfl, ht, rfl⟩⟩
      | done =>
        have hord : t ∈ w.order.toList := (h.done t (h.shaped.target_lt hx)).1 ht
        refine ⟨w, _, by rw [walk, hx]; simp only [ht], h.advance (h.frames.1.succ fun t' ht' => ?_),
          Grows.refl w, Nat.add_lt_add_left (stackWeight_advance (hlen hx)) _, Or.inl rfl⟩
        rw [hx, Option.some.injEq, Option.some.injEq] at ht'
        exact Or.inl (ht' ▸ hord)

end Step

theorem Inv.run : ∀ (fuel : Nat) {w : Walk} {stack : List (Nat × Nat)}, Inv files w stack →
    potential files w stack < fuel → Inv files (walk files fuel stack w) [] ∧ Grows w (walk files fuel stack w)
  | 0, _, _, _, hp => absurd hp (Nat.not_lt_zero _)
  | fuel + 1, w, [], h, _ => by
    rw [walk]
    exact ⟨h, Grows.refl w⟩
  | fuel + 1, _, (_, _) :: _, h, hp => by
    obtain ⟨w', stack', he, h', hg, hlt, -⟩ := h.step fuel
    rw [he]
    obtain ⟨hinv, hg'⟩ := Inv.run fuel h' (by omega)
    exact ⟨hinv, hg.trans hg'⟩

theorem Inv.mem_order {w : Walk} (h : Inv files w []) {r : Nat} (hr : r < files.size)
    (hm : w.marks.getD r .done ≠ .fresh) : r ∈ w.order.toList := by
  refine (h.done r hr).1 ?_
  cases hmr : w.marks.getD r .done with
  | fresh => exact absurd hmr hm
  | active => exact absurd ((h.active r).1 hmr) (by simp)
  | done => rfl

theorem Inv.lt_of_fresh {w : Walk} {stack : List (Nat × Nat)} (h : Inv files w stack) {r : Nat}
    (hm : w.marks.getD r .done = .fresh) : r < files.size := by
  rw [← h.marksSize]
  by_contra hr
  rw [Array.getD_eq_getD_getElem?, Array.getElem?_eq_none (by omega)] at hm
  cases hm

theorem Inv.rootStep_spec {w : Walk} (h : Inv files w []) {fuel : Nat} (hfuel : freshWeight files w < fuel)
    (r : Nat) :
    Inv files (rootStep files fuel w r) [] ∧ Grows w (rootStep files fuel w r) ∧
      (r < files.size → r ∈ (rootStep files fuel w r).order.toList) := by
  unfold rootStep
  by_cases hm : w.marks.getD r .done = .fresh
  · rw [if_neg (not_not.mpr hm)]
    have hr := h.lt_of_fresh hm
    have hrs : r < w.marks.size := by rw [h.marksSize]; exact hr
    obtain ⟨h₁, hg₁, hp₁⟩ := h.start hr hm
    obtain ⟨h₂, hg₂⟩ := h₁.run fuel (by omega)
    exact ⟨h₂, hg₁.trans hg₂, fun _ => h₂.mem_order hr (hg₂.marks r (by simp [hrs]))⟩
  · rw [if_pos hm]
    exact ⟨h, Grows.refl w, fun hr => h.mem_order hr hm⟩

theorem Inv.foldl_rootStep {fuel : Nat} : ∀ (roots : List Nat) {w : Walk}, Inv files w [] →
    freshWeight files w < fuel →
    Inv files (roots.foldl (rootStep files fuel) w) [] ∧ Grows w (roots.foldl (rootStep files fuel) w) ∧
      ∀ r ∈ roots, r < files.size → r ∈ (roots.foldl (rootStep files fuel) w).order.toList
  | [], w, h, _ => ⟨h, Grows.refl w, by simp⟩
  | r :: rest, w, h, hfuel => by
    rw [List.foldl_cons]
    obtain ⟨h₁, hg₁, hr⟩ := h.rootStep_spec hfuel r
    obtain ⟨h₂, hg₂, hrest⟩ :=
      Inv.foldl_rootStep rest h₁ (Nat.lt_of_le_of_lt (freshWeight_le files hg₁) hfuel)
    refine ⟨h₂, hg₁.trans hg₂, fun r' hr' hlt => ?_⟩
    rcases List.mem_cons.mp hr' with rfl | hr'
    · exact hg₂.order.subset (hr hlt)
    · exact hrest r' hr' hlt

/-! ### The order -/

theorem inv_start {g : ImportGraph} (hs : Shaped files g) (hb : g.broken.size = files.size) :
    Inv files (start files g) [] where
  shaped := hs
  marksSize := by simp [start]
  brokenSize := hb
  active v := by
    by_cases hv : v < files.size <;> simp [start, hv]
  stackNodup := by simp
  stackBound := by simp
  done v hv := by simp [start, hv]
  orderBound := by simp [start]
  orderNodup := by simp [start]
  ordered := by simp [start]
  frames := trivial

theorem freshWeight_start_lt {g : ImportGraph} (hs : Shaped files g) :
    freshWeight files (start files g) < 2 * files.size + g.importCount + 2 := by
  have hstart : freshWeight files (start files g) =
      ∑ v ∈ Finset.range files.size, ((g.deps.getD v []).length + 2) :=
    Finset.sum_congr rfl fun v hv => by simp [weightOf, start, Finset.mem_range.mp hv]
  rw [hstart, Finset.sum_add_distrib, hs.sum_length_eq, Finset.sum_const_nat fun _ _ => rfl,
    Finset.card_range]
  omega

end Walk

theorem order_eq (files : Array ParsedFile) (roots : List Nat) (g : ImportGraph) :
    order files roots g =
      let w := roots.foldl (Walk.rootStep files (2 * files.size + g.importCount + 2)) (Walk.start files g)
      (w.order.toList, w.graph) := rfl

/-- The order of the files reachable from the roots holds no file twice and only files of
the build, extends the graph, holds every root, and puts every unbroken file after every
file it imports. -/
theorem order_spec {files : Array ParsedFile} {g : ImportGraph} (hs : Shaped files g)
    (hb : g.broken.size = files.size) (roots : List Nat) :
    let r := order files roots g
    r.1.Nodup ∧ (∀ v ∈ r.1, v < files.size) ∧ Extends g r.2 ∧
      (∀ root ∈ roots, root < files.size → root ∈ r.1) ∧
      ∀ v ∈ r.1, ∀ t ∈ r.2.targets v, r.2.isBroken v = true ∨ Before r.1 t v := by
  rw [order_eq]
  obtain ⟨h, hg, hroots⟩ :=
    (Walk.inv_start hs hb).foldl_rootStep roots (Walk.freshWeight_start_lt hs)
  exact ⟨h.orderNodup, h.orderBound, hg.graph, hroots, h.ordered⟩

end ImportGraph

end ProtoSchema
