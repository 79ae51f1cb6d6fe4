import Mathlib
import ProtoSchema.Proofs.Build.Walk

/-!
The files whose names a file may use. A file sees itself, the files its import statements
resolve to, and every file that one of those re-exports: a file re-exports the files its
`import public` statements resolve to, and what those re-export in turn. `Reexports files g i`
is that least set, read off the import graph and the import statements on their own, and
`visibleFiles_exact` says the visible files of `i` are exactly `i` and that set, each once,
for every import graph, cyclic or not.

`visibleFiles` computes the set by a worklist: `i` is seen first, the stack starts with its
resolved imports, and a file popped for the first time is seen and pushes its public
imports. The worklist is proved for any successor function (`WorklistInv`): what is seen
is `i` or in the set, the start is seen or still to come, and the successors of every seen
file are seen or still to come; the last holds of `i` too because its public imports are
among its imports. So when the stack is empty, the seen files hold the start and are closed
under the successors. The loop runs on fuel: the length of the stack plus the imports of the
files not yet seen drops at every step and starts at most at the number of imports, so the
fuel `visibleFiles` gives always suffices.
-/

namespace ProtoSchema

namespace ImportGraph

def PublicEdge (files : Array ParsedFile) (g : ImportGraph) (d t : Nat) : Prop :=
  ∃ (f : ParsedFile) (k : Nat) (imp : Import), files[d]? = some f ∧ f.schema.imports[k]? = some imp ∧ imp.kind = .exported ∧
    (g.deps.getD d [])[k]? = some (some t)

/-- The files reached from the resolved imports of `i` along resolved public imports. -/
inductive Reexports (files : Array ParsedFile) (g : ImportGraph) (i : Nat) : Nat → Prop
  | direct {t : Nat} : t ∈ g.targets i → Reexports files g i t
  | throughPublic {d t : Nat} : Reexports files g i d → PublicEdge files g d t → Reexports files g i t

/-! ### The worklist -/

section Worklist

variable (next : Nat → List Nat) (i : Nat) (start : List Nat) (P : Nat → Prop)

/-- What the worklist keeps from step to step, for the files `P` it collects from `start`
besides `i`. -/
structure WorklistInv (stack seen : List Nat) : Prop where
  nodup : seen.Nodup
  self : i ∈ seen
  seen_sound : ∀ x ∈ seen, x = i ∨ P x
  stack_sound : ∀ x ∈ stack, P x
  start_mem : ∀ t ∈ start, t ∈ seen ∨ t ∈ stack
  closed : ∀ d ∈ seen, ∀ t ∈ next d, t ∈ seen ∨ t ∈ stack

variable {next i start P}

theorem WorklistInv.pop_seen {d : Nat} {stack seen : List Nat} (h : WorklistInv next i start P (d :: stack) seen)
    (hd : d ∈ seen) : WorklistInv next i start P stack seen := by
  have hkeep : ∀ t, t ∈ seen ∨ t ∈ d :: stack → t ∈ seen ∨ t ∈ stack := by
    rintro t (ht | ht)
    · exact .inl ht
    · rcases List.mem_cons.mp ht with rfl | ht
      · exact .inl hd
      · exact .inr ht
  exact ⟨h.nodup, h.self, h.seen_sound, fun x hx => h.stack_sound x (List.mem_cons_of_mem d hx),
    fun t ht => hkeep t (h.start_mem t ht), fun d' hd' t ht => hkeep t (h.closed d' hd' t ht)⟩

theorem WorklistInv.pop_new (hP : ∀ d, P d → ∀ t ∈ next d, P t) {d : Nat} {stack seen : List Nat}
    (h : WorklistInv next i start P (d :: stack) seen) (hd : d ∉ seen) :
    WorklistInv next i start P (next d ++ stack) (seen ++ [d]) := by
  have hPd : P d := h.stack_sound d List.mem_cons_self
  -- what was seen or to come still is, `d` having moved from the stack to the seen files
  have hkeep : ∀ t, t ∈ seen ∨ t ∈ d :: stack → t ∈ seen ++ [d] ∨ t ∈ next d ++ stack := by
    rintro t (ht | ht)
    · exact .inl (List.mem_append_left _ ht)
    · rcases List.mem_cons.mp ht with rfl | ht
      · exact .inl (List.mem_append_right _ (List.mem_singleton_self _))
      · exact .inr (List.mem_append_right _ ht)
  refine ⟨List.nodup_append.mpr ⟨h.nodup, List.nodup_singleton d, ?_⟩,
    List.mem_append_left _ h.self, ?_, ?_, fun t ht => hkeep t (h.start_mem t ht), ?_⟩
  · intro a ha b hb hab
    rw [List.mem_singleton.mp hb] at hab
    exact hd (hab ▸ ha)
  · intro x hx
    rcases List.mem_append.mp hx with hx | hx
    · exact h.seen_sound x hx
    · exact .inr (List.mem_singleton.mp hx ▸ hPd)
  · intro x hx
    rcases List.mem_append.mp hx with hx | hx
    · exact hP d hPd x hx
    · exact h.stack_sound x (List.mem_cons_of_mem d hx)
  · intro d' hd' t ht
    rcases List.mem_append.mp hd' with hd' | hd'
    · exact hkeep t (h.closed d' hd' t ht)
    · rw [List.mem_singleton.mp hd'] at ht
      exact .inr (List.mem_append_left _ ht)

def pending (w : Nat → Nat) (N : Nat) (stack seen : List Nat) : Nat :=
  stack.length + ∑ d ∈ (Finset.range N).filter (· ∉ seen), w d

theorem sum_unseen_add {w : Nat → Nat} {N d : Nat} (hN : N ≤ d → w d = 0) {seen : List Nat}
    (hd : d ∉ seen) :
    ∑ x ∈ (Finset.range N).filter (· ∉ seen ++ [d]), w x + w d =
      ∑ x ∈ (Finset.range N).filter (· ∉ seen), w x := by
  have herase : (Finset.range N).filter (· ∉ seen ++ [d]) = ((Finset.range N).filter (· ∉ seen)).erase d := by
    ext x
    simp only [Finset.mem_filter, Finset.mem_erase, List.mem_append, List.mem_singleton]
    tauto
  rw [herase]
  by_cases hdN : d < N
  · exact Finset.sum_erase_add _ _ (Finset.mem_filter.mpr ⟨Finset.mem_range.mpr hdN, hd⟩)
  · rw [Finset.erase_eq_of_notMem (by simp [hdN]), hN (Nat.le_of_not_lt hdN), Nat.add_zero]

theorem pending_pop_new {w : Nat → Nat} {N d : Nat} (hw : (next d).length ≤ w d) (hN : N ≤ d → w d = 0)
    {stack seen : List Nat} (hd : d ∉ seen) :
    pending w N (next d ++ stack) (seen ++ [d]) < pending w N (d :: stack) seen := by
  have hsum := sum_unseen_add hN hd
  unfold pending
  rw [List.length_append, List.length_cons]
  omega

theorem WorklistInv.go {w : Nat → Nat} {N : Nat} (hw : ∀ d, (next d).length ≤ w d)
    (hN : ∀ d, N ≤ d → w d = 0) (hP : ∀ d, P d → ∀ t ∈ next d, P t) (fuel : Nat) :
    ∀ {stack seen : List Nat}, WorklistInv next i start P stack seen → pending w N stack seen < fuel →
      WorklistInv next i start P [] (visibleFiles.go next fuel stack seen) := by
  induction fuel with
  | zero => exact fun _ hfuel => absurd hfuel (Nat.not_lt_zero _)
  | succ fuel ih =>
    intro stack seen h hfuel
    cases stack with
    | nil => exact h
    | cons d stack =>
      rw [visibleFiles.go]
      split
      · rename_i hd
        refine ih (h.pop_seen (List.contains_iff_mem.mp hd)) ?_
        unfold pending at hfuel ⊢
        rw [List.length_cons] at hfuel
        omega
      · rename_i hd
        have hd : d ∉ seen := fun hm => hd (List.contains_iff_mem.mpr hm)
        have hdrop : pending w N (next d ++ stack) (seen ++ [d]) < pending w N (d :: stack) seen :=
          pending_pop_new (hw d) (hN d) hd
        exact ih (h.pop_new hP hd) (by omega)

end Worklist

/-! ### The visible files -/

section Visible

variable (files : Array ParsedFile) (g : ImportGraph)

def publicImports (d : Nat) : List Nat :=
  (files[d]?.map fun f => (f.schema.imports.zip (g.deps.getD d [])).filterMap fun x =>
    if x.1.kind = .exported then x.2 else none).getD []

theorem visibleFiles_eq_go (i : Nat) :
    visibleFiles files g i =
      visibleFiles.go (publicImports files g) (g.importCount + files.size + 2) (g.targets i) [i] := by
  unfold visibleFiles publicImports targets
  dsimp only
  congr 1
  funext d
  cases files[d]? <;> rfl

variable {files g}

theorem mem_publicImports {d t : Nat} : t ∈ publicImports files g d ↔ PublicEdge files g d t := by
  unfold publicImports PublicEdge
  cases hf : files[d]? with
  | none => simp
  | some f =>
    rw [Option.map_some, Option.getD_some, List.mem_filterMap]
    constructor
    · rintro ⟨⟨imp, y⟩, hmem, hy⟩
      obtain ⟨k, hk⟩ := List.mem_iff_getElem?.mp hmem
      obtain ⟨himp, hdep⟩ := List.getElem?_zip_eq_some.mp hk
      by_cases hkind : imp.kind = .exported
      · rw [if_pos hkind] at hy
        exact ⟨f, k, imp, rfl, himp, hkind, hy ▸ hdep⟩
      · rw [if_neg hkind] at hy
        cases hy
    · rintro ⟨f', k, imp, hf', himp, hkind, hdep⟩
      cases hf'
      refine ⟨(imp, some t), List.mem_iff_getElem?.mpr ⟨k, List.getElem?_zip_eq_some.mpr ⟨himp, hdep⟩⟩, ?_⟩
      exact if_pos hkind

theorem length_publicImports_le (d : Nat) : (publicImports files g d).length ≤ (g.deps.getD d []).length := by
  unfold publicImports
  cases files[d]? with
  | none => simp
  | some f =>
    calc _ ≤ (f.schema.imports.zip (g.deps.getD d [])).length := List.length_filterMap_le _ _
      _ ≤ (g.deps.getD d []).length := by simp

theorem PublicEdge.mem_targets {d t : Nat} (h : PublicEdge files g d t) : t ∈ g.targets d := by
  obtain ⟨-, k, -, -, -, -, hk⟩ := h
  exact mem_targets_iff.mpr ⟨k, hk⟩

theorem deps_getD_of_size_le {d : Nat} (hd : g.deps.size ≤ d) : (g.deps.getD d []).length = 0 := by
  simp [Array.getD_eq_getD_getElem?, Array.getElem?_eq_none hd]

theorem worklistInv_start (i : Nat) :
    WorklistInv (publicImports files g) i (g.targets i) (Reexports files g i) (g.targets i) [i] where
  nodup := List.nodup_singleton i
  self := List.mem_singleton_self i
  seen_sound x hx := .inl (List.mem_singleton.mp hx)
  stack_sound _ hx := .direct hx
  start_mem _ ht := .inr ht
  closed d hd t ht := by
    rw [List.mem_singleton.mp hd] at ht
    exact .inr (mem_publicImports.mp ht).mem_targets

theorem pending_start_le (i : Nat) :
    pending (fun d => (g.deps.getD d []).length) g.deps.size (g.targets i) [i] ≤ g.importCount := by
  have htargets : (g.targets i).length ≤ (g.deps.getD i []).length := List.length_filterMap_le _ _
  have hsum : ∑ x ∈ (Finset.range g.deps.size).filter (· ∉ [] ++ [i]), (g.deps.getD x []).length +
      (g.deps.getD i []).length =
      ∑ x ∈ (Finset.range g.deps.size).filter (· ∉ ([] : List Nat)), (g.deps.getD x []).length :=
    sum_unseen_add deps_getD_of_size_le List.not_mem_nil
  simp only [List.nil_append, List.not_mem_nil, not_false_eq_true, Finset.filter_true] at hsum
  rw [← importCount_eq] at hsum
  unfold pending
  dsimp only
  omega

theorem worklistInv_visibleFiles (i : Nat) :
    WorklistInv (publicImports files g) i (g.targets i) (Reexports files g i) [] (visibleFiles files g i) := by
  rw [visibleFiles_eq_go]
  refine (worklistInv_start i).go length_publicImports_le (fun _ hd => deps_getD_of_size_le hd)
    (fun _ hd _ ht => .throughPublic hd (mem_publicImports.mp ht)) _ ?_
  have := pending_start_le (g := g) i
  omega

theorem mem_visibleFiles (i x : Nat) : x ∈ visibleFiles files g i ↔ x = i ∨ Reexports files g i x := by
  have hrun : WorklistInv (publicImports files g) i (g.targets i) (Reexports files g i) [] (visibleFiles files g i) :=
    worklistInv_visibleFiles i
  refine ⟨hrun.seen_sound x, ?_⟩
  rintro (rfl | hx)
  · exact hrun.self
  · induction hx with
    | direct ht => simpa using hrun.start_mem _ ht
    | throughPublic _ he ih => simpa using hrun.closed _ ih _ (mem_publicImports.mpr he)

/-- The visible files of `i`: `i` and the files its imports re-export, each once. -/
theorem visibleFiles_exact (i : Nat) :
    (visibleFiles files g i).Nodup ∧ ∀ x, x ∈ visibleFiles files g i ↔ x = i ∨ Reexports files g i x :=
  ⟨(worklistInv_visibleFiles i).nodup, mem_visibleFiles i⟩

/-- File 0 imports 1, which re-exports 2 and, closing a cycle, 0; 2 re-exports 3; 4 stands apart. -/
example :
    let imp (k : ImportKind) : Import := ⟨⟨"", {}⟩, k, {}⟩
    let file (imports : List Import) : ParsedFile := ⟨"", "", { (default : SchemaFile) with imports }⟩
    visibleFiles #[file [imp .normal], file [imp .exported, imp .exported], file [imp .exported], file [], file []]
      ⟨#[[some 1], [some 2, some 0], [some 3], [], []], #[], #[]⟩ 0 = [0, 1, 2, 3] := by
  decide

end Visible

end ImportGraph

end ProtoSchema
