import ProtoSchema.Compile.File

/-!
What the descriptor of a compiled file says of the file, whatever the compiler
reports on the way: it carries the file's name, and its imports are the
file's import paths in order. The compiler runs in `CompileM`, a reader of the context
over a state of reports; `Yields` says what a computation returns from every
state, and its rules follow the binds of a `do` block.
-/

namespace ProtoSchema

namespace CompileM

variable {α β γ : Type} {ctx : CompileContext}

/-- From every state, the computation returns a value satisfying `P`. -/
def Yields (ctx : CompileContext) (m : CompileM α) (P : α → Prop) : Prop :=
  ∀ s, P (m ctx s).1

theorem Yields.pure {P : α → Prop} {a : α} (h : P a) : Yields ctx (pure a) P := fun _ => h

theorem Yields.bind {m : CompileM α} {f : α → CompileM β} {Q : α → Prop} {P : β → Prop}
    (hm : Yields ctx m Q) (hf : ∀ a, Q a → Yields ctx (f a) P) : Yields ctx (m >>= f) P :=
  fun s => hf _ (hm s) _

theorem Yields.seq {m : CompileM α} {f : α → CompileM β} {P : β → Prop}
    (hf : ∀ a, Yields ctx (f a) P) : Yields ctx (m >>= f) P :=
  fun _ => hf _ _

theorem Yields.read {f : CompileContext → CompileM β} {P : β → Prop}
    (h : Yields ctx (f ctx) P) : Yields ctx (read >>= f) P := h

theorem Yields.foldlM {f : β → γ → CompileM β} (I : List γ → β → Prop)
    (hf : ∀ d x acc, I d acc → Yields ctx (f acc x) (I (d ++ [x]))) :
    ∀ (l d : List γ) (init : β), I d init → Yields ctx (l.foldlM f init) (I (d ++ l))
  | [], d, init, h => by simpa using Yields.pure h
  | x :: l, d, init, h => by
    rw [List.foldlM_cons]
    exact (hf d x init h).bind fun acc hacc => by
      simpa using Yields.foldlM I hf l (d ++ [x]) acc hacc

theorem imports_deps (is : List Import) :
    Yields ctx (imports is) fun r => r.1 = is.map (·.path.value) := by
  unfold imports
  refine (Yields.foldlM (fun d acc => acc.1.toList = d.map (·.1.path.value)) ?_ is.zipIdx [] _ rfl).bind ?_
  · -- every kind of import pushes its path; only the index lists differ
    rintro d ⟨i, k⟩ ⟨deps, pub, weak⟩ h
    have hpush : (deps.push i.path.value).toList = (d ++ [(i, k)]).map (·.1.path.value) := by
      simp_all
    refine Yields.seq fun _ => ?_
    split
    · exact Yields.seq fun _ => Yields.pure hpush
    · exact Yields.seq fun _ => Yields.pure hpush
    · exact Yields.pure hpush
  · rintro ⟨deps, pub, weak⟩ h
    have hfst : is.zipIdx.map (·.1.path.value) = is.map (·.path.value) := by
      rw [← List.zipIdx_map_fst 0 is, List.map_map, List.zipIdx_map_fst]
      rfl
    exact Yields.pure (by simpa [hfst] using h)

theorem file_yields :
    Yields ctx file fun fd =>
      fd.name = some ctx.file.name ∧ fd.dependency = ctx.file.schema.imports.map (·.path.value) := by
  unfold file
  apply Yields.read
  dsimp only
  repeat (first
    | refine Yields.bind (imports_deps _) fun r hr => ?_
    | refine Yields.seq fun _ => ?_
    | exact Yields.pure (by exact ⟨rfl, hr⟩)
    | split)

end CompileM

theorem compileFile_descriptor (ctx : CompileContext) :
    (compileFile ctx).1.name = some ctx.file.name ∧
      (compileFile ctx).1.dependency = ctx.file.schema.imports.map (·.path.value) :=
  CompileM.file_yields {}

end ProtoSchema
