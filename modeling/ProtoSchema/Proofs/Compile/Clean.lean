import Mathlib
import ProtoSchema.Proofs.Compile.Reports
import ProtoSchema.Proofs.Compile.File
import ProtoSchema.Proofs.Compile.Options

/-!
Clean runs of the compiler. The compiler only ever appends annotations, so a run that
appends none is one in which no step reported. `Clean ctx H m P` says that `m` appends
to the annotations from every state, and that a run of `m` appending none, when `H`
holds, returns a value satisfying `P`. It is a Hoare logic whose preconditions are plain
propositions; its rules follow the binds of a `do` block and the loops of the compiler.

Every compiling function only appends (`grows_of_kept`, from its triple for the invariant
"the annotations start with these"), so a function whose value is not looked at is clean
with the precondition kept (`Clean.of_kept`).
-/

open Std.Do

namespace ProtoSchema

namespace CompileM

variable {α β γ : Type} {ctx : CompileContext}

@[reducible] def prefixInvariant (before : Array Annotation) : ReportInvariant where
  holds _ as := before.toList <+: as.toList
  report _ _ _ _ h := h.trans (by simp)

/-- A computation that keeps every invariant of reports only appends annotations. -/
theorem grows_of_kept {m : CompileM α} (hk : ∀ J : ReportInvariant, ⦃@kept J⦄ m ⦃⇓ _ => @kept J⦄)
    (ctx : CompileContext) (s : CompileState) :
    s.annotations.toList <+: (m ctx s).2.annotations.toList :=
  hk (prefixInvariant s.annotations) ctx s (List.prefix_refl _)

def Clean (ctx : CompileContext) (H : Prop) (m : CompileM α) (P : α → Prop) : Prop :=
  ∀ s, s.annotations.toList <+: (m ctx s).2.annotations.toList ∧
    ((m ctx s).2.annotations.size = s.annotations.size → H → P (m ctx s).1)

theorem Clean.of_run {H : Prop} {m : CompileM α} {P : α → Prop} (hm : Clean ctx H m P) (hH : H)
    (s : CompileState) (hs : s.annotations = #[]) (hend : (m ctx s).2.annotations = #[]) :
    P (m ctx s).1 :=
  (hm s).2 (by rw [hs, hend]) hH

theorem Clean.pure {H : Prop} {P : α → Prop} {a : α} (h : H → P a) : Clean ctx H (pure a) P :=
  fun _ => ⟨List.prefix_refl _, fun _ => h⟩

theorem Clean.imp {H H' : Prop} {m : CompileM α} {P P' : α → Prop} (hm : Clean ctx H m P)
    (hH : H' → H) (hP : ∀ a, H' → P a → P' a) : Clean ctx H' m P' :=
  fun s => ⟨(hm s).1, fun hsize hH' => hP _ hH' ((hm s).2 hsize (hH hH'))⟩

theorem Clean.frame {H H₀ : Prop} {m : CompileM α} {P : α → Prop} (hm : Clean ctx H₀ m P)
    (hH : H → H₀) : Clean ctx H m fun a => H ∧ P a :=
  hm.imp hH fun _ hH' hP => ⟨hH', hP⟩

theorem Clean.bind {H : Prop} {m : CompileM α} {f : α → CompileM β} {Q : α → Prop} {P : β → Prop}
    (hm : Clean ctx H m Q) (hf : ∀ a, Clean ctx (Q a) (f a) P) : Clean ctx H (m >>= f) P := by
  intro s
  obtain ⟨hg₁, hp₁⟩ := hm s
  obtain ⟨hg₂, hp₂⟩ := hf (m ctx s).1 (m ctx s).2
  have hrun : (m >>= f) ctx s = f (m ctx s).1 ctx (m ctx s).2 := rfl
  rw [hrun]
  have hl₁ := hg₁.length_le
  have hl₂ := hg₂.length_le
  simp only [Array.length_toList] at hl₁ hl₂
  refine ⟨hg₁.trans hg₂, fun hsize hH => hp₂ (by omega) (hp₁ (by omega) hH)⟩

theorem Clean.read {H : Prop} {f : CompileContext → CompileM β} {P : β → Prop}
    (h : Clean ctx H (f ctx) P) : Clean ctx H (MonadReaderOf.read >>= f) P := h

theorem Clean.get_bind {H : Prop} {f : CompileState → CompileM β} {P : β → Prop}
    (h : ∀ σ, Clean ctx H (f σ) P) : Clean ctx H (get >>= f) P :=
  fun s => h s s

theorem Clean.of_yields {H : Prop} {m : CompileM α} {P : α → Prop}
    (hk : ∀ J : ReportInvariant, ⦃@kept J⦄ m ⦃⇓ _ => @kept J⦄) (hy : Yields ctx m P) :
    Clean ctx H m fun a => H ∧ P a :=
  fun s => ⟨grows_of_kept hk ctx s, fun _ hH => ⟨hH, hy s⟩⟩

/-- A computation whose value is not looked at keeps the precondition. -/
theorem Clean.of_kept {H : Prop} {m : CompileM α}
    (hk : ∀ J : ReportInvariant, ⦃@kept J⦄ m ⦃⇓ _ => @kept J⦄) : Clean ctx H m fun _ => H :=
  (Clean.of_yields hk (P := fun _ => True) fun _ => trivial).imp id fun _ _ h => h.1

theorem Clean.locate_bind {H : Prop} {P : β → Prop} {path : List Int} {span : Span}
    {comments : Option Comments} {f : Unit → CompileM β} (h : Clean ctx H (f ()) P) :
    Clean ctx H (locate path span comments >>= f) P :=
  (Clean.of_kept fun _ => locate_spec path span comments).bind fun _ => h

theorem Clean.locateDecl_bind {H : Prop} {P : β → Prop} {path : List Int} {d : Declaration}
    {f : Unit → CompileM β} (h : Clean ctx H (f ()) P) : Clean ctx H (locateDecl path d >>= f) P :=
  (Clean.of_kept fun _ => locateDecl_spec path d).bind fun _ => h

theorem Clean.report {H : Prop} {P : Unit → Prop} (span : Span) (message : String) :
    Clean ctx H (report span message) P := by
  intro s
  rw [report_run]
  exact ⟨by simp, fun hsize => absurd hsize (by simp)⟩

theorem Clean.report_bind {H : Prop} {P : β → Prop} {span : Span} {message : String}
    {f : Unit → CompileM β} (h : Clean ctx H (f ()) P) :
    Clean ctx H (CompileM.report span message >>= f) P :=
  (Clean.report span message).bind fun _ => h

theorem Clean.foldlM {f : β → γ → CompileM β} (I : List γ → β → Prop) :
    ∀ (l d : List γ) (init : β), (∀ d' x acc, x ∈ l → Clean ctx (I d' acc) (f acc x) (I (d' ++ [x]))) →
      Clean ctx (I d init) (l.foldlM f init) (I (d ++ l))
  | [], d, init, _ => by
    rw [List.foldlM_nil, List.append_nil]
    exact Clean.pure id
  | x :: l, d, init, hf => by
    rw [List.foldlM_cons]
    refine (hf d x init List.mem_cons_self).bind fun acc => ?_
    have hl := Clean.foldlM I l (d ++ [x]) acc fun d' y acc' hy => hf d' y acc' (List.mem_cons_of_mem x hy)
    simpa using hl

theorem Clean.forIn {f : γ → PUnit → CompileM (ForInStep PUnit)} (I : List γ → Prop)
    (hf : ∀ d x, Clean ctx (I d) (f x ⟨⟩) fun r => r = .yield ⟨⟩ ∧ I (d ++ [x])) :
    ∀ (l d : List γ), Clean ctx (I d) (forIn l ⟨⟩ f) fun _ => I (d ++ l)
  | [], d => by
    rw [List.forIn_nil, List.append_nil]
    exact Clean.pure id
  | x :: l, d => by
    rw [List.forIn_cons]
    refine (hf d x).bind fun r => ?_
    rcases r with ⟨⟨⟩⟩ | ⟨⟨⟩⟩
    · exact Clean.pure fun h => absurd h.1 (by simp)
    · exact (Clean.forIn I hf l (d ++ [x])).imp And.right fun _ _ h => by simpa using h

end CompileM

end ProtoSchema
