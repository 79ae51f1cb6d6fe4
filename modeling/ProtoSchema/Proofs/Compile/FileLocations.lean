import ProtoSchema.Proofs.Compile.MessageLocations
import ProtoSchema.Proofs.Compile.File

/-!
Where the locations of a compiled file point. A file records its own path, the paths of its
version and package statements and of its imports, and those of its options, messages, enums,
services and extensions, each with the index it is appended at; every one of them is a path
the descriptor admits (`file_located`), except the version statement of a file the compiler
leaves unversioned, whose field stays unset.

The locations a file records are all of its source info: a clean compile starts with none, and
the source info it returns is the sorted list of what it recorded (`file_leaves`). So every
path in the source info of a clean compile is admitted by the descriptor it returns, but that
of a proto2 version statement (`compileFile_sourcePaths`).
-/

namespace ProtoSchema

variable {N : Int → Prop}

@[simp] theorem Value.admitsAfter_nil {v : Value} {p : List Int} : v.AdmitsAfter N [] p ↔ v.Admits N p := by
  simp [Value.AdmitsAfter]

def ImportPath (count : Nat) (pub weak : Nat) (p : List Int) : Prop :=
  (∃ k < count, p = [3, (k : Int)]) ∨ (∃ j < pub, p = [10, (j : Int)]) ∨ (∃ j < weak, p = [11, (j : Int)])

theorem ImportPath.mono {count pub weak pub' weak' : Nat} {p : List Int} (hpub : pub ≤ pub')
    (hweak : weak ≤ weak') (h : ImportPath count pub weak p) : ImportPath count pub' weak' p := by
  rcases h with h | ⟨j, hj, rfl⟩ | ⟨j, hj, rfl⟩
  · exact .inl h
  · exact .inr (.inl ⟨j, by omega, rfl⟩)
  · exact .inr (.inr ⟨j, by omega, rfl⟩)

theorem FileDescriptor.admits_importPath {fd : FileDescriptor} {p : List Int}
    (h : ImportPath fd.dependency.length fd.publicDependency.length fd.weakDependency.length p) :
    fd.toValue.Admits N p := by
  rcases h with ⟨k, hk, rfl⟩ | ⟨j, hj, rfl⟩ | ⟨j, hj, rfl⟩
  · exact Value.admitsAfter_nil.mp (Value.admitsAfter_scalar fd.dependency rfl hk)
  · exact Value.admitsAfter_nil.mp (Value.admitsAfter_scalar fd.publicDependency rfl hj)
  · exact Value.admitsAfter_nil.mp (Value.admitsAfter_scalar fd.weakDependency rfl hj)

theorem FileDescriptor.admits_dialect (fd : FileDescriptor) : fd.toValue.Admits N [12] ∨ fd.dialect = none := by
  cases h : fd.dialect
  · exact .inr rfl
  · exact .inl (Value.admitsAfter_nil.mp (Value.admitsAfter_ofOption rfl (by simp [h])))

namespace CompileM

variable {α β : Type} {ctx : CompileContext}

/-! ### Services -/

theorem method_located (path : List Int) (service : String) (m : Method) :
    Located ctx True (method path service m) (fun _ => True) (fun md p => md.toValue.AdmitsAfter ctx.ExtensionNumber path p) := by
  unfold method
  refine Located.locateDecl_bind ?_
  refine Located.locate_bind ?_
  extract_lets output input
  -- the rest after the output's stream marker: its type, then the types resolved and the options
  have houtput : Located ctx True (output ()) (fun md => md.toValue.AdmitsAfter ctx.ExtensionNumber path path ∧
      md.toValue.AdmitsAfter ctx.ExtensionNumber path (path ++ [1]) ∧
      (m.input.stream.isSome → md.toValue.AdmitsAfter ctx.ExtensionNumber path (path ++ [5])) ∧
      md.toValue.AdmitsAfter ctx.ExtensionNumber path (path ++ [2]) ∧
      (m.output.stream.isSome → md.toValue.AdmitsAfter ctx.ExtensionNumber path (path ++ [6])))
      (fun md p => md.toValue.AdmitsAfter ctx.ExtensionNumber path p) := by
    refine Located.locate_bind ?_
    refine (Located.of_clean (Q := fun _ _ => False) (resolveMessage_clean _ _)
      fun L => resolveMessage_locations L _ _).bind fun input => ?_
    refine (Located.of_clean (Q := fun _ _ => False) ((resolveMessage_clean _ _).frame fun _ => trivial)
      fun L => resolveMessage_locations L _ _).bind fun output => ?_
    refine ((interpretOptions_located methodOptions_viewed _ _ _).frame fun _ => trivial).bind fun options =>
      Located.pure fun h => ?_
    obtain ⟨⟨hin, hout⟩, -⟩ := h
    exact ⟨⟨⟨⟨⟨Value.admitsAfter_self _ _, Value.admitsAfter_ofOption rfl rfl,
      fun hs => Value.admitsAfter_ofOption rfl (by simpa using hs),
      Value.admitsAfter_ofOption rfl (by simpa using hin),
      fun hs => Value.admitsAfter_ofOption rfl (by simpa using hs)⟩,
      Value.admitsAfter_ofOption rfl (by simpa using hout)⟩, fun _ h => h.elim⟩, fun _ h => h.elim⟩,
      fun _ hp => Value.admitsAfter_ofMessage rfl hp⟩
  have hinput : Located ctx True (input ()) (fun md => md.toValue.AdmitsAfter ctx.ExtensionNumber path path ∧
      md.toValue.AdmitsAfter ctx.ExtensionNumber path (path ++ [1]) ∧
      (m.input.stream.isSome → md.toValue.AdmitsAfter ctx.ExtensionNumber path (path ++ [5])))
      (fun md p => md.toValue.AdmitsAfter ctx.ExtensionNumber path p) := by
    refine Located.locate_bind ?_
    split
    · rename_i hs
      refine Located.locate_bind ?_
      exact houtput.imp id fun md _ h =>
        ⟨⟨⟨⟨h.1, h.2.1, h.2.2.1⟩, h.2.2.2.1⟩, h.2.2.2.2 (by simp [hs])⟩, fun _ hp => hp⟩
    · exact houtput.imp id fun md _ h => ⟨⟨⟨h.1, h.2.1, h.2.2.1⟩, h.2.2.2.1⟩, fun _ hp => hp⟩
  split
  · rename_i hs
    refine Located.locate_bind ?_
    exact hinput.imp id fun md _ h => ⟨⟨⟨⟨trivial, h.1⟩, h.2.1⟩, h.2.2 (by simp [hs])⟩, fun _ hp => hp⟩
  · exact hinput.imp id fun md _ h => ⟨⟨⟨trivial, h.1⟩, h.2.1⟩, fun _ hp => hp⟩

theorem service_located (path : List Int) (scope : String) (s : Service) :
    Located ctx True (service path scope s) (fun _ => True) (fun sd p => sd.toValue.AdmitsAfter ctx.ExtensionNumber path p) := by
  unfold service
  refine Located.locateDecl_bind ?_
  refine Located.locate_bind ?_
  -- the methods built so far admit every path recorded for them
  refine ((Located.foldlM (fun _ _ => True)
    (fun acc p => (Slot.ofMessages MethodDescriptor.toValue acc.1.toList).AdmitsAfter ctx.ExtensionNumber (path ++ [2]) p)
    s.body [] _ fun _ el acc _ => ?_).frame fun _ => trivial).bind fun r => ?_
  · obtain ⟨ms, ds⟩ := acc
    cases el with
    | method m =>
      refine ((method_located _ _ m).frame fun _ => trivial).bind fun d =>
        Located.pure fun _ => ⟨⟨trivial, fun _ hp => ?_⟩, fun _ hp => ?_⟩
      · rw [Array.toList_push]
        exact (Slot.ofMessages_le_append _ _ _).admitsAfter hp
      · rw [Array.toList_push]
        exact Slot.admitsAfter_push (by simpa using hp)
    | option o => exact Located.pure fun _ => ⟨trivial, fun _ hp => hp⟩
  · obtain ⟨methods, decls⟩ := r
    refine ((interpretOptions_located serviceOptions_viewed _ _ _).frame fun _ => trivial).bind fun options =>
      Located.pure fun _ => ?_
    exact ⟨⟨⟨⟨trivial, Value.admitsAfter_self _ _⟩, Value.admitsAfter_ofOption rfl rfl⟩,
      fun _ hp => Value.AdmitsAfter.of_slot rfl hp⟩, fun _ hp => Value.admitsAfter_ofMessage rfl hp⟩

theorem imports_located (is : List Import) :
    Located ctx True (imports is) (fun r => r.1.length = is.length)
      (fun r p => ImportPath is.length r.2.1.length r.2.2.length p) := by
  unfold imports
  refine ((Located.foldlM (fun d acc => acc.1.size = d.length)
    (fun acc p => ImportPath is.length acc.2.1.size acc.2.2.size p)
    is.zipIdx [] _ fun d x acc hx => ?_).frame fun _ => rfl).bind fun r => ?_
  · obtain ⟨i, k⟩ := x
    obtain ⟨deps, pub, weak⟩ := acc
    have hk : k < is.length := by simpa using (List.mem_zipIdx hx).2.1
    refine Located.locateDecl_bind ?_
    -- only a public or a weak import is recorded a second time
    split
    · refine Located.locate_bind (Located.pure fun hsize => ?_)
      exact ⟨⟨⟨by simp [hsize], fun _ hp => hp.mono (by simp) le_rfl⟩, .inl ⟨k, hk, rfl⟩⟩,
        .inr (.inl ⟨pub.size, by simp, rfl⟩)⟩
    · refine Located.locate_bind (Located.pure fun hsize => ?_)
      exact ⟨⟨⟨by simp [hsize], fun _ hp => hp.mono le_rfl (by simp)⟩, .inl ⟨k, hk, rfl⟩⟩,
        .inr (.inr ⟨weak.size, by simp, rfl⟩)⟩
    · exact Located.pure fun hsize => ⟨⟨by simp [hsize], fun _ hp => hp⟩, .inl ⟨k, hk, rfl⟩⟩
  · obtain ⟨deps, pub, weak⟩ := r
    exact Located.pure fun h => ⟨by simpa using h.2.1, fun _ hp => by simpa using hp⟩

/-! ### Files -/

theorem foldlM_push_located {γ δ : Type} {view : δ → Value} (base : List Int) {f : Array δ → γ → CompileM δ}
    (hf : ∀ acc x, Located ctx True (f acc x) (fun _ => True)
      (fun d p => (view d).AdmitsAfter ctx.ExtensionNumber (base ++ [(acc.size : Int)]) p))
    (xs : List γ) (init : Array δ) :
    Located ctx True (xs.foldlM (fun acc x => f acc x >>= fun d => Pure.pure (acc.push d)) init)
      (fun _ => True) (fun acc p => (Slot.ofMessages view acc.toList).AdmitsAfter ctx.ExtensionNumber base p) := by
  refine (Located.foldlM (fun _ _ => True) (fun acc p => (Slot.ofMessages view acc.toList).AdmitsAfter ctx.ExtensionNumber base p)
    xs [] init fun _ x acc _ => ?_).imp id fun _ _ _ => ⟨trivial, fun _ hp => hp⟩
  refine (hf acc x).bind fun d => Located.pure fun _ => ⟨⟨trivial, fun _ hp => ?_⟩, fun _ hp => ?_⟩
  · rw [Array.toList_push]
    exact (Slot.ofMessages_le_append _ _ _).admitsAfter hp
  · rw [Array.toList_push]
    exact Slot.admitsAfter_push (by simpa using hp)

/-- Every path a file records is admitted by its descriptor, but that of a version statement
which leaves the version unset. -/
theorem file_located :
    Located ctx True file (fun _ => True)
      (fun fd p => fd.toValue.Admits ctx.ExtensionNumber p ∨ (p = [12] ∧ fd.dialect = none ∧ ctx.file.schema.dialectDecl.isSome)) := by
  unfold file
  refine Located.read ?_
  extract_lets schema package body header
  -- what follows the version and package statements: imports, options and the lists of the
  -- file, each element appended at the index it was recorded with
  have hbody : Located ctx True (body ()) (fun fd => fd.package = schema.package.map (·.name.value))
      (fun fd p => fd.toValue.Admits ctx.ExtensionNumber p ∨ (p = [12] ∧ fd.dialect = none ∧ ctx.file.schema.dialectDecl.isSome)) := by
    refine ((imports_located _).imp id fun r _ hlen => ⟨trivial, fun _ hp => hlen ▸ hp⟩).bind fun r => ?_
    obtain ⟨dependency, publicDependency, weakDependency⟩ := r
    refine (interpretOptions_located fileOptions_viewed _ _ _).bind fun options => ?_
    refine (foldlM_push_located [4] (fun acc m => message_located _ _ m) _ _).bind fun messages => ?_
    refine (foldlM_push_located [5] (fun acc e => enumeration_located _ _ e) _ _).bind fun enums => ?_
    refine (foldlM_push_located [6] (fun acc svc => service_located _ _ svc) _ _).bind fun services => ?_
    refine ((Located.foldlM (fun _ acc => (Slot.ofMessages MessageDescriptor.toValue messages.toList).Le
        (Slot.ofMessages MessageDescriptor.toValue acc.2.toList))
      (fun acc p => (Slot.ofMessages FieldDescriptor.toValue acc.1.toList).AdmitsAfter ctx.ExtensionNumber [7] p ∨
        (Slot.ofMessages MessageDescriptor.toValue acc.2.toList).AdmitsAfter ctx.ExtensionNumber [4] p) _ [] _
      fun _ x acc _ => (extendBlock_located _ _ _ x acc).imp (fun _ => trivial) fun _ hle h =>
        ⟨⟨hle.trans h.2, fun _ hp => hp.imp h.1.admitsAfter h.2.admitsAfter⟩, fun _ hp => hp⟩).frame
          fun _ => Slot.le_refl _).bind fun r => ?_
    obtain ⟨extensions, messages'⟩ := r
    refine Located.get_bind fun σ => Located.pure fun h => ?_
    have hle := h.2.1
    refine ⟨⟨⟨⟨⟨⟨rfl, fun _ hp => .inl (FileDescriptor.admits_importPath hp)⟩,
      fun _ hp => .inl (Value.admitsAfter_nil.mp (Value.admitsAfter_ofMessage rfl hp))⟩,
      fun _ hp => .inl (Value.admitsAfter_nil.mp (Value.AdmitsAfter.of_slot rfl (hle.admitsAfter hp)))⟩,
      fun _ hp => .inl (Value.admitsAfter_nil.mp (Value.AdmitsAfter.of_slot rfl hp))⟩,
      fun _ hp => .inl (Value.admitsAfter_nil.mp (Value.AdmitsAfter.of_slot rfl hp))⟩, fun _ hp => ?_⟩
    rcases hp with hp | hp
    · exact .inl (Value.admitsAfter_nil.mp (Value.AdmitsAfter.of_slot rfl hp))
    · exact .inl (Value.admitsAfter_nil.mp (Value.AdmitsAfter.of_slot rfl hp))
  have hheader : Located ctx True (header ()) (fun _ => True)
      (fun fd p => fd.toValue.Admits ctx.ExtensionNumber p ∨ (p = [12] ∧ fd.dialect = none ∧ ctx.file.schema.dialectDecl.isSome)) := by
    dsimp only [header]
    split
    · rename_i pkg hpkg
      refine Located.locateDecl_bind ?_
      exact hbody.imp id fun fd _ h => ⟨⟨trivial, .inl (Value.admitsAfter_nil.mp
        (Value.admitsAfter_ofOption rfl (by simp [h, hpkg])))⟩, fun _ hp => hp⟩
    · exact hbody.imp id fun _ _ _ => ⟨trivial, fun _ hp => hp⟩
  refine Located.locate_bind ?_
  split
  · rename_i decl hdecl
    refine Located.locateDecl_bind ?_
    exact hheader.imp id fun fd _ _ => ⟨⟨⟨trivial, .inl (Value.admits_nil _)⟩,
      (FileDescriptor.admits_dialect fd).imp_right fun h =>
        ⟨rfl, h, by rw [show ctx.file.schema.dialectDecl = some decl from hdecl]; rfl⟩⟩, fun _ hp => hp⟩
  · exact hheader.imp id fun _ _ _ => ⟨⟨trivial, .inl (Value.admits_nil _)⟩, fun _ hp => hp⟩

/-! ### The source info of a file -/

def Leaves (ctx : CompileContext) (m : CompileM α) (R : α → CompileState → Prop) : Prop :=
  ∀ s, R (m ctx s).1 (m ctx s).2

theorem Leaves.seq {m : CompileM α} {f : α → CompileM β} {R : β → CompileState → Prop}
    (hf : ∀ a, Leaves ctx (f a) R) : Leaves ctx (m >>= f) R :=
  fun _ => hf _ _

theorem Leaves.read {f : CompileContext → CompileM β} {R : β → CompileState → Prop}
    (h : Leaves ctx (f ctx) R) : Leaves ctx (read >>= f) R := h

theorem Leaves.get_pure {g : CompileState → β} {R : β → CompileState → Prop} (h : ∀ σ, R (g σ) σ) :
    Leaves ctx (get >>= fun σ => Pure.pure (g σ)) R :=
  fun s => h s

/-- A file returns, when source info is wanted, every location recorded, sorted. -/
theorem file_leaves :
    Leaves ctx file fun fd σ =>
      fd.sourceCodeInfo = if ctx.sourceInfo then some (sortLocations σ.locations.toList) else none := by
  unfold file
  apply Leaves.read
  dsimp only
  repeat (first
    | exact Leaves.get_pure fun _ => rfl
    | refine Leaves.seq fun _ => ?_
    | split)

end CompileM

/-- A clean compile carries source info exactly when it is wanted, and every path in it is
admitted by the descriptor, but that of a version statement when the version is left unset. -/
theorem compileFile_sourcePaths (ctx : CompileContext) (hclean : (compileFile ctx).2 = []) :
    (compileFile ctx).1.sourceCodeInfo.isSome = ctx.sourceInfo ∧
      ∀ ls, (compileFile ctx).1.sourceCodeInfo = some ls → ∀ l ∈ ls,
        (compileFile ctx).1.toValue.Admits ctx.ExtensionNumber l.path ∨
          (l.path = [12] ∧ (compileFile ctx).1.dialect = none ∧ ctx.file.schema.dialectDecl.isSome) := by
  have hinfo := @CompileM.file_leaves ctx {}
  obtain ⟨new, hnew, -, hpaths⟩ := @CompileM.file_located ctx {}
  -- the compile starts with nothing recorded and reports nothing
  have hsize : (CompileM.file ctx {}).2.annotations.size = ({} : CompileState).annotations.size := by
    have h : (CompileM.file ctx {}).2.annotations.toList = [] := hclean
    rw [← Array.length_toList, h]
    rfl
  obtain ⟨-, hq⟩ := hpaths hsize trivial
  change (CompileM.file ctx {}).1.sourceCodeInfo = _ at hinfo
  refine ⟨?_, fun ls hls l hl => hq l ?_⟩
  · change (CompileM.file ctx {}).1.sourceCodeInfo.isSome = _
    rw [hinfo]
    cases ctx.sourceInfo <;> rfl
  · change (CompileM.file ctx {}).1.sourceCodeInfo = some ls at hls
    rw [hinfo] at hls
    split at hls
    · cases hls
      rw [sortLocations, List.mem_mergeSort, hnew] at hl
      simpa using hl
    · cases hls

end ProtoSchema
