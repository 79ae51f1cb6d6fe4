import Mathlib
import ProtoSchema.Compile.Options

/-!
What becomes of an option statement. Interpreting the option statements of an element
runs one step per statement; a step either reports an annotation, or records the
statement in the options message being built (a standard option sets its field
through the schema, a custom option is appended under the full name of the
extension it resolves to), or drops it without a word. The last happens in one
place only: a custom option naming an extension whose extended message, looked up
again from the extension's own scope among all files, is not found.

Main statements: `interpretOptions_accounted`, and `optionKinds_accounted` for every kind of
options message a compile builds.
-/

namespace ProtoSchema

/-! ### The custom options of an options message

Every options message keeps its custom options in a list. Setting a standard option
leaves that list alone, and adding a custom option appends it: so a custom option,
once added, is in the message returned. -/

/-- `custom` reads the custom options of a message of the schema: setting a standard option
keeps them, adding one appends it. -/
structure OptionsSchema.KeepsCustom {α : Type} (schema : OptionsSchema α)
    (custom : α → List UninterpretedOption) : Prop where
  set_eq : ∀ {o o' : α} {name : String} {v : OptionValue} {n : Int},
    schema.set o name v = .ok (some (o', n)) → custom o' = custom o
  add_eq : ∀ (o : α) (u : UninterpretedOption), custom (schema.addUninterpreted o u) = custom o ++ [u]

theorem setWith_eq_some {α β : Type} {read : OptionValue → Except String β} {v : OptionValue}
    {number : Int} {put : β → α} {o' : α} {n : Int} (h : setWith read v number put = .ok (some (o', n))) :
    ∃ x, read v = .ok x ∧ o' = put x ∧ n = number := by
  unfold setWith at h
  cases hr : read v with
  | error e => simp [hr, bind, Except.bind] at h
  | ok x =>
    simp only [hr, bind, Except.bind, pure, Except.pure, Except.ok.injEq, Option.some.injEq,
      Prod.mk.injEq] at h
    exact ⟨x, rfl, h.1.symm, h.2.symm⟩

-- In each schema below the last case of `set` is an unknown name, which sets nothing.

theorem fileOptions_keepsCustom : fileOptions.KeepsCustom FileOptions.uninterpretedOption where
  set_eq h := by
    simp only [fileOptions] at h
    split at h
    case h_21 => cases h
    all_goals obtain ⟨x, -, rfl, -⟩ := setWith_eq_some h; rfl
  add_eq _ _ := rfl

theorem messageOptions_keepsCustom : messageOptions.KeepsCustom MessageOptions.uninterpretedOption where
  set_eq h := by
    simp only [messageOptions] at h
    split at h
    case h_5 => cases h
    all_goals obtain ⟨x, -, rfl, -⟩ := setWith_eq_some h; rfl
  add_eq _ _ := rfl

theorem fieldOptions_keepsCustom : fieldOptions.KeepsCustom FieldOptions.uninterpretedOption where
  set_eq h := by
    simp only [fieldOptions] at h
    split at h
    case h_7 => cases h
    all_goals obtain ⟨x, -, rfl, -⟩ := setWith_eq_some h; rfl
  add_eq _ _ := rfl

theorem plainOptions_keepsCustom (fullName : String) :
    (plainOptions fullName).KeepsCustom PlainOptions.uninterpretedOption where
  set_eq h := by cases h
  add_eq _ _ := rfl

theorem enumOptions_keepsCustom : enumOptions.KeepsCustom EnumOptions.uninterpretedOption where
  set_eq h := by
    simp only [enumOptions] at h
    split at h
    case h_3 => cases h
    all_goals obtain ⟨x, -, rfl, -⟩ := setWith_eq_some h; rfl
  add_eq _ _ := rfl

theorem enumValueOptions_keepsCustom : enumValueOptions.KeepsCustom EnumValueOptions.uninterpretedOption where
  set_eq h := by
    simp only [enumValueOptions] at h
    split at h
    case h_2 => cases h
    all_goals obtain ⟨x, -, rfl, -⟩ := setWith_eq_some h; rfl
  add_eq _ _ := rfl

theorem serviceOptions_keepsCustom : serviceOptions.KeepsCustom ServiceOptions.uninterpretedOption where
  set_eq h := by
    simp only [serviceOptions] at h
    split at h
    case h_2 => cases h
    all_goals obtain ⟨x, -, rfl, -⟩ := setWith_eq_some h; rfl
  add_eq _ _ := rfl

theorem methodOptions_keepsCustom : methodOptions.KeepsCustom MethodOptions.uninterpretedOption where
  set_eq h := by
    simp only [methodOptions] at h
    split at h
    case h_3 => cases h
    all_goals obtain ⟨x, -, rfl, -⟩ := setWith_eq_some h; rfl
  add_eq _ _ := rfl

namespace CompileM

variable {α : Type}

/-! ### Running the compiler's primitives -/

def Extends (s s' : CompileState) : Prop :=
  ∃ added, s'.annotations.toList = s.annotations.toList ++ added

def Reports (s s' : CompileState) : Prop :=
  ∃ a added, s'.annotations.toList = s.annotations.toList ++ a :: added

theorem Extends.refl (s : CompileState) : Extends s s := ⟨[], by simp⟩

theorem Extends.trans {s₁ s₂ s₃ : CompileState} (h₁ : Extends s₁ s₂) (h₂ : Extends s₂ s₃) :
    Extends s₁ s₃ := by
  obtain ⟨a, ha⟩ := h₁
  obtain ⟨b, hb⟩ := h₂
  exact ⟨a ++ b, by rw [hb, ha, List.append_assoc]⟩

theorem Reports.extends {s s' : CompileState} (h : Reports s s') : Extends s s' := by
  obtain ⟨a, added, h⟩ := h
  exact ⟨a :: added, h⟩

theorem report_run (span : Span) (message : String) (ctx : CompileContext) (s : CompileState) :
    report span message ctx s =
      ((), { s with annotations := s.annotations.push ( Annotation.atSpan ctx.file.path .compile message span) }) :=
  rfl

theorem reports_report (span : Span) (message : String) (ctx : CompileContext) (s : CompileState) :
    Reports s (report span message ctx s).2 :=
  ⟨ Annotation.atSpan ctx.file.path .compile message span, [], by simp [report_run]⟩

theorem locateDecl_annotations (path : List Int) (d : Declaration) (ctx : CompileContext)
    (s : CompileState) : (locateDecl path d ctx s).2.annotations = s.annotations := by
  obtain ⟨files, table, file, visible, proto3, sourceInfo⟩ := ctx
  cases sourceInfo <;> rfl

/-! ### Resolving a custom option -/

def ResolvesTo (optionsName scope : String) (ctx : CompileContext) (first : OptionNamePart)
    (full : String) (number : Int) : Prop :=
  ∃ sym extendee extScope n sym',
    ctx.table.lookup first.name (qualify scope "option") false (some ctx.visible) = .found full sym ∧
    sym.info = .extension extendee extScope n ∧
    ctx.table.lookup extendee extScope true none = .found optionsName sym' ∧ number = wrapInt32 n

def ExtendeeLost (scope : String) (ctx : CompileContext) (first : OptionNamePart) : Prop :=
  ∃ full sym extendee extScope n,
    ctx.table.lookup first.name (qualify scope "option") false (some ctx.visible) = .found full sym ∧
    sym.info = .extension extendee extScope n ∧
    ∀ full' sym', ctx.table.lookup extendee extScope true none ≠ .found full' sym'

theorem resolveCustomOption_cases (optionsName scope : String) (decl : OptionDecl)
    (first : OptionNamePart) (ctx : CompileContext) (s : CompileState) :
    (∃ full number, resolveCustomOption optionsName scope decl first ctx s = (some (full, number), s) ∧
        ResolvesTo optionsName scope ctx first full number) ∨
      ∃ s', resolveCustomOption optionsName scope decl first ctx s = (none, s') ∧
        (Reports s s' ∨ s' = s ∧ ExtendeeLost scope ctx first) := by
  unfold resolveCustomOption
  simp only [bind, ReaderT.bind, read, readThe, MonadReaderOf.read, ReaderT.read, pure, StateT.bind,
    StateT.pure]
  -- one case per exit: five report, one finds, one is the lost extendee
  rcases hl : ctx.table.lookup first.name (qualify scope "option") false (some ctx.visible) with
    ⟨full, sym⟩ | ⟨full, file⟩ | hint
  · dsimp only
    rcases hinfo : sym.info with _ | _ | _ | _ | ⟨extendee, extScope, n⟩
    case extension =>
      dsimp only
      rcases hl' : ctx.table.lookup extendee extScope true none with ⟨extendeeFull, sym'⟩ | _ | _
      case found =>
        dsimp only
        by_cases heq : extendeeFull = optionsName
        · subst heq
          exact .inl ⟨full, wrapInt32 n, by simp; rfl, sym, extendee, extScope, n, sym', hl, hinfo, hl', rfl⟩
        · rw [if_pos heq]
          exact .inr ⟨_, rfl, .inl (reports_report _ _ _ _)⟩
      all_goals
        exact .inr ⟨s, rfl, .inr ⟨rfl, full, sym, extendee, extScope, n, hl, hinfo, by simp [hl']⟩⟩
    all_goals exact .inr ⟨_, rfl, .inl (reports_report _ _ _ _)⟩
  · exact .inr ⟨_, rfl, .inl (reports_report _ _ _ _)⟩
  · exact .inr ⟨_, rfl, .inl (reports_report _ _ _ _)⟩

/-! ### One option statement -/

def Recorded (schema : OptionsSchema α) (scope : String) (ctx : CompileContext) (o : α)
    (decl : OptionDecl) (o' : α) : Prop :=
  (∃ first n, decl.name = [first] ∧ first.isExtension = false ∧
      schema.set o first.name decl.value.value = .ok (some (o', n))) ∨
    ∃ first rest full n, decl.name = first :: rest ∧ first.isExtension = true ∧
      ResolvesTo schema.fullName scope ctx first full n ∧
      o' = schema.addUninterpreted o
        (uninterpretedOf (⟨full, true⟩ :: rest.map fun p => ⟨p.name, p.isExtension⟩) decl.value.value)

def StepAccounted (schema : OptionsSchema α) (custom : α → List UninterpretedOption) (scope : String)
    (ctx : CompileContext) (decl : OptionDecl) (o : α) (s : CompileState) (o' : α) (s' : CompileState) :
    Prop :=
  Extends s s' ∧ custom o <+: custom o' ∧
    (Reports s s' ∨ Recorded schema scope ctx o decl o' ∨
      ∃ first rest, decl.name = first :: rest ∧ first.isExtension = true ∧ ExtendeeLost scope ctx first)

theorem StepAccounted.of_report {schema : OptionsSchema α} {custom : α → List UninterpretedOption}
    {scope : String} {ctx : CompileContext} {decl : OptionDecl} {o o' : α} {seen : List String}
    (span : Span) (message : String) (s : CompileState) (hkeep : custom o' = custom o) :
    StepAccounted schema custom scope ctx decl o s
      ((ReaderT.bind (report span message) fun _ => ReaderT.pure (o', seen)) ctx s).1.1
      ((ReaderT.bind (report span message) fun _ => ReaderT.pure (o', seen)) ctx s).2 :=
  ⟨(reports_report span message ctx s).extends, hkeep ▸ List.prefix_refl _,
    .inl (reports_report span message ctx s)⟩

theorem extends_locateDecl_then {β : Type} (path : List Int) (d : Declaration) (b : β)
    (ctx : CompileContext) (s : CompileState) :
    Extends s ((ReaderT.bind (locateDecl path d) fun _ => ReaderT.pure b) ctx s).2 :=
  ⟨[], by simp only [List.append_nil]; exact congrArg Array.toList (locateDecl_annotations path d ctx s)⟩

variable {custom : α → List UninterpretedOption}

theorem interpretOne_accounted {schema : OptionsSchema α} (hc : schema.KeepsCustom custom)
    (path : List Int) (scope : String) (o : α) (seen : List String) (decl : OptionDecl)
    (hname : decl.name ≠ []) (ctx : CompileContext) (s : CompileState) :
    StepAccounted schema custom scope ctx decl o s (interpretOne schema path scope o seen decl ctx s).1.1
      (interpretOne schema path scope o seen decl ctx s).2 := by
  obtain ⟨name, value, d⟩ := decl
  obtain ⟨first, rest, rfl⟩ := List.exists_cons_of_ne_nil hname
  unfold interpretOne
  cases hext : first.isExtension
  · -- a standard option: a name of several parts, an unknown name, a value of the wrong
    -- kind and a repeated name report; anything else is set
    simp only [bind, hext, Bool.not_false, if_true]
    by_cases hrest : rest = []
    · subst hrest
      rw [if_neg (by simp)]
      rcases hset : schema.set o first.name value.value with msg | _ | ⟨o', n⟩
      · exact .of_report _ _ s rfl
      · exact .of_report _ _ s rfl
      · dsimp only
        split_ifs
        · exact .of_report _ _ s (hc.set_eq hset)
        · exact ⟨extends_locateDecl_then _ _ _ ctx s, (hc.set_eq hset).symm ▸ List.prefix_refl _,
            .inr (.inl (.inl ⟨first, n, rfl, hext, hset⟩))⟩
    · rw [if_pos (by simpa using hrest)]
      exact .of_report _ _ s rfl
  · -- a custom option: what resolving it says, then a repeated name reports
    simp only [bind, ReaderT.bind, StateT.bind, hext, Bool.not_true, Bool.false_eq_true, if_false]
    rcases resolveCustomOption_cases schema.fullName scope ⟨first :: rest, value, d⟩ first ctx s with
      ⟨full, number, hr, hres⟩ | ⟨s', hr, hrep | ⟨rfl, hlost⟩⟩
    · rw [hr]
      dsimp only
      by_cases hseen : (rest.isEmpty && seen.contains full) = true
      · rw [if_pos hseen]
        exact .of_report _ _ s rfl
      · rw [if_neg hseen]
        have hadd : ∀ u, custom o <+: custom (schema.addUninterpreted o u) := fun u => by
          rw [hc.add_eq]
          exact List.prefix_append _ _
        exact ⟨extends_locateDecl_then _ _ _ ctx s, hadd _,
          .inr (.inl (.inr ⟨first, rest, full, number, rfl, hext, hres, rfl⟩))⟩
    · rw [hr]
      exact ⟨hrep.extends, List.prefix_refl _, .inl hrep⟩
    · rw [hr]
      exact ⟨Extends.refl _, List.prefix_refl _, .inr (.inr ⟨first, rest, rfl, hext, hlost⟩)⟩

/-! ### The loop over the statements of an element -/

def optionStep (schema : OptionsSchema α) (path : List Int) (scope : String) (acc : α × List String)
    (decl : OptionDecl) : CompileM (α × List String) :=
  interpretOne schema path scope acc.1 acc.2 decl

theorem interpretOptions_run [Inhabited α] (schema : OptionsSchema α) (path : List Int) (scope : String)
    {decls : List OptionDecl} (h : decls ≠ []) (ctx : CompileContext) (s : CompileState) :
    interpretOptions schema path scope decls ctx s =
      (some (decls.foldlM (optionStep schema path scope) (default, []) ctx s).1.1,
        (decls.foldlM (optionStep schema path scope) (default, []) ctx s).2) := by
  unfold interpretOptions
  rw [if_neg (by simpa using h)]
  rfl

theorem foldlM_split_run {β : Type} (f : β → OptionDecl → CompileM β) (b : β) (pre : List OptionDecl)
    (d : OptionDecl) (post : List OptionDecl) (ctx : CompileContext) (s : CompileState) :
    (pre ++ d :: post).foldlM f b ctx s =
      post.foldlM f (f (pre.foldlM f b ctx s).1 d ctx (pre.foldlM f b ctx s).2).1 ctx
        (f (pre.foldlM f b ctx s).1 d ctx (pre.foldlM f b ctx s).2).2 := by
  simp only [List.foldlM_append, List.foldlM_cons]
  rfl

theorem foldlM_optionStep_keeps {schema : OptionsSchema α} (hc : schema.KeepsCustom custom)
    (path : List Int) (scope : String) (ctx : CompileContext) :
    ∀ (decls : List OptionDecl), (∀ d ∈ decls, d.name ≠ []) → ∀ (acc : α × List String) (s : CompileState),
      Extends s (decls.foldlM (optionStep schema path scope) acc ctx s).2 ∧
        custom acc.1 <+: custom (decls.foldlM (optionStep schema path scope) acc ctx s).1.1
  | [], _, acc, s => ⟨Extends.refl s, List.prefix_refl _⟩
  | d :: ds, hnames, acc, s => by
    have hstep := interpretOne_accounted hc path scope acc.1 acc.2 d (hnames d List.mem_cons_self) ctx s
    have hrest := foldlM_optionStep_keeps hc path scope ctx ds (fun d hd => hnames d (List.mem_cons_of_mem _ hd))
      (optionStep schema path scope acc d ctx s).1 (optionStep schema path scope acc d ctx s).2
    rw [List.foldlM_cons]
    exact ⟨hstep.1.trans hrest.1, hstep.2.1.trans hrest.2⟩

def OptionsAccounted [Inhabited α] (schema : OptionsSchema α) (custom : α → List UninterpretedOption) : Prop :=
  ∀ (path : List Int) (scope : String) (decls : List OptionDecl), (∀ d ∈ decls, d.name ≠ []) →
    ∀ (ctx : CompileContext) (s : CompileState) (pre : List OptionDecl) (d : OptionDecl) (post : List OptionDecl),
      decls = pre ++ d :: post →
      let before := pre.foldlM (optionStep schema path scope) (default, []) ctx s
      let after := optionStep schema path scope before.1 d ctx before.2
      ∃ o, (interpretOptions schema path scope decls ctx s).1 = some o ∧ custom after.1.1 <+: custom o ∧
        ((Reports before.2 after.2 ∧ Extends after.2 (interpretOptions schema path scope decls ctx s).2) ∨
          Recorded schema scope ctx before.1.1 d after.1.1 ∨
          ∃ first rest, d.name = first :: rest ∧ first.isExtension = true ∧ ExtendeeLost scope ctx first)

theorem accounted_of_keepsCustom [Inhabited α] {schema : OptionsSchema α} (hc : schema.KeepsCustom custom) :
    OptionsAccounted schema custom := by
  intro path scope decls hnames ctx s pre d post hsplit before after
  have hne : decls ≠ [] := by simp [hsplit]
  have hpost : ∀ d ∈ post, d.name ≠ [] := fun d' hd' => hnames d' (by simp [hsplit, hd'])
  -- the rest of the loop runs from the message and state this turn leaves
  have hrun : decls.foldlM (optionStep schema path scope) (default, []) ctx s =
      post.foldlM (optionStep schema path scope) after.1 ctx after.2 := by
    rw [hsplit, foldlM_split_run]
  have hkeep := foldlM_optionStep_keeps hc path scope ctx post hpost after.1 after.2
  have hstep : StepAccounted schema custom scope ctx d before.1.1 before.2 after.1.1 after.2 :=
    interpretOne_accounted hc path scope before.1.1 before.1.2 d (hnames d (by simp [hsplit])) ctx before.2
  rw [interpretOptions_run schema path scope hne, hrun]
  refine ⟨_, rfl, hkeep.2, ?_⟩
  rcases hstep.2.2 with hrep | hrec | hlost
  · exact .inl ⟨hrep, hkeep.1⟩
  · exact .inr (.inl hrec)
  · exact .inr (.inr hlost)

/-- Every kind of options message a compile builds accounts for each of its option statements:
file, message, field, oneof and extension range, enum, enum value, service and method options. -/
theorem optionKinds_accounted :
    OptionsAccounted fileOptions FileOptions.uninterpretedOption ∧
      OptionsAccounted messageOptions MessageOptions.uninterpretedOption ∧
      OptionsAccounted fieldOptions FieldOptions.uninterpretedOption ∧
      (∀ fullName, OptionsAccounted (plainOptions fullName) PlainOptions.uninterpretedOption) ∧
      OptionsAccounted enumOptions EnumOptions.uninterpretedOption ∧
      OptionsAccounted enumValueOptions EnumValueOptions.uninterpretedOption ∧
      OptionsAccounted serviceOptions ServiceOptions.uninterpretedOption ∧
      OptionsAccounted methodOptions MethodOptions.uninterpretedOption :=
  ⟨accounted_of_keepsCustom fileOptions_keepsCustom, accounted_of_keepsCustom messageOptions_keepsCustom,
    accounted_of_keepsCustom fieldOptions_keepsCustom,
    fun fullName => accounted_of_keepsCustom (plainOptions_keepsCustom fullName),
    accounted_of_keepsCustom enumOptions_keepsCustom, accounted_of_keepsCustom enumValueOptions_keepsCustom,
    accounted_of_keepsCustom serviceOptions_keepsCustom, accounted_of_keepsCustom methodOptions_keepsCustom⟩

/-- Every option statement of an element is accounted for in the options message returned:
its turn of the loop reports an annotation, which stays in the output, or records it (a
standard option sets its field, a custom option is appended under the full name of its
extension and stays among the custom options returned), or it is a custom option whose
extension's extended message is not found again from the extension's scope. -/
theorem interpretOptions_accounted [Inhabited α] {schema : OptionsSchema α}
    (hc : schema.KeepsCustom custom) (path : List Int) (scope : String) (decls : List OptionDecl)
    (hnames : ∀ d ∈ decls, d.name ≠ []) (ctx : CompileContext) (s : CompileState)
    (pre : List OptionDecl) (d : OptionDecl) (post : List OptionDecl) (hsplit : decls = pre ++ d :: post) :
    let before := pre.foldlM (optionStep schema path scope) (default, []) ctx s
    let after := optionStep schema path scope before.1 d ctx before.2
    ∃ o, (interpretOptions schema path scope decls ctx s).1 = some o ∧ custom after.1.1 <+: custom o ∧
      ((Reports before.2 after.2 ∧ Extends after.2 (interpretOptions schema path scope decls ctx s).2) ∨
        Recorded schema scope ctx before.1.1 d after.1.1 ∨
        ∃ first rest, d.name = first :: rest ∧ first.isExtension = true ∧ ExtendeeLost scope ctx first) :=
  accounted_of_keepsCustom hc path scope decls hnames ctx s pre d post hsplit

def sampleFileOptionDecls : List OptionDecl :=
  [⟨[⟨"java_package", false, {}⟩], ⟨.str [120], {}⟩, {}⟩, ⟨[⟨"my", true, {}⟩], ⟨.int false 5, {}⟩, {}⟩]

theorem interpretOptions_sampleFileOptionDecls_accounted :
    (∀ d ∈ sampleFileOptionDecls, d.name ≠ []) ∧ ∃ before after,
      [sampleFileOptionDecls[0]].foldlM (optionStep fileOptions [] "pkg") (default, []) default default =
        before ∧
      optionStep fileOptions [] "pkg" before.1 sampleFileOptionDecls[1] default before.2 = after ∧
      ∃ o, (interpretOptions fileOptions [] "pkg" sampleFileOptionDecls default default).1 = some o ∧
        FileOptions.uninterpretedOption after.1.1 <+: FileOptions.uninterpretedOption o ∧
        ((Reports before.2 after.2 ∧
            Extends after.2 (interpretOptions fileOptions [] "pkg" sampleFileOptionDecls default default).2) ∨
          Recorded fileOptions "pkg" default before.1.1 sampleFileOptionDecls[1] after.1.1 ∨
          ∃ first rest, sampleFileOptionDecls[1].name = first :: rest ∧ first.isExtension = true ∧
            ExtendeeLost "pkg" default first) := by
  have hnames : ∀ d ∈ sampleFileOptionDecls, d.name ≠ [] := by simp [sampleFileOptionDecls]
  exact ⟨hnames, _, _, rfl, rfl, interpretOptions_accounted fileOptions_keepsCustom [] "pkg"
    sampleFileOptionDecls hnames default default [sampleFileOptionDecls[0]] sampleFileOptionDecls[1] [] rfl⟩

end CompileM

end ProtoSchema
