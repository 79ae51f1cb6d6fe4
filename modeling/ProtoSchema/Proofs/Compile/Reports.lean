import Mathlib
import ProtoSchema.Compile.File

/-!
What the compiler's reports keep. The annotations of the compiler's state change only
through `report`, which appends one annotation at the path of the compiled file. So a
property of the annotations that such an append keeps (a `ReportInvariant`) holds after
every compiling function if it held before.

Each compiling function has a triple `⦃kept⦄ f ⦃⇓ _ => kept⦄` in the `Std.Do` logic for
the invariant in scope, proved by `mvcgen` from the triples of the functions it calls; the
message compiler's recursive block is proved by its joint induction. All are tagged
`@[spec]` but the one of `report`, which each proof names: a proof about reports with an
assertion of its own then gives `report` a triple of its own. Every loop keeps the same
assertion, so every loop invariant is `kept` again. With every annotation at the path of
the compiled file as the invariant, the annotations found while compiling a file are all
at its path (`compileFile_reports`).
-/

open Std.Do

namespace ProtoSchema

namespace CompileM

set_option mvcgen.warning false

/-- A property of the annotations recorded so far that reporting keeps. It is a class so
that, with one in scope, the condition generator finds the triple of each callee for it. -/
class ReportInvariant where
  holds : CompileContext → Array Annotation → Prop
  report : ∀ ctx as span message, holds ctx as →
    holds ctx (as.push ( Annotation.atSpan ctx.file.path .compile message span))

/-- The invariant in scope as an assertion over the context and the state of the compiler. -/
def kept [J : ReportInvariant] : Assertion (.arg CompileContext (.arg CompileState .pure)) :=
  fun ctx s => ⌜J.holds ctx s.annotations⌝

section Kept

variable [J : ReportInvariant]

/-! ### Reporting, locating and resolving -/

theorem report_spec (span : Span) (message : String) :
    ⦃kept⦄ report span message ⦃⇓ _ => kept⦄ := by
  mvcgen [report, kept]
  rename_i ctx s hs _ _
  exact J.report _ _ _ _ hs

@[spec] theorem locate_spec (path : List Int) (span : Span) (comments : Option Comments) :
    ⦃kept⦄ locate path span comments ⦃⇓ _ => kept⦄ := by
  mvcgen [locate, kept]

@[spec] theorem locateDecl_spec (path : List Int) (d : Declaration) :
    ⦃kept⦄ locateDecl path d ⦃⇓ _ => kept⦄ := by
  mvcgen [locateDecl]

@[spec] theorem resolve_spec (name : Spanned String) (relativeTo : String) (typesOnly : Bool) :
    ⦃kept⦄ resolve name relativeTo typesOnly ⦃⇓ _ => kept⦄ := by
  mvcgen [report_spec, resolve]

@[spec] theorem resolveMessage_spec (name : Spanned String) (relativeTo : String) :
    ⦃kept⦄ resolveMessage name relativeTo ⦃⇓ _ => kept⦄ := by
  mvcgen [report_spec, resolveMessage]

@[spec] theorem fieldType_spec (ty : Spanned String) (relativeTo : String) :
    ⦃kept⦄ fieldType ty relativeTo ⦃⇓ _ => kept⦄ := by
  mvcgen [report_spec, fieldType]

/-! ### Options -/

@[spec] theorem resolveCustomOption_spec (optionsName scope : String) (decl : OptionDecl)
    (first : OptionNamePart) :
    ⦃kept⦄ resolveCustomOption optionsName scope decl first ⦃⇓ _ => kept⦄ := by
  mvcgen [report_spec, resolveCustomOption]

@[spec] theorem interpretOne_spec {α : Type} (schema : OptionsSchema α) (path : List Int) (scope : String)
    (o : α) (seen : List String) (decl : OptionDecl) :
    ⦃kept⦄ interpretOne schema path scope o seen decl ⦃⇓ _ => kept⦄ := by
  mvcgen [report_spec, interpretOne]

@[spec] theorem interpretOptions_spec {α : Type} [Inhabited α] (schema : OptionsSchema α)
    (path : List Int) (scope : String) (decls : List OptionDecl) :
    ⦃kept⦄ interpretOptions schema path scope decls ⦃⇓ _ => kept⦄ := by
  mvcgen [report_spec, interpretOptions] invariants
  | inv1 => ⇓ _ => kept

/-! ### Enums -/

@[spec] theorem rangeLocations_spec (path : List Int) (r : NumberRange) :
    ⦃kept⦄ rangeLocations path r ⦃⇓ _ => kept⦄ := by
  mvcgen [report_spec, rangeLocations]

@[spec] theorem enumElement_spec (path : List Int) (scope : String) (b : EnumBuild) (e : EnumElement) :
    ⦃kept⦄ enumElement path scope b e ⦃⇓ _ => kept⦄ := by
  unfold enumElement
  mvcgen [report_spec] invariants
  | inv1 => ⇓ _ => kept
  | inv2 => ⇓ _ => kept

@[spec] theorem validateEnum_spec (full : String) (name : Spanned String) (e : EnumDescriptor)
    (spans : List Span) :
    ⦃kept⦄ validateEnum full name e spans ⦃⇓ _ => kept⦄ := by
  unfold validateEnum
  split
  · mvcgen [report_spec]
  · mvcgen [report_spec] invariants
    | inv1 => ⇓ _ => kept
    | inv2 => ⇓ _ => kept
  · mvcgen [report_spec]

@[spec] theorem enumeration_spec (path : List Int) (scope : String) (e : Enum) :
    ⦃kept⦄ enumeration path scope e ⦃⇓ _ => kept⦄ := by
  unfold enumeration
  mvcgen [report_spec] invariants
  | inv1 => ⇓ _ => kept

/-! ### Fields -/

@[spec] theorem fieldNumber_spec (number : Spanned Int) (site : FieldSite) :
    ⦃kept⦄ fieldNumber number site ⦃⇓ _ => kept⦄ := by
  unfold fieldNumber
  mvcgen [report_spec]

@[spec] theorem fieldShell_spec (path : List Int) (label : Option (Spanned LabelKind)) (name : String)
    (nameSpan : Span) (number : Spanned Int) (decl : Declaration) (site : FieldSite) :
    ⦃kept⦄ fieldShell path label name nameSpan number decl site ⦃⇓ _ => kept⦄ := by
  unfold fieldShell
  mvcgen [report_spec]

@[spec] theorem defaultOption_spec (path : List Int) (fd : FieldDescriptor) (resolved : Option ResolvedType)
    (decl : OptionDecl) :
    ⦃kept⦄ defaultOption path fd resolved decl ⦃⇓ _ => kept⦄ := by
  unfold defaultOption
  mvcgen [report_spec]

@[spec] theorem jsonNameOption_spec (path : List Int) (fd : FieldDescriptor) (decl : OptionDecl) :
    ⦃kept⦄ jsonNameOption path fd decl ⦃⇓ _ => kept⦄ := by
  unfold jsonNameOption
  mvcgen [report_spec]

@[spec] theorem pseudoOptions_spec (path : List Int) (resolved : Option ResolvedType) (site : FieldSite)
    (decls : List OptionDecl) (acc : FieldDescriptor × Bool × Bool) :
    ⦃kept⦄ pseudoOptions path resolved site decls acc ⦃⇓ _ => kept⦄ := by
  induction decls generalizing acc with
  | nil => unfold pseudoOptions; mvcgen [report_spec]
  | cons d rest ih => unfold pseudoOptions; mvcgen [report_spec, ih]

@[spec] theorem fieldOptionsOf_spec (path : List Int) (fd : FieldDescriptor) (fieldFull : String)
    (decls : List OptionDecl) (resolved : Option ResolvedType) (site : FieldSite) :
    ⦃kept⦄ fieldOptionsOf path fd fieldFull decls resolved site ⦃⇓ _ => kept⦄ := by
  unfold fieldOptionsOf
  mvcgen [report_spec]

@[spec] theorem plainField_spec (path : List Int) (scope : String) (field : Field) (site : FieldSite) :
    ⦃kept⦄ plainField path scope field site ⦃⇓ _ => kept⦄ := by
  unfold plainField
  mvcgen [report_spec]

@[spec] theorem mapField_spec (fieldPath entryPath : List Int) (scope : String) (m : MapField) :
    ⦃kept⦄ mapField fieldPath entryPath scope m ⦃⇓ _ => kept⦄ := by
  unfold mapField
  mvcgen [report_spec]

@[spec] theorem checkRange_spec (r : NumberRange) (start stop limit : Int) (what : String) :
    ⦃kept⦄ checkRange r start stop limit what ⦃⇓ _ => kept⦄ := by
  unfold checkRange
  mvcgen [report_spec]

/-! ### Messages -/

@[spec] theorem validateMessage_spec (full : String) (fields : List FieldDescriptor)
    (reserved : List ReservedRange) (reservedNames : List String) (ranges : List ExtensionRange)
    (numbered : List (Int × String × Span)) :
    ⦃kept⦄ validateMessage full fields reserved reservedNames ranges numbered ⦃⇓ _ => kept⦄ := by
  unfold validateMessage
  mvcgen [report_spec] invariants
  | inv1 => ⇓ _ => kept
  | inv2 => ⇓ _ => kept
  | inv3 => ⇓ _ => kept
  | inv4 => ⇓ _ => kept
  | inv5 => ⇓ _ => kept
  | inv6 => ⇓ _ => kept
  | inv7 => ⇓ _ => kept
  | inv8 => ⇓ _ => kept

@[spec] theorem startMessage_spec (path : List Int) (decl : Declaration) (name : Spanned String) :
    ⦃kept⦄ startMessage path decl name ⦃⇓ _ => kept⦄ := by
  mvcgen [report_spec, startMessage]

@[spec] theorem finishMessage_spec (path : List Int) (full : String) (name : Spanned String)
    (b : MessageBuild) :
    ⦃kept⦄ finishMessage path full name b ⦃⇓ _ => kept⦄ := by
  unfold finishMessage
  mvcgen [report_spec]

@[spec] theorem startExtend_spec (path : List Int) (scope : String) (extendee : Spanned String)
    (decl : Declaration) :
    ⦃kept⦄ startExtend path scope extendee decl ⦃⇓ _ => kept⦄ := by
  unfold startExtend
  mvcgen [report_spec]

@[spec] theorem finishExtension_spec (path : List Int) (extendeeSpan : Span)
    (extendee : Option (String × Symbol)) (fd : FieldDescriptor) (number : Spanned Int) :
    ⦃kept⦄ finishExtension path extendeeSpan extendee fd number ⦃⇓ _ => kept⦄ := by
  unfold finishExtension
  mvcgen [report_spec]

@[spec] theorem extensionRanges_spec (path : List Int) (full : String) (r : ExtensionRanges)
    (b : MessageBuild) :
    ⦃kept⦄ extensionRanges path full r b ⦃⇓ _ => kept⦄ := by
  unfold extensionRanges
  mvcgen [report_spec] invariants
  | inv1 => ⇓ _ => kept
  | inv2 => ⇓ _ => kept

@[spec] theorem reservedOf_spec (path : List Int) (r : Reserved) (b : MessageBuild) :
    ⦃kept⦄ reservedOf path r b ⦃⇓ _ => kept⦄ := by
  unfold reservedOf
  mvcgen [report_spec] invariants
  | inv1 => ⇓ _ => kept
  | inv2 => ⇓ _ => kept

theorem body_specs :
    (∀ path full es b, ⦃kept⦄ elements path full es b ⦃⇓ _ => kept⦄) ∧
    (∀ path full e b, ⦃kept⦄ element path full e b ⦃⇓ _ => kept⦄) ∧
    (∀ extBase typeBase scope extendeeSpan extendee es acc,
      ⦃kept⦄ extendMembers extBase typeBase scope extendeeSpan extendee es acc ⦃⇓ _ => kept⦄) ∧
    (∀ fieldPath typePath scope site g, ⦃kept⦄ group fieldPath typePath scope site g ⦃⇓ _ => kept⦄) ∧
    (∀ path full index es acc, ⦃kept⦄ oneofMembers path full index es acc ⦃⇓ _ => kept⦄) := by
  apply elements.mutual_induct
  all_goals intros
  case case1 | case2 | case3 | case4 | case5 | case6 | case7 | case8 | case9 | case10 =>
    unfold element; mvcgen [report_spec, *]
  case case11 => unfold group; mvcgen [report_spec, *]
  case case12 | case13 => unfold elements; mvcgen [report_spec, *]
  case case14 | case15 | case16 | case17 => unfold oneofMembers; mvcgen [report_spec, *]
  case case18 | case19 | case20 => unfold extendMembers; mvcgen [report_spec, *]

@[spec] theorem elements_spec (path : List Int) (full : String) (es : List MessageElement)
    (b : MessageBuild) :
    ⦃kept⦄ elements path full es b ⦃⇓ _ => kept⦄ :=
  body_specs.1 path full es b

@[spec] theorem extendMembers_spec (extBase typeBase : List Int) (scope : String) (extendeeSpan : Span)
    (extendee : Option (String × Symbol)) (es : List ExtendElement)
    (acc : Array FieldDescriptor × Array MessageDescriptor) :
    ⦃kept⦄ extendMembers extBase typeBase scope extendeeSpan extendee es acc ⦃⇓ _ => kept⦄ :=
  body_specs.2.2.1 extBase typeBase scope extendeeSpan extendee es acc

@[spec] theorem message_spec (path : List Int) (scope : String) (m : Message) :
    ⦃kept⦄ message path scope m ⦃⇓ _ => kept⦄ := by
  unfold message
  mvcgen [report_spec]

@[spec] theorem extendBlock_spec (extBase typeBase : List Int) (scope : String) (x : Extend)
    (acc : Array FieldDescriptor × Array MessageDescriptor) :
    ⦃kept⦄ extendBlock extBase typeBase scope x acc ⦃⇓ _ => kept⦄ := by
  unfold extendBlock
  mvcgen [report_spec]

/-! ### Files -/

theorem foldlM_kept {β γ : Type} {f : β → γ → CompileM β} (hf : ∀ b x, ⦃kept⦄ f b x ⦃⇓ _ => kept⦄)
    (l : List γ) (init : β) : ⦃kept⦄ l.foldlM f init ⦃⇓ _ => kept⦄ := by
  mvcgen [report_spec, hf] invariants
  | inv1 => ⇓ _ => kept

@[spec] theorem method_spec (path : List Int) (service : String) (m : Method) :
    ⦃kept⦄ method path service m ⦃⇓ _ => kept⦄ := by
  unfold method
  mvcgen [report_spec]

@[spec] theorem service_spec (path : List Int) (scope : String) (s : Service) :
    ⦃kept⦄ service path scope s ⦃⇓ _ => kept⦄ := by
  unfold service
  refine Triple.bind _ _ (locateDecl_spec _ _) fun _ => ?_
  refine Triple.bind _ _ (locate_spec _ _ _) fun _ => ?_
  refine Triple.bind _ _ (foldlM_kept (fun acc el => ?_) _ _) fun _ => ?_
  · cases el <;> mvcgen [report_spec]
  · mvcgen [report_spec]

@[spec] theorem imports_spec (is : List Import) :
    ⦃kept⦄ imports is ⦃⇓ _ => kept⦄ := by
  unfold imports
  mvcgen [report_spec] invariants
  | inv1 => ⇓ _ => kept

theorem file_spec : ⦃kept⦄ file ⦃⇓ _ => kept⦄ := by
  unfold file
  mvcgen [report_spec]
  all_goals first | exact ⇓ _ => kept | (intros; assumption)

end Kept

def Reported (ctx : CompileContext) (s : CompileState) : Prop :=
  ∀ a ∈ s.annotations.toList, a.path = ctx.file.path

def atFile : Assertion (.arg CompileContext (.arg CompileState .pure)) := fun ctx s => ⌜Reported ctx s⌝

@[reducible] def atFileInvariant : ReportInvariant where
  holds ctx as := ∀ a ∈ as.toList, a.path = ctx.file.path
  report ctx as span message h a ha := by
    simp only [Array.toList_push, List.mem_append, List.mem_singleton] at ha
    rcases ha with ha | rfl
    · exact h a ha
    · rfl

theorem reported_of_triple {α : Type} {m : CompileM α} (h : ⦃atFile⦄ m ⦃⇓ _ => atFile⦄)
    (ctx : CompileContext) (s : CompileState) (hs : Reported ctx s) : Reported ctx (m ctx s).2 := by
  exact h ctx s hs

end CompileM

/-- Every annotation found while compiling a file is at the path of that file. -/
theorem compileFile_reports (ctx : CompileContext) : ∀ a ∈ (compileFile ctx).2, a.path = ctx.file.path :=
  CompileM.reported_of_triple (@CompileM.file_spec CompileM.atFileInvariant) ctx {} (by simp [CompileM.Reported])

end ProtoSchema
