import ProtoSchema.Proofs.Compile.FieldLocations

/-!
Where the locations of enums and messages point. A body is compiled into a build record
(`EnumBuild`, `MessageBuild`) that grows by appending, and each element records its paths with
the index it is about to be appended at, before it is appended. Seen as a descriptor without a
name or options (`EnumBuild.draft`, `MessageBuild.draft`), a build only gains from element to
element, so every path an element records is admitted by the build once the element is in, and
by the finished enum or message, which only sets the name and options of the draft
(`enumeration_located`, `message_located`).

Groups and map entries put their messages beside their fields, and extend blocks add their
fields and the messages of their groups to two lists of the enclosing message or file, so those
triples speak of two paths at once (`body_located`, `extendBlock_located`).
-/

namespace ProtoSchema

variable {N : Int → Prop}

@[simp] theorem Slot.ofScalars_le_append {α : Type} (xs ys : List α) :
    (Slot.ofScalars xs).Le (Slot.ofScalars (xs ++ ys)) :=
  Slot.ofMessages_le_append (fun _ => .scalar) xs ys

theorem Slot.Le.trans {s s' s'' : Slot} (h : s.Le s') (h' : s'.Le s'') : s.Le s'' := by
  rcases s with (_ | v) | vs
  · -- an unset field is below every singular field, and no singular field is below a list
    rcases s'' with _ | vs''
    · trivial
    · rcases s' with (_ | _) | _
      · exact h'.elim
      · exact h'.elim
      · exact h.elim
  · obtain ⟨v', rfl, hv⟩ := Slot.Le.singular_some h
    obtain ⟨v'', rfl, hv'⟩ := Slot.Le.singular_some h'
    exact hv.trans hv'
  · obtain ⟨vs', rfl, hvs⟩ := Slot.Le.repeated h
    obtain ⟨vs'', rfl, hvs'⟩ := Slot.Le.repeated h'
    intro i v hv
    obtain ⟨v', hv', hle⟩ := hvs i v hv
    obtain ⟨v'', hv'', hle'⟩ := hvs' i v' hv'
    exact ⟨v'', hv'', hle.trans hle'⟩

theorem Slot.ofMessages_le_modify {α : Type} {view : α → Value} {g : α → α} (xs : List α) (i : Nat)
    (hg : ∀ j x, i = j → xs[j]? = some x → (view x).Le (view (g x))) :
    (Slot.ofMessages view xs).Le (Slot.ofMessages view (xs.modify i g)) := by
  refine Slot.ofMessages_le_ofMessages fun j x hx => ⟨if i = j then g x else x, ?_, ?_⟩
  · simp [List.getElem?_modify, hx]
  · split
    · exact hg j x ‹_› hx
    · exact Value.Le.refl _

theorem Value.admitsAfter_scalar {α : Type} {fs : List (Int × Slot)} {n : Int} (xs : List α) {i : Nat}
    {base : List Int} (hl : fs.lookup n = some (Slot.ofScalars xs)) (hi : i < xs.length) :
    (Value.message fs).AdmitsAfter N base (base ++ [n, (i : Int)]) :=
  ⟨[n, (i : Int)], rfl, .inl ⟨_, .element (w := .scalar) hl (by simp [hi]) .here⟩⟩

theorem Value.admitsAfter_append {α : Type} {view : α → Value} {fs : List (Int × Slot)} {n : Int}
    {xs : List α} {x : α} {base p : List Int} (hl : fs.lookup n = some (Slot.ofMessages view (xs ++ [x])))
    (h : (view x).AdmitsAfter N (base ++ [n, (xs.length : Int)]) p) : (Value.message fs).AdmitsAfter N base p :=
  Value.AdmitsAfter.of_slot hl (Slot.admitsAfter_push (by simpa using h))

theorem ReservedRange.admitsAfter_ends {r : ReservedRange} (hs : r.start.isSome) (ht : r.stop.isSome)
    {base p : List Int} (hp : p = base ∨ p = base ++ [1] ∨ p = base ++ [2]) : r.toValue.AdmitsAfter N base p := by
  rcases hp with rfl | rfl | rfl
  · exact Value.admitsAfter_self _ _
  · exact Value.admitsAfter_ofOption rfl hs
  · exact Value.admitsAfter_ofOption rfl ht

theorem ExtensionRange.admitsAfter_ends {r : ExtensionRange} (hs : r.start.isSome) (ht : r.stop.isSome)
    {base p : List Int} (hp : p = base ∨ p = base ++ [1] ∨ p = base ++ [2]) : r.toValue.AdmitsAfter N base p := by
  rcases hp with rfl | rfl | rfl
  · exact Value.admitsAfter_self _ _
  · exact Value.admitsAfter_ofOption rfl hs
  · exact Value.admitsAfter_ofOption rfl ht

namespace CompileM

variable {ctx : CompileContext}

/-! ### Enums -/

/-- What an enum body has built, as an enum with no name and no options. -/
def EnumBuild.draft (b : EnumBuild) : EnumDescriptor :=
  { value := b.values.toList, reservedRange := b.reservedRanges.toList, reservedName := b.reservedNames.toList }

theorem EnumBuild.draft_toValue (b : EnumBuild) :
    b.draft.toValue = .message [(1, .ofOption (none : Option String)),
      (2, .ofMessages EnumValueDescriptor.toValue b.values.toList),
      (3, .ofMessage EnumOptions.toValue none), (4, .ofMessages ReservedRange.toValue b.reservedRanges.toList),
      (5, .ofScalars b.reservedNames.toList)] := rfl

theorem EnumBuild.le_pushValue (b : EnumBuild) (v : EnumValueDescriptor) (s : Span) :
    b.draft.toValue.Le ({ b with values := b.values.push v, spans := b.spans.push s } : EnumBuild).draft.toValue := by
  rw [EnumBuild.draft_toValue, EnumBuild.draft_toValue]
  exact Value.le_message_of_forall₂ (by simp)

theorem EnumBuild.admitsAfter_pushValue {b : EnumBuild} {v : EnumValueDescriptor} {s : Span} {path p : List Int}
    (h : v.toValue.AdmitsAfter N (path ++ [2, (b.values.size : Int)]) p) :
    ({ b with values := b.values.push v, spans := b.spans.push s } : EnumBuild).draft.toValue.AdmitsAfter N path p := by
  rw [EnumBuild.draft_toValue]
  exact Value.admitsAfter_append (by simp only [Array.toList_push]; rfl) h

theorem EnumBuild.le_pushReserved (b : EnumBuild) (r : ReservedRange) :
    b.draft.toValue.Le ({ b with reservedRanges := b.reservedRanges.push r } : EnumBuild).draft.toValue := by
  rw [EnumBuild.draft_toValue, EnumBuild.draft_toValue]
  exact Value.le_message_of_forall₂ (by simp)

theorem EnumBuild.admitsAfter_pushReserved {b : EnumBuild} {r : ReservedRange} {path p : List Int}
    (h : r.toValue.AdmitsAfter N (path ++ [4, (b.reservedRanges.size : Int)]) p) :
    ({ b with reservedRanges := b.reservedRanges.push r } : EnumBuild).draft.toValue.AdmitsAfter N path p := by
  rw [EnumBuild.draft_toValue]
  exact Value.admitsAfter_append (by simp only [Array.toList_push]; rfl) h

theorem EnumBuild.le_pushName (b : EnumBuild) (n : String) :
    b.draft.toValue.Le ({ b with reservedNames := b.reservedNames.push n } : EnumBuild).draft.toValue := by
  rw [EnumBuild.draft_toValue, EnumBuild.draft_toValue]
  exact Value.le_message_of_forall₂ (by simp)

theorem EnumBuild.admitsAfter_pushName (b : EnumBuild) (n : String) (path : List Int) :
    ({ b with reservedNames := b.reservedNames.push n } : EnumBuild).draft.toValue.AdmitsAfter N path
      (path ++ [5, (b.reservedNames.size : Int)]) := by
  rw [EnumBuild.draft_toValue]
  exact Value.admitsAfter_scalar (b.reservedNames.toList ++ [n]) (by simp only [Array.toList_push]; rfl) (by simp)

theorem enumElement_located (path : List Int) (scope : String) (b : EnumBuild) (e : EnumElement) :
    Located ctx True (enumElement path scope b e) (fun b' => b.draft.toValue.Le b'.draft.toValue)
      (fun b' p => b'.draft.toValue.AdmitsAfter ctx.ExtensionNumber path p) := by
  cases e with
  | value v =>
    rw [enumElement]
    refine Located.locateDecl_bind ?_
    refine Located.locate_bind ?_
    refine Located.locate_bind ?_
    -- a number out of range is reported, and zero taken in its place
    dsimp only
    split
    on_goal 2 => refine Located.report_bind_keep ?_
    all_goals
      simp only [pure_bind]
      exact (interpretOptions_located enumValueOptions_viewed _ _ _).bind fun options => Located.pure fun _ =>
        ⟨⟨⟨⟨b.le_pushValue _ _, EnumBuild.admitsAfter_pushValue (Value.admitsAfter_self _ _)⟩,
          EnumBuild.admitsAfter_pushValue (Value.admitsAfter_ofOption rfl rfl)⟩,
          EnumBuild.admitsAfter_pushValue (Value.admitsAfter_ofOption rfl rfl)⟩,
          fun _ hp => EnumBuild.admitsAfter_pushValue (Value.admitsAfter_ofMessage rfl hp)⟩
  | option o =>
    rw [enumElement]
    exact Located.pure fun _ => Value.Le.refl _
  | reserved r =>
    obtain ⟨kind, decl⟩ := r
    cases kind with
    | ranges rs =>
      rw [enumElement]
      refine Located.locateDecl_bind ?_
      refine (Located.foldlM (fun _ b' => b.draft.toValue.Le b'.draft.toValue)
        (fun b' p => b'.draft.toValue.AdmitsAfter ctx.ExtensionNumber path p) rs [] b fun _ r b' _ => ?_).imp
          (fun _ => Value.Le.refl _) fun b' _ h => ⟨⟨h.1, ?_⟩, fun _ hp => hp⟩
      · refine ((rangeLocations_located _ r).frame fun _ => trivial).bind fun _ => ?_
        dsimp only
        repeat' (first | refine Located.report_bind_keep ?_ | split)
        all_goals exact Located.pure fun h =>
          ⟨⟨h.1.trans (b'.le_pushReserved _), fun _ hp => (b'.le_pushReserved _).admitsAfter hp⟩,
            fun _ hp => EnumBuild.admitsAfter_pushReserved (ReservedRange.admitsAfter_ends rfl rfl hp)⟩
      · exact Value.admitsAfter_list rfl
    | names ns =>
      rw [enumElement]
      refine Located.locateDecl_bind ?_
      refine (Located.foldlM (fun _ b' => b.draft.toValue.Le b'.draft.toValue)
        (fun b' p => b'.draft.toValue.AdmitsAfter ctx.ExtensionNumber path p) ns [] b fun _ n b' _ => ?_).imp
          (fun _ => Value.Le.refl _) fun b' _ h => ⟨⟨h.1, ?_⟩, fun _ hp => hp⟩
      · refine Located.locate_bind ?_
        exact Located.pure fun hle =>
          ⟨⟨hle.trans (b'.le_pushName _), fun _ hp => (b'.le_pushName _).admitsAfter hp⟩, b'.admitsAfter_pushName _ _⟩
      · exact Value.admitsAfter_list rfl

/-- An enum admits every path recorded while compiling it. -/
theorem enumeration_located (path : List Int) (scope : String) (e : Enum) :
    Located ctx True (enumeration path scope e) (fun _ => True) (fun d p => d.toValue.AdmitsAfter ctx.ExtensionNumber path p) := by
  unfold enumeration
  refine Located.locateDecl_bind ?_
  refine Located.locate_bind ?_
  -- the body only gains, statement by statement
  refine (Located.foldlM (fun _ _ => True) (fun b p => b.draft.toValue.AdmitsAfter ctx.ExtensionNumber path p) e.body [] {}
    fun _ x b _ => (enumElement_located path scope b x).imp id
      fun _ _ hle => ⟨⟨trivial, fun _ hp => hle.admitsAfter hp⟩, fun _ hp => hp⟩).bind fun b => ?_
  refine ((interpretOptions_located enumOptions_viewed _ _ _).frame fun _ => trivial).bind fun options => ?_
  dsimp only
  refine (Located.of_clean (Q := fun _ _ => False) (Clean.of_kept fun _ => validateEnum_spec _ _ _ _)
    fun L => validateEnum_locations L _ _ _ _).bind fun _ => Located.pure fun _ => ?_
  have hle : b.draft.toValue.Le (EnumDescriptor.toValue
      ⟨some e.name.value, b.values.toList, options, b.reservedRanges.toList, b.reservedNames.toList⟩) := by
    rw [EnumBuild.draft_toValue]
    exact Value.le_message_of_forall₂ (by simp)
  exact ⟨⟨⟨⟨⟨trivial, Value.admitsAfter_self _ _⟩, Value.admitsAfter_ofOption rfl rfl⟩,
    fun _ hp => hle.admitsAfter hp⟩, fun _ hp => Value.admitsAfter_ofMessage rfl hp⟩, fun _ h => h.elim⟩

/-! ### Messages -/

def MessageBuild.slots (b : MessageBuild) : List (Int × Slot) :=
  [(1, .ofOption (none : Option String)), (2, .ofMessages FieldDescriptor.toValue b.fields.toList),
    (3, .ofMessages MessageDescriptor.toValue b.nested.toList), (4, .ofMessages EnumDescriptor.toValue b.enums.toList),
    (5, .ofMessages ExtensionRange.toValue b.ranges.toList),
    (6, .ofMessages FieldDescriptor.toValue b.extensions.toList), (7, .ofMessage MessageOptions.toValue none),
    (8, .ofMessages OneofDescriptor.toValue b.oneofs.toList),
    (9, .ofMessages ReservedRange.toValue b.reservedRanges.toList), (10, .ofScalars b.reservedNames.toList)]

/-- What a message body has built, as a message with no name and no options. -/
def MessageBuild.draft (b : MessageBuild) : MessageDescriptor :=
  .mk none b.fields.toList b.nested.toList b.enums.toList b.ranges.toList b.extensions.toList none
    b.oneofs.toList b.reservedRanges.toList b.reservedNames.toList

theorem MessageBuild.draft_toValue (b : MessageBuild) : b.draft.toValue = .message b.slots :=
  MessageDescriptor.toValue_mk ..

theorem MessageBuild.le_of_slots {b b' : MessageBuild}
    (h : List.Forall₂ (fun a c => a.1 = c.1 ∧ a.2.Le c.2) b.slots b'.slots) :
    b.draft.toValue.Le b'.draft.toValue := by
  rw [MessageBuild.draft_toValue, MessageBuild.draft_toValue]
  exact Value.le_message_of_forall₂ h

theorem MessageBuild.admitsAfter_of_slot {b : MessageBuild} {n : Int} {s : Slot} {path p : List Int}
    (hl : b.slots.lookup n = some s) (h : s.AdmitsAfter N (path ++ [n]) p) : b.draft.toValue.AdmitsAfter N path p := by
  rw [MessageBuild.draft_toValue]
  exact Value.AdmitsAfter.of_slot hl h

theorem MessageBuild.admitsAfter_append {b : MessageBuild} {n : Int} {α : Type} {view : α → Value}
    {xs : List α} {x : α} {path p : List Int} (hl : b.slots.lookup n = some (Slot.ofMessages view (xs ++ [x])))
    (h : (view x).AdmitsAfter N (path ++ [n, (xs.length : Int)]) p) : b.draft.toValue.AdmitsAfter N path p := by
  rw [MessageBuild.draft_toValue]
  exact Value.admitsAfter_append hl h

theorem startMessage_located (path : List Int) (decl : Declaration) (name : Spanned String) :
    Located ctx True (startMessage path decl name) (fun _ => True) (fun _ p => p = path ∨ p = path ++ [1]) := by
  unfold startMessage
  refine Located.locateDecl_bind ?_
  exact Located.locate fun _ => ⟨⟨trivial, .inl rfl⟩, .inr rfl⟩

theorem syntheticOneofs_le (fields : Array FieldDescriptor) (oneofs : Array OneofDescriptor)
    (indices : List Nat) :
    (Slot.ofMessages FieldDescriptor.toValue fields.toList).Le
        (Slot.ofMessages FieldDescriptor.toValue (syntheticOneofs fields oneofs indices).1.toList) ∧
      oneofs.toList <+: (syntheticOneofs fields oneofs indices).2.toList := by
  unfold syntheticOneofs
  dsimp only
  refine List.foldlRecOn (motive := fun (acc : Array FieldDescriptor × Array OneofDescriptor × List String) =>
    (Slot.ofMessages FieldDescriptor.toValue fields.toList).Le (Slot.ofMessages FieldDescriptor.toValue acc.1.toList) ∧
      oneofs.toList <+: acc.2.1.toList) _ _ ⟨Slot.le_refl _, List.prefix_refl _⟩ ?_
  rintro ⟨fs, os, taken⟩ ⟨hf, ho⟩ i _
  refine ⟨hf.trans ?_, ho.trans (by simp)⟩
  rw [Array.toList_modify]
  exact Slot.ofMessages_le_modify _ _ fun _ _ _ _ => Value.le_message_of_forall₂ (by simp)

theorem finishMessage_located (path : List Int) (full : String) (name : Spanned String) (b : MessageBuild) :
    Located ctx True (finishMessage path full name b)
      (fun m => b.draft.toValue.Le m.toValue ∧ m.toValue.AdmitsAfter ctx.ExtensionNumber path (path ++ [1]))
      (fun m p => m.toValue.AdmitsAfter ctx.ExtensionNumber path p) := by
  unfold finishMessage
  refine (interpretOptions_located messageOptions_viewed _ _ _).bind fun options => ?_
  dsimp only
  generalize hp : (if b.proto3Optional.isEmpty = true then (b.fields, b.oneofs)
    else syntheticOneofs b.fields b.oneofs b.proto3Optional.toList) = p
  have hgrow : (Slot.ofMessages FieldDescriptor.toValue b.fields.toList).Le
      (Slot.ofMessages FieldDescriptor.toValue p.1.toList) ∧ b.oneofs.toList <+: p.2.toList := by
    rw [← hp]
    split
    · exact ⟨Slot.le_refl _, List.prefix_refl _⟩
    · exact syntheticOneofs_le _ _ _
  obtain ⟨hf, ⟨rest, ho⟩⟩ := hgrow
  refine (Located.of_clean (Q := fun _ _ => False) (Clean.of_kept fun _ => validateMessage_spec _ _ _ _ _ _)
    fun L => validateMessage_locations L _ _ _ _ _ _).bind fun _ => Located.pure fun _ => ?_
  rw [MessageDescriptor.toValue_mk]
  refine ⟨⟨⟨?_, Value.admitsAfter_ofOption rfl rfl⟩, fun _ hp => Value.admitsAfter_ofMessage rfl hp⟩,
    fun _ h => h.elim⟩
  rw [MessageBuild.draft_toValue, ← ho]
  exact Value.le_message_of_forall₂ (by simp [MessageBuild.slots, hf])

theorem startExtend_located (path : List Int) (scope : String) (extendee : Spanned String) (decl : Declaration) :
    Located ctx True (startExtend path scope extendee decl) (fun r => r.isSome) (fun _ p => p = path) := by
  unfold startExtend
  refine Located.locateDecl_bind ?_
  refine (Located.of_clean (Q := fun _ _ => False) (resolveMessage_clean _ _)
    fun L => resolveMessage_locations L _ _).bind fun resolved => ?_
  repeat' (first | refine Located.report_bind_keep ?_ | split | refine Located.read ?_)
  all_goals exact Located.pure fun h => ⟨⟨h, rfl⟩, fun _ h => h.elim⟩

theorem finishExtension_located (path : List Int) (extendeeSpan : Span) (extendee : Option (String × Symbol))
    (fd : FieldDescriptor) (number : Spanned Int) :
    Located ctx extendee.isSome (finishExtension path extendeeSpan extendee fd number)
      (fun r => fd.toValue.Le r.toValue) (fun r p => r.toValue.AdmitsAfter ctx.ExtensionNumber path p) := by
  unfold finishExtension
  refine Located.locate_bind ?_
  split
  · exact Located.pure fun h => by simp at h
  · -- a number outside the extended message's ranges is reported
    repeat' (first | refine Located.report_bind_keep ?_ | split)
    all_goals exact Located.pure fun _ => ⟨fd.le_setExtendee _, Value.admitsAfter_ofOption rfl rfl⟩

theorem MessageBuild.le_pushReserved (b : MessageBuild) (r : ReservedRange) :
    b.draft.toValue.Le ({ b with reservedRanges := b.reservedRanges.push r } : MessageBuild).draft.toValue :=
  MessageBuild.le_of_slots (by simp [MessageBuild.slots])

theorem MessageBuild.le_pushName (b : MessageBuild) (n : String) :
    b.draft.toValue.Le ({ b with reservedNames := b.reservedNames.push n } : MessageBuild).draft.toValue :=
  MessageBuild.le_of_slots (by simp [MessageBuild.slots])

theorem reservedOf_located (path : List Int) (r : Reserved) (b : MessageBuild) :
    Located ctx True (reservedOf path r b) (fun b' => b.draft.toValue.Le b'.draft.toValue)
      (fun b' p => b'.draft.toValue.AdmitsAfter ctx.ExtensionNumber path p) := by
  unfold reservedOf
  split
  · refine Located.locateDecl_bind ?_
    refine (Located.foldlM (fun _ b' => b.draft.toValue.Le b'.draft.toValue)
      (fun b' p => b'.draft.toValue.AdmitsAfter ctx.ExtensionNumber path p) _ [] b fun _ range b' _ => ?_).imp
        (fun _ => Value.Le.refl _)
        fun b' _ h => ⟨⟨h.1, MessageBuild.admitsAfter_of_slot rfl Slot.admitsAfter_base⟩, fun _ hp => hp⟩
    refine ((rangeLocations_located _ range).frame fun _ => trivial).bind fun _ => ?_
    dsimp only
    refine (Located.of_clean (Q := fun _ _ => False) (Clean.of_kept fun _ => checkRange_spec _ _ _ _ _)
      fun L => checkRange_locations L _ _ _ _ _).bind fun _ => Located.pure fun h => ?_
    have hle := h.1
    have hpush := b'.le_pushReserved
      { start := some (wrapInt32 range.bounds.1), stop := some (wrapInt32 range.bounds.2) }
    exact ⟨⟨⟨hle.trans hpush, fun _ hp => hpush.admitsAfter hp⟩, fun _ hp =>
      MessageBuild.admitsAfter_append (by simp only [MessageBuild.slots, Array.toList_push]; rfl)
        (ReservedRange.admitsAfter_ends rfl rfl hp)⟩, fun _ h => h.elim⟩
  · refine Located.locateDecl_bind ?_
    refine (Located.foldlM (fun _ b' => b.draft.toValue.Le b'.draft.toValue)
      (fun b' p => b'.draft.toValue.AdmitsAfter ctx.ExtensionNumber path p) _ [] b fun _ n b' _ => ?_).imp
        (fun _ => Value.Le.refl _)
        fun b' _ h => ⟨⟨h.1, MessageBuild.admitsAfter_of_slot rfl Slot.admitsAfter_base⟩, fun _ hp => hp⟩
    refine Located.locate_bind (Located.pure fun hle => ?_)
    have hname : ({ b' with reservedNames := b'.reservedNames.push n.value } : MessageBuild).draft.toValue.AdmitsAfter ctx.ExtensionNumber
        path (path ++ [10, (b'.reservedNames.size : Int)]) := by
      rw [MessageBuild.draft_toValue]
      exact Value.admitsAfter_scalar (b'.reservedNames.toList ++ [n.value])
        (by simp only [MessageBuild.slots, Array.toList_push]; rfl) (by simp)
    exact ⟨⟨hle.trans (b'.le_pushName _), fun _ hp => (b'.le_pushName _).admitsAfter hp⟩, hname⟩

theorem foldlM_rangeOptions_located {f : MessageBuild → Nat → CompileM MessageBuild} (first : Nat)
    (path : List Int)
    (hf : ∀ b k, Located ctx (first + k < b.ranges.size ∧ ∀ x ∈ b.ranges[first + k]?, x.options = none) (f b k)
      (fun b' => b.draft.toValue.Le b'.draft.toValue ∧ b'.ranges.size = b.ranges.size ∧
        ∀ j, j ≠ first + k → b'.ranges[j]? = b.ranges[j]?)
      (fun b' p => b'.draft.toValue.AdmitsAfter ctx.ExtensionNumber path p)) :
    ∀ n b, Located ctx (first + n ≤ b.ranges.size ∧ ∀ j, first ≤ j → ∀ x ∈ b.ranges[j]?, x.options = none)
      ((List.range n).foldlM f b)
      (fun b' => b.draft.toValue.Le b'.draft.toValue ∧ b'.ranges.size = b.ranges.size ∧
        ∀ j, first + n ≤ j → ∀ x ∈ b'.ranges[j]?, x.options = none)
      (fun b' p => b'.draft.toValue.AdmitsAfter ctx.ExtensionNumber path p)
  | 0, b => by
    rw [List.range_zero, List.foldlM_nil]
    exact Located.pure fun h => ⟨Value.Le.refl _, rfl, fun j hj => h.2 j (by omega)⟩
  | n + 1, b => by
    simp only [List.range_succ, List.foldlM_append, List.foldlM_cons, List.foldlM_nil, bind_pure]
    -- the ranges before `first + n` have had their turn; the one at `first + n` has not
    refine ((foldlM_rangeOptions_located first path hf n b).frame fun h => ⟨by omega, h.2⟩).bind fun b₁ => ?_
    refine (hf b₁ n).imp ?_ ?_
    · rintro ⟨⟨hn, -⟩, -, hsize, hnone⟩
      exact ⟨by omega, hnone _ le_rfl⟩
    · rintro b₂ ⟨-, hle₁, hsize₁, hnone⟩ ⟨hle₂, hsize₂, hsame⟩
      refine ⟨⟨⟨hle₁.trans hle₂, hsize₂.trans hsize₁, fun j hj x hx => ?_⟩, fun _ hp => hle₂.admitsAfter hp⟩,
        fun _ hp => hp⟩
      rw [hsame j (by omega)] at hx
      exact hnone j (by omega) x hx

theorem MessageBuild.le_pushRange (b : MessageBuild) (r : ExtensionRange) :
    b.draft.toValue.Le ({ b with ranges := b.ranges.push r } : MessageBuild).draft.toValue :=
  MessageBuild.le_of_slots (by simp [MessageBuild.slots])

theorem MessageBuild.le_setRangeOptions (b : MessageBuild) (i : Nat) (o : Option PlainOptions)
    (h : ∀ x ∈ b.ranges[i]?, x.options = none) :
    b.draft.toValue.Le
      ({ b with ranges := b.ranges.modify i fun x => { x with options := o } } : MessageBuild).draft.toValue := by
  have hr : (Slot.ofMessages ExtensionRange.toValue b.ranges.toList).Le
      (Slot.ofMessages ExtensionRange.toValue (b.ranges.toList.modify i fun x => { x with options := o })) := by
    refine Slot.ofMessages_le_modify _ _ fun j x hij hx => ?_
    subst hij
    have hnone : x.options = none := h x (by simpa using hx)
    exact Value.le_message_of_forall₂ (by simp [hnone])
  exact MessageBuild.le_of_slots (by simp [MessageBuild.slots, Array.toList_modify, hr])

theorem extensionRanges_located (path : List Int) (full : String) (r : ExtensionRanges) (b : MessageBuild) :
    Located ctx True (extensionRanges path full r b) (fun b' => b.draft.toValue.Le b'.draft.toValue)
      (fun b' p => b'.draft.toValue.AdmitsAfter ctx.ExtensionNumber path p) := by
  unfold extensionRanges
  refine Located.locateDecl_bind ?_
  dsimp only
  -- the ranges are appended without options, each at the index it was recorded at
  refine ((Located.foldlM (fun _ b' => b.draft.toValue.Le b'.draft.toValue ∧ b.ranges.size ≤ b'.ranges.size ∧
      ∀ j, b.ranges.size ≤ j → ∀ x ∈ b'.ranges[j]?, x.options = none)
    (fun b' p => b'.draft.toValue.AdmitsAfter ctx.ExtensionNumber path p) _ [] b fun _ range b' _ => ?_).frame
      fun _ => ⟨Value.Le.refl _, le_rfl, fun j hj x hx => ?_⟩).bind fun b₁ => ?_
  · refine ((rangeLocations_located _ range).frame fun _ => trivial).bind fun _ => ?_
    refine (Located.of_clean (Q := fun _ _ => False) (Clean.of_kept fun _ => checkRange_spec _ _ _ _ _)
      fun L => checkRange_locations L _ _ _ _ _).bind fun _ => Located.pure fun h => ?_
    obtain ⟨⟨hle, hsize, hnone⟩, -⟩ := h
    have hpush := b'.le_pushRange
      { start := some (wrapInt32 range.bounds.1), stop := some (wrapInt32 range.bounds.2) }
    refine ⟨⟨⟨⟨hle.trans hpush, by simp only [Array.size_push]; omega, fun j hj x hx => ?_⟩,
      fun _ hp => hpush.admitsAfter hp⟩, fun _ hp => MessageBuild.admitsAfter_append
        (by simp only [MessageBuild.slots, Array.toList_push]; rfl) (ExtensionRange.admitsAfter_ends rfl rfl hp)⟩,
      fun _ h => h.elim⟩
    rw [Array.getElem?_push] at hx
    split at hx
    · obtain rfl := Option.mem_some_iff.mp hx
      rfl
    · exact hnone j hj x hx
  · rw [Array.getElem?_eq_none hj] at hx
    cases hx
  · split
    · exact Located.pure fun h =>
        ⟨⟨h.2.1.1, MessageBuild.admitsAfter_of_slot rfl Slot.admitsAfter_base⟩, fun _ hp => hp⟩
    refine (foldlM_rangeOptions_located b.ranges.size path (fun b' k => ?_) _ b₁).imp ?_ ?_
    · -- the range at `first + k` has no options yet, and gets those of the statement
      refine ((interpretOptions_located (plainOptions_viewed _) _ _ _).frame fun _ => trivial).bind fun options => ?_
      refine Located.pure fun h => ?_
      obtain ⟨⟨hk, hnone⟩, -⟩ := h
      obtain ⟨x, hx⟩ : ∃ x, b'.ranges[b.ranges.size + k]? = some x := ⟨_, Array.getElem?_eq_getElem hk⟩
      have hi : (b'.ranges.modify (b.ranges.size + k) fun x => { x with options := options }).toList[b.ranges.size + k]? =
          some { x with options := options } := by
        simp [hx]
      refine ⟨⟨b'.le_setRangeOptions _ options hnone, Array.size_modify, fun j hj => ?_⟩, fun p hp => ?_⟩
      · rw [Array.getElem?_modify, if_neg (Ne.symm hj)]
      · obtain ⟨o, rfl, ho⟩ := hp
        have ho' : o.toValue.AdmitsAfter ctx.ExtensionNumber (path ++ [5] ++ [((b.ranges.size + k : Nat) : Int)] ++ [3]) p := by
          simpa using ho
        have hr : (ExtensionRange.toValue { x with options := some o }).AdmitsAfter ctx.ExtensionNumber
            (path ++ [5] ++ [((b.ranges.size + k : Nat) : Int)]) p :=
          Value.admitsAfter_ofMessage rfl ⟨o, rfl, ho'⟩
        exact MessageBuild.admitsAfter_of_slot rfl (Slot.admitsAfter_getElem? hi hr)
    · rintro ⟨_, ⟨_, hsize, hnone⟩, _⟩
      exact ⟨by omega, hnone⟩
    · rintro b₂ ⟨_, ⟨hle₁, _⟩, _⟩ ⟨hle₂, _⟩
      exact ⟨⟨⟨hle₁.trans hle₂, MessageBuild.admitsAfter_of_slot rfl Slot.admitsAfter_base⟩,
        fun _ hp => hle₂.admitsAfter hp⟩, fun _ hp => hp⟩

/-- Every path a message body records is admitted by the build it returns, and the build only
gains; a group's paths are admitted by its field or by its message, and the paths of an extend
block's members by the two lists it appends to. The joint induction follows the recursive block
of the message compiler, one case per equation. -/
theorem body_located :
    (∀ path full body (b : MessageBuild),
      Located ctx True (elements path full body b) (fun b' => b.draft.toValue.Le b'.draft.toValue)
        (fun b' p => b'.draft.toValue.AdmitsAfter ctx.ExtensionNumber path p)) ∧
    (∀ path full (e : MessageElement) (b : MessageBuild),
      Located ctx True (element path full e b) (fun b' => b.draft.toValue.Le b'.draft.toValue)
        (fun b' p => b'.draft.toValue.AdmitsAfter ctx.ExtensionNumber path p)) ∧
    (∀ extBase typeBase scope extendeeSpan extendee body
        (acc : Array FieldDescriptor × Array MessageDescriptor),
      Located ctx extendee.isSome (extendMembers extBase typeBase scope extendeeSpan extendee body acc)
        (fun r => (Slot.ofMessages FieldDescriptor.toValue acc.1.toList).Le
            (Slot.ofMessages FieldDescriptor.toValue r.1.toList) ∧
          (Slot.ofMessages MessageDescriptor.toValue acc.2.toList).Le
            (Slot.ofMessages MessageDescriptor.toValue r.2.toList))
        (fun r p => (Slot.ofMessages FieldDescriptor.toValue r.1.toList).AdmitsAfter ctx.ExtensionNumber extBase p ∨
          (Slot.ofMessages MessageDescriptor.toValue r.2.toList).AdmitsAfter ctx.ExtensionNumber typeBase p)) ∧
    (∀ fieldPath typePath scope site (g : Group),
      Located ctx True (group fieldPath typePath scope site g) (fun _ => True)
        (fun r p => r.1.toValue.AdmitsAfter ctx.ExtensionNumber fieldPath p ∨ r.2.toValue.AdmitsAfter ctx.ExtensionNumber typePath p)) ∧
    (∀ path full index body (acc : MessageBuild × Nat),
      Located ctx True (oneofMembers path full index body acc)
        (fun r => acc.1.draft.toValue.Le r.1.draft.toValue) (fun r p => r.1.draft.toValue.AdmitsAfter ctx.ExtensionNumber path p)) := by
  apply elements.mutual_induct
  case case1 =>
    intro path full f b
    rw [element]
    refine ((plainField_located _ _ f .message).frame fun _ => trivial).bind fun fd => Located.pure fun _ => ?_
    -- the index of a proto3 `optional` field is recorded, which the draft does not read
    split
    all_goals exact ⟨MessageBuild.le_of_slots (by simp [MessageBuild.slots]), fun _ hp =>
      MessageBuild.admitsAfter_append (by simp only [MessageBuild.slots, Array.toList_push]; rfl) hp⟩
  case case2 =>
    intro path full m b
    rw [element]
    refine ((mapField_located _ _ _ m).frame fun _ => trivial).bind fun r => Located.pure fun _ => ?_
    refine ⟨MessageBuild.le_of_slots (by simp [MessageBuild.slots]), fun _ hp => ?_⟩
    rcases hp with hp | hp
    · exact MessageBuild.admitsAfter_append (by simp only [MessageBuild.slots, Array.toList_push]; rfl) hp
    · exact MessageBuild.admitsAfter_append (by simp only [MessageBuild.slots, Array.toList_push]; rfl) hp
  case case3 =>
    intro path full g b ih
    rw [element]
    refine (ih.frame fun _ => trivial).bind fun r => Located.pure fun _ => ?_
    refine ⟨MessageBuild.le_of_slots (by simp [MessageBuild.slots]), fun _ hp => ?_⟩
    rcases hp with hp | hp
    · exact MessageBuild.admitsAfter_append (by simp only [MessageBuild.slots, Array.toList_push]; rfl) hp
    · exact MessageBuild.admitsAfter_append (by simp only [MessageBuild.slots, Array.toList_push]; rfl) hp
  case case4 =>
    intro path full name body decl b index ih
    rw [element]
    refine Located.locateDecl_bind ?_
    refine Located.locate_bind ?_
    refine ((interpretOptions_located (plainOptions_viewed _) _ _ _).frame fun _ => trivial).bind
      fun options => ?_
    refine ((ih options).frame fun _ => trivial).bind fun r => ?_
    obtain ⟨b', members⟩ := r
    dsimp only
    repeat' (first | refine Located.report_bind_keep ?_ | split)
    all_goals
      refine Located.pure fun h => ?_
      have hle := h.2
      have hone : ∀ p, OneofDescriptor.toValue { name := some name.value, options := options } |>.AdmitsAfter ctx.ExtensionNumber
          (path ++ [8, (b.oneofs.size : Int)]) p → b'.draft.toValue.AdmitsAfter ctx.ExtensionNumber path p :=
        fun _ hp => hle.admitsAfter
          (MessageBuild.admitsAfter_append (by simp only [MessageBuild.slots, Array.toList_push]; rfl) hp)
      exact ⟨⟨⟨⟨(MessageBuild.le_of_slots (by simp [MessageBuild.slots])).trans hle,
        hone _ (Value.admitsAfter_self _ _)⟩, hone _ (Value.admitsAfter_ofOption rfl rfl)⟩,
        fun _ hp => hone _ (Value.admitsAfter_ofMessage rfl hp)⟩, fun _ hp => hp⟩
  case case5 =>
    intro path full name body decl b mpath mfull ih
    rw [element]
    refine ((startMessage_located _ _ _).frame fun _ => trivial).bind fun _ => ?_
    refine (ih.frame fun _ => trivial).bind fun mb => ?_
    refine ((finishMessage_located _ _ _ mb).frame fun _ => trivial).bind fun m => Located.pure ?_
    rintro ⟨-, hmb, hname⟩
    have hnest : ∀ p, m.toValue.AdmitsAfter ctx.ExtensionNumber mpath p →
        ({ b with nested := b.nested.push m } : MessageBuild).draft.toValue.AdmitsAfter ctx.ExtensionNumber path p :=
      fun _ hp => MessageBuild.admitsAfter_append (by simp only [MessageBuild.slots, Array.toList_push]; rfl) hp
    refine ⟨⟨⟨MessageBuild.le_of_slots (by simp [MessageBuild.slots]), fun _ hp => ?_⟩,
      fun _ hp => hnest _ (hmb.admitsAfter hp)⟩, hnest⟩
    rcases hp with rfl | rfl
    · exact hnest _ (Value.admitsAfter_self _ _)
    · exact hnest _ hname
  case case6 =>
    intro path full e b
    rw [element]
    exact ((enumeration_located _ _ e).frame fun _ => trivial).bind fun d => Located.pure fun _ =>
      ⟨MessageBuild.le_of_slots (by simp [MessageBuild.slots]), fun _ hp =>
        MessageBuild.admitsAfter_append (by simp only [MessageBuild.slots, Array.toList_push]; rfl) hp⟩
  case case7 =>
    intro path full extendee body decl b ih
    rw [element]
    refine (startExtend_located _ _ _ _).bind fun resolved => (ih resolved).bind fun r => Located.pure ?_
    rintro ⟨hext, hnest⟩
    refine ⟨⟨MessageBuild.le_of_slots (by simp [MessageBuild.slots, hext, hnest]), fun _ hp => ?_⟩,
      fun _ hp => ?_⟩
    · subst hp
      exact MessageBuild.admitsAfter_of_slot rfl Slot.admitsAfter_base
    · rcases hp with hp | hp
      · exact MessageBuild.admitsAfter_of_slot rfl hp
      · exact MessageBuild.admitsAfter_of_slot rfl hp
  case case8 =>
    intro path full r b
    rw [element]
    exact extensionRanges_located path full r b
  case case9 =>
    intro path full r b
    rw [element]
    exact reservedOf_located path r b
  case case10 =>
    intro path full o b
    rw [element]
    exact Located.pure fun _ => MessageBuild.le_of_slots (by simp [MessageBuild.slots])
  case case11 =>
    intro fieldPath typePath scope site label keywordSpan name number options body decl ih
    rw [group]
    refine (fieldShell_located _ _ _ _ _ _ _).bind fun fd => ?_
    dsimp only
    refine Located.locate_bind ?_
    refine Located.locate_bind ?_
    refine ((fieldOptionsOf_located _ _ _ _ _ _).frame fun h => ⟨.inl rfl, h.2⟩).bind fun fd' => ?_
    refine ((startMessage_located _ _ _).frame fun _ => trivial).bind fun _ => ?_
    refine (ih.frame fun _ => trivial).bind fun mb => ?_
    refine ((finishMessage_located _ _ _ mb).frame fun _ => trivial).bind fun m => Located.pure ?_
    rintro ⟨⟨⟨⟨⟨htn, -⟩, hle⟩, -⟩, -⟩, hmb, hname⟩
    have hset := (FieldDescriptor.le_setType htn _ _).trans hle
    refine ⟨⟨⟨⟨⟨⟨⟨trivial, fun _ hp => .inl (hset.admitsAfter hp)⟩,
      .inl (hle.admitsAfter (Value.admitsAfter_ofOption rfl rfl))⟩,
      .inl (hle.admitsAfter (Value.admitsAfter_ofOption rfl rfl))⟩, fun _ hp => .inl hp⟩,
      fun _ hp => .inr ?_⟩, fun _ hp => .inr (hmb.admitsAfter hp)⟩, fun _ hp => .inr hp⟩
    rcases hp with rfl | rfl
    · exact Value.admitsAfter_self _ _
    · exact hname
  case case12 =>
    intro path full b
    rw [elements]
    exact Located.pure fun _ => Value.Le.refl _
  case case13 =>
    intro path full e rest b ih₁ ih₂
    rw [elements]
    exact ih₁.bind fun b' => (ih₂ b').imp (fun _ => trivial) fun _ hle hle' =>
      ⟨⟨hle.trans hle', fun _ hp => hle'.admitsAfter hp⟩, fun _ hp => hp⟩
  case case14 =>
    intro path full index acc
    rw [oneofMembers]
    exact Located.pure fun _ => Value.Le.refl _
  case case15 =>
    intro path full index f rest b n ih
    rw [oneofMembers]
    refine ((plainField_located _ _ f (.oneof index)).frame fun _ => trivial).bind fun fd => ?_
    refine (ih fd).imp (fun _ => trivial) fun r _ hle => ?_
    exact ⟨⟨(MessageBuild.le_of_slots (by simp [MessageBuild.slots])).trans hle, fun _ hp => hle.admitsAfter
      (MessageBuild.admitsAfter_append (by simp only [MessageBuild.slots, Array.toList_push]; rfl) hp)⟩,
      fun _ hp => hp⟩
  case case16 =>
    intro path full index g rest b n ihg ih
    rw [oneofMembers]
    refine (ihg.frame fun _ => trivial).bind fun r => ?_
    obtain ⟨fd, nested⟩ := r
    refine (ih fd nested).imp (fun _ => trivial) fun r _ hle => ?_
    refine ⟨⟨(MessageBuild.le_of_slots (by simp [MessageBuild.slots])).trans hle, fun _ hp => ?_⟩, fun _ hp => hp⟩
    rcases hp with hp | hp
    · exact hle.admitsAfter
        (MessageBuild.admitsAfter_append (by simp only [MessageBuild.slots, Array.toList_push]; rfl) hp)
    · exact hle.admitsAfter
        (MessageBuild.admitsAfter_append (by simp only [MessageBuild.slots, Array.toList_push]; rfl) hp)
  case case17 =>
    intro path full index o rest acc ih
    rw [oneofMembers]
    exact ih
  case case18 =>
    intro extBase typeBase scope extendeeSpan extendee acc
    rw [extendMembers]
    exact Located.pure fun _ => ⟨Slot.le_refl _, Slot.le_refl _⟩
  case case19 =>
    intro extBase typeBase scope extendeeSpan extendee f rest exts types ih
    rw [extendMembers]
    refine ((plainField_located _ _ f .extension).frame fun _ => trivial).bind fun fd => ?_
    refine ((finishExtension_located _ _ _ fd f.number).frame fun h => h.1).bind fun fd' => ?_
    refine (ih fd').imp (fun h => h.1.1) fun r h hP => ?_
    obtain ⟨hext, htypes⟩ := hP
    have hnew : ∀ p, fd'.toValue.AdmitsAfter ctx.ExtensionNumber (extBase ++ [(exts.size : Int)]) p →
        (Slot.ofMessages FieldDescriptor.toValue r.1.toList).AdmitsAfter ctx.ExtensionNumber extBase p := by
      intro p hp
      refine hext.admitsAfter ?_
      rw [Array.toList_push]
      exact Slot.admitsAfter_push (by simpa using hp)
    exact ⟨⟨⟨⟨(by simp : (Slot.ofMessages FieldDescriptor.toValue exts.toList).Le _).trans hext, htypes⟩,
      fun _ hp => .inl (hnew _ (h.2.admitsAfter hp))⟩, fun _ hp => .inl (hnew _ hp)⟩, fun _ hp => hp⟩
  case case20 =>
    intro extBase typeBase scope extendeeSpan extendee g rest exts types epath ihg ih
    rw [extendMembers]
    refine (ihg.frame fun _ => trivial).bind fun r => ?_
    obtain ⟨fd, nested⟩ := r
    refine ((finishExtension_located _ _ _ fd g.number).frame fun h => h.1).bind fun fd' => ?_
    refine (ih nested fd').imp (fun h => h.1.1) fun r h hP => ?_
    obtain ⟨hext, htypes⟩ := hP
    have hnew : ∀ p, fd'.toValue.AdmitsAfter ctx.ExtensionNumber (extBase ++ [(exts.size : Int)]) p →
        (Slot.ofMessages FieldDescriptor.toValue r.1.toList).AdmitsAfter ctx.ExtensionNumber extBase p := by
      intro p hp
      refine hext.admitsAfter ?_
      rw [Array.toList_push]
      exact Slot.admitsAfter_push (by simpa using hp)
    have hnested : ∀ p, nested.toValue.AdmitsAfter ctx.ExtensionNumber (typeBase ++ [(types.size : Int)]) p →
        (Slot.ofMessages MessageDescriptor.toValue r.2.toList).AdmitsAfter ctx.ExtensionNumber typeBase p := by
      intro p hp
      refine htypes.admitsAfter ?_
      rw [Array.toList_push]
      exact Slot.admitsAfter_push (by simpa using hp)
    refine ⟨⟨⟨⟨(by simp : (Slot.ofMessages FieldDescriptor.toValue exts.toList).Le _).trans hext,
      (by simp : (Slot.ofMessages MessageDescriptor.toValue types.toList).Le _).trans htypes⟩,
      fun _ hp => ?_⟩, fun _ hp => .inl (hnew _ hp)⟩, fun _ hp => hp⟩
    rcases hp with hp | hp
    · exact .inl (hnew _ (h.2.admitsAfter hp))
    · exact .inr (hnested _ hp)

/-- A message admits every path recorded while compiling it. -/
theorem message_located (path : List Int) (scope : String) (m : Message) :
    Located ctx True (message path scope m) (fun _ => True) (fun md p => md.toValue.AdmitsAfter ctx.ExtensionNumber path p) := by
  obtain ⟨name, body, decl⟩ := m
  rw [message]
  refine ((startMessage_located _ _ _).frame fun _ => trivial).bind fun _ => ?_
  refine ((body_located.1 _ _ body {}).frame fun _ => trivial).bind fun b => ?_
  refine (finishMessage_located _ _ _ b).imp (fun _ => trivial) fun md _ h =>
    ⟨⟨⟨trivial, fun _ hp => ?_⟩, fun _ hp => h.1.admitsAfter hp⟩, fun _ hp => hp⟩
  rcases hp with rfl | rfl
  · exact Value.admitsAfter_self _ _
  · exact h.2

/-- An extend block's paths are admitted by the list of extensions at `extBase` or by the list
of messages at `typeBase` it appends to, and both lists only gain. -/
theorem extendBlock_located (extBase typeBase : List Int) (scope : String) (x : Extend)
    (acc : Array FieldDescriptor × Array MessageDescriptor) :
    Located ctx True (extendBlock extBase typeBase scope x acc)
      (fun r => (Slot.ofMessages FieldDescriptor.toValue acc.1.toList).Le
          (Slot.ofMessages FieldDescriptor.toValue r.1.toList) ∧
        (Slot.ofMessages MessageDescriptor.toValue acc.2.toList).Le
          (Slot.ofMessages MessageDescriptor.toValue r.2.toList))
      (fun r p => (Slot.ofMessages FieldDescriptor.toValue r.1.toList).AdmitsAfter ctx.ExtensionNumber extBase p ∨
        (Slot.ofMessages MessageDescriptor.toValue r.2.toList).AdmitsAfter ctx.ExtensionNumber typeBase p) := by
  obtain ⟨extendee, body, decl⟩ := x
  rw [extendBlock]
  refine (startExtend_located _ _ _ _).bind fun resolved => ?_
  refine (body_located.2.2.1 _ _ _ _ _ body acc).imp id fun r _ h => ⟨⟨h, fun _ hp => ?_⟩, fun _ hp => hp⟩
  subst hp
  exact .inl Slot.admitsAfter_base

end CompileM

end ProtoSchema
