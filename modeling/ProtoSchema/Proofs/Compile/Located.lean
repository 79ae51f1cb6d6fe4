import ProtoSchema.Proofs.Compile.Fields
import ProtoSchema.Proofs.Descriptor.Paths
import ProtoSchema.Proofs.SymbolTable.Declared

/-!
Where the compiler records locations. Every compiling function appends source locations
with paths read from its own arguments and the sizes of what it has built so far, before the
element they name is finished. `Located ctx H m P Q` says that `m` only appends
annotations and locations, and that a run of it appending no annotation, when `H` holds,
returns a value `a` with `P a` after appending only locations whose paths satisfy `Q a`.

The rules follow the binds of a `do` block, as those of `Clean` do. A location recorded early
is about a value finished later: the bind rule asks the rest of the block to carry every path
the first part admits over to its own value (`Located.bind`), and a recorded location becomes
an obligation on the value the rest returns (`Located.locate_bind`). A function that records
no location keeps the locations as they are, which the condition generator proves as
`report` does not touch them (`locationsAre`).

Option statements record the path of their options message followed by the number of the
option: a standard option sets the field of that number (`OptionsSchema.ViewedBy`), a custom
option is kept in the list of custom options, and its number is that of the extension it
resolves to (`CompileContext.ExtensionNumber`), so the options message returned admits the
path (`interpretOptions_located`).
-/

open Std.Do

namespace ProtoSchema

namespace CompileM

set_option mvcgen.warning false

variable {α β γ : Type} {ctx : CompileContext}

/-! ### Functions that record no location -/

/-- The locations recorded so far are `L`. -/
def locationsAre (L : Array SourceLocation) : Assertion (.arg CompileContext (.arg CompileState .pure)) :=
  fun _ s => ⌜s.locations = L⌝

section Keeps

variable (L : Array SourceLocation)

theorem report_locations (span : Span) (message : String) :
    ⦃locationsAre L⦄ report span message ⦃⇓ _ => locationsAre L⦄ := by
  mvcgen [report, locationsAre]

theorem resolveMessage_locations (name : Spanned String) (relativeTo : String) :
    ⦃locationsAre L⦄ resolveMessage name relativeTo ⦃⇓ _ => locationsAre L⦄ := by
  unfold resolveMessage resolve
  mvcgen [report_locations]

theorem fieldType_locations (ty : Spanned String) (relativeTo : String) :
    ⦃locationsAre L⦄ fieldType ty relativeTo ⦃⇓ _ => locationsAre L⦄ := by
  unfold fieldType resolve
  mvcgen [report_locations]

theorem resolveCustomOption_locations (optionsName scope : String) (decl : OptionDecl)
    (first : OptionNamePart) :
    ⦃locationsAre L⦄ resolveCustomOption optionsName scope decl first ⦃⇓ _ => locationsAre L⦄ := by
  unfold resolveCustomOption
  mvcgen [report_locations]

theorem fieldNumber_locations (number : Spanned Int) (site : FieldSite) :
    ⦃locationsAre L⦄ fieldNumber number site ⦃⇓ _ => locationsAre L⦄ := by
  unfold fieldNumber
  mvcgen [report_locations]

theorem checkRange_locations (r : NumberRange) (start stop limit : Int) (what : String) :
    ⦃locationsAre L⦄ checkRange r start stop limit what ⦃⇓ _ => locationsAre L⦄ := by
  unfold checkRange
  mvcgen [report_locations]

theorem validateMessage_locations (full : String) (fields : List FieldDescriptor)
    (reserved : List ReservedRange) (reservedNames : List String) (ranges : List ExtensionRange)
    (numbered : List (Int × String × Span)) :
    ⦃locationsAre L⦄ validateMessage full fields reserved reservedNames ranges numbered
      ⦃⇓ _ => locationsAre L⦄ := by
  unfold validateMessage
  mvcgen [report_locations] invariants
  | inv1 => ⇓ _ => locationsAre L
  | inv2 => ⇓ _ => locationsAre L
  | inv3 => ⇓ _ => locationsAre L
  | inv4 => ⇓ _ => locationsAre L
  | inv5 => ⇓ _ => locationsAre L
  | inv6 => ⇓ _ => locationsAre L
  | inv7 => ⇓ _ => locationsAre L
  | inv8 => ⇓ _ => locationsAre L

theorem validateEnum_locations (full : String) (name : Spanned String) (e : EnumDescriptor)
    (spans : List Span) :
    ⦃locationsAre L⦄ validateEnum full name e spans ⦃⇓ _ => locationsAre L⦄ := by
  unfold validateEnum
  split
  · mvcgen [report_locations]
  · mvcgen [report_locations] invariants
    | inv1 => ⇓ _ => locationsAre L
    | inv2 => ⇓ _ => locationsAre L
  · mvcgen [report_locations]

end Keeps

theorem locations_of_triple {m : CompileM α} (h : ∀ L, ⦃locationsAre L⦄ m ⦃⇓ _ => locationsAre L⦄)
    (ctx : CompileContext) (s : CompileState) : (m ctx s).2.locations = s.locations :=
  h s.locations ctx s rfl

/-! ### The triple -/

def Located (ctx : CompileContext) (H : Prop) (m : CompileM α) (P : α → Prop)
    (Q : α → List Int → Prop) : Prop :=
  ∀ s, ∃ new : List SourceLocation, (m ctx s).2.locations.toList = s.locations.toList ++ new ∧
    s.annotations.toList <+: (m ctx s).2.annotations.toList ∧
    ((m ctx s).2.annotations.size = s.annotations.size → H → P (m ctx s).1 ∧
      ∀ l ∈ new, Q (m ctx s).1 l.path)

variable {H H' : Prop} {m : CompileM α} {f : α → CompileM β} {P P' : α → Prop}
  {Q Q' : α → List Int → Prop}

theorem Located.clean (h : Located ctx H m P Q) : Clean ctx H m P := fun s => by
  obtain ⟨_, -, hg, hp⟩ := h s
  exact ⟨hg, fun hsize hH => (hp hsize hH).1⟩

theorem Located.of_clean (hc : Clean ctx H m P) (hk : ∀ L, ⦃locationsAre L⦄ m ⦃⇓ _ => locationsAre L⦄) :
    Located ctx H m P Q := fun s =>
  ⟨[], by rw [locations_of_triple hk, List.append_nil], (hc s).1,
    fun hsize hH => ⟨(hc s).2 hsize hH, by simp⟩⟩

theorem Located.pure {a : α} (h : H → P a) : Located ctx H (Pure.pure a) P Q :=
  fun _ => ⟨[], by simp [Pure.pure, ReaderT.pure, StateT.pure], List.prefix_refl _,
    fun _ hH => ⟨h hH, by simp⟩⟩

theorem Located.imp (hm : Located ctx H m P Q) (hH : H' → H)
    (hP : ∀ a, H' → P a → P' a ∧ ∀ p, Q a p → Q' a p) : Located ctx H' m P' Q' := fun s => by
  obtain ⟨new, hl, hg, hp⟩ := hm s
  refine ⟨new, hl, hg, fun hsize hH' => ?_⟩
  obtain ⟨hP₁, hQ⟩ := hp hsize (hH hH')
  obtain ⟨hP₂, htr⟩ := hP _ hH' hP₁
  exact ⟨hP₂, fun l hl => htr _ (hQ l hl)⟩

theorem Located.frame {H₀ : Prop} (hm : Located ctx H₀ m P Q) (hH : H → H₀) :
    Located ctx H m (fun a => H ∧ P a) Q :=
  hm.imp hH fun _ hH' hP => ⟨⟨hH', hP⟩, fun _ h => h⟩

/-- Sequencing: the rest of the block carries every path the first part admits over to its
own value. -/
theorem Located.bind {P₂ : β → Prop} {Q₂ : β → List Int → Prop} (hm : Located ctx H m P Q)
    (hf : ∀ a, Located ctx (P a) (f a) (fun b => P₂ b ∧ ∀ p, Q a p → Q₂ b p) Q₂) :
    Located ctx H (m >>= f) P₂ Q₂ := by
  intro s
  obtain ⟨new₁, hl₁, hg₁, hp₁⟩ := hm s
  obtain ⟨new₂, hl₂, hg₂, hp₂⟩ := hf (m ctx s).1 (m ctx s).2
  have hrun : (m >>= f) ctx s = f (m ctx s).1 ctx (m ctx s).2 := rfl
  rw [hrun]
  refine ⟨new₁ ++ new₂, by rw [hl₂, hl₁, List.append_assoc], hg₁.trans hg₂, fun hsize hH => ?_⟩
  have hn₁ := hg₁.length_le
  have hn₂ := hg₂.length_le
  simp only [Array.length_toList] at hn₁ hn₂
  obtain ⟨hP₁, hQ₁⟩ := hp₁ (by omega) hH
  obtain ⟨⟨hP₂, htr⟩, hQ₂⟩ := hp₂ (by omega) hP₁
  refine ⟨hP₂, fun l hl => ?_⟩
  rcases List.mem_append.mp hl with hl | hl
  · exact htr _ (hQ₁ l hl)
  · exact hQ₂ l hl

theorem Located.read {f : CompileContext → CompileM β} {P : β → Prop} {Q : β → List Int → Prop}
    (h : Located ctx H (f ctx) P Q) : Located ctx H (MonadReaderOf.read >>= f) P Q := h

theorem Located.get_bind {f : CompileState → CompileM β} {P : β → Prop} {Q : β → List Int → Prop}
    (h : ∀ σ, Located ctx H (f σ) P Q) : Located ctx H (get >>= f) P Q :=
  fun s => h s s

theorem locate_run (path : List Int) (span : Span) (comments : Option Comments) (ctx : CompileContext)
    (s : CompileState) :
    (locate path span comments ctx s).2.annotations = s.annotations ∧
      ∃ new : List SourceLocation, (locate path span comments ctx s).2.locations.toList =
        s.locations.toList ++ new ∧ ∀ l ∈ new, l.path = path := by
  obtain ⟨files, table, file, visible, proto3, sourceInfo⟩ := ctx
  cases sourceInfo
  · exact ⟨rfl, [], by simp [locate, bind, ReaderT.bind, StateT.bind, read, readThe, MonadReaderOf.read,
      ReaderT.read, pure, ReaderT.pure, StateT.pure], by simp⟩
  · cases comments <;> exact ⟨rfl, [_], Array.toList_push .., by simp⟩

/-- A recorded location is an obligation on the value the rest of the block returns. -/
theorem Located.locate_bind {P : β → Prop} {Q : β → List Int → Prop} {path : List Int} {span : Span}
    {comments : Option Comments} {f : Unit → CompileM β}
    (h : Located ctx H (f ()) (fun b => P b ∧ Q b path) Q) :
    Located ctx H (locate path span comments >>= f) P Q := by
  intro s
  obtain ⟨hann, new₁, hl₁, hpath⟩ := locate_run path span comments ctx s
  obtain ⟨new₂, hl₂, hg₂, hp₂⟩ := h (locate path span comments ctx s).2
  have hrun : (locate path span comments >>= f) ctx s = f () ctx (locate path span comments ctx s).2 := rfl
  rw [hrun]
  refine ⟨new₁ ++ new₂, by rw [hl₂, hl₁, List.append_assoc], by rw [← hann]; exact hg₂,
    fun hsize hH => ?_⟩
  obtain ⟨⟨hP, hQ₀⟩, hQ⟩ := hp₂ (by rw [hann]; exact hsize) hH
  refine ⟨hP, fun l hl => ?_⟩
  rcases List.mem_append.mp hl with hl | hl
  · exact hpath l hl ▸ hQ₀
  · exact hQ l hl

theorem Located.locateDecl_bind {P : β → Prop} {Q : β → List Int → Prop} {path : List Int}
    {d : Declaration} {f : Unit → CompileM β} (h : Located ctx H (f ()) (fun b => P b ∧ Q b path) Q) :
    Located ctx H (locateDecl path d >>= f) P Q :=
  Located.locate_bind h

theorem Located.locate {P : Unit → Prop} {Q : Unit → List Int → Prop} {path : List Int} {span : Span}
    {comments : Option Comments} (h : H → P () ∧ Q () path) :
    Located ctx H (locate path span comments) P Q := by
  have hb : CompileM.locate path span comments =
      (CompileM.locate path span comments >>= fun _ => Pure.pure () : CompileM Unit) := by
    rw [bind_pure]
  rw [hb]
  exact Located.locate_bind (Located.pure h)

/-- A report is never part of a clean run. -/
theorem Located.report {P : Unit → Prop} {Q : Unit → List Int → Prop} (span : Span) (message : String) :
    Located ctx H (report span message) P Q :=
  Located.of_clean (Clean.report span message) fun L => report_locations L span message

theorem Located.report_bind {P : β → Prop} {Q : β → List Int → Prop} {span : Span} {message : String}
    {f : Unit → CompileM β} (h : Located ctx False (f ()) P Q) :
    Located ctx H (CompileM.report span message >>= f) P Q :=
  (Located.report (P := fun _ => False) (Q := fun _ _ => False) span message).bind fun _ =>
    h.imp id fun _ hf _ => hf.elim

theorem Located.of_false (h : Located ctx H m P Q) : Located ctx False m P Q :=
  h.imp False.elim fun _ hf _ => hf.elim

theorem Located.check_bind {P : β → Prop} {Q : β → List Int → Prop} {c : Prop} [Decidable c]
    {span : Span} {message : String} {f : Unit → CompileM β} (h : Located ctx (H ∧ ¬c) (f ()) P Q) :
    Located ctx H (if c then CompileM.report span message >>= f else f ()) P Q := by
  split
  · exact Located.report_bind h.of_false
  · rename_i hc
    exact h.imp (fun hH => ⟨hH, hc⟩) fun _ _ hP => ⟨hP, fun _ h => h⟩

theorem Located.foldlM {f : β → γ → CompileM β} (I : List γ → β → Prop) (Q : β → List Int → Prop) :
    ∀ (l d : List γ) (init : β),
      (∀ d' x acc, x ∈ l → Located ctx (I d' acc) (f acc x)
        (fun acc' => I (d' ++ [x]) acc' ∧ ∀ p, Q acc p → Q acc' p) Q) →
      Located ctx (I d init) (l.foldlM f init) (fun acc => I (d ++ l) acc ∧ ∀ p, Q init p → Q acc p) Q
  | [], d, init, _ => by
    rw [List.foldlM_nil, List.append_nil]
    exact Located.pure fun h => ⟨h, fun _ h => h⟩
  | x :: l, d, init, hf => by
    rw [List.foldlM_cons]
    refine (hf d x init List.mem_cons_self).bind fun acc => ?_
    have hl := Located.foldlM I Q l (d ++ [x]) acc fun d' y acc' hy => hf d' y acc' (List.mem_cons_of_mem x hy)
    refine hl.imp (fun h => h.1) fun acc' hI hP =>
      ⟨⟨⟨by simpa using hP.1, fun p hp => hP.2 p (hI.2 p hp)⟩, hP.2⟩, fun _ h => h⟩

end CompileM

/-! ### Options messages -/

/-- `view` sees the options messages of the schema: setting a standard option sets the field
of its number and only adds to the message, and adding a custom option keeps it in the list of
custom options. -/
structure OptionsSchema.ViewedBy {α : Type} (schema : OptionsSchema α) (view : α → Value) : Prop where
  set_le : ∀ {o o' : α} {name : String} {v : OptionValue} {n : Int},
    schema.set o name v = .ok (some (o', n)) → (view o).Le (view o')
  set_designates : ∀ {o o' : α} {name : String} {v : OptionValue} {n : Int},
    schema.set o name v = .ok (some (o', n)) → (view o').Designates [n]
  add_le : ∀ o u, (view o).Le (view (schema.addUninterpreted o u))
  add_holds : ∀ o u, (view (schema.addUninterpreted o u)).HoldsCustom


-- In each schema below the last case of `set` is an unknown name, which sets nothing; every
-- other case sets one field, which the view shows at the option's number.

theorem fileOptions_viewed : fileOptions.ViewedBy FileOptions.toValue where
  set_le h := by
    simp only [fileOptions] at h
    split at h
    case h_21 => cases h
    all_goals
      obtain ⟨x, -, rfl, -⟩ := setWith_eq_some h
      exact Value.le_message_of_forall₂ (by simp [uninterpretedSlot])
  set_designates h := by
    simp only [fileOptions] at h
    split at h
    case h_21 => cases h
    all_goals
      obtain ⟨x, -, rfl, rfl⟩ := setWith_eq_some h
      exact Value.designates_singular rfl
  add_le _ _ := Value.le_message_of_forall₂ (by simp [uninterpretedSlot, fileOptions])
  add_holds _ _ := Value.holdsCustom_of_lookup rfl (by simp [fileOptions])

theorem messageOptions_viewed : messageOptions.ViewedBy MessageOptions.toValue where
  set_le h := by
    simp only [messageOptions] at h
    split at h
    case h_5 => cases h
    all_goals
      obtain ⟨x, -, rfl, -⟩ := setWith_eq_some h
      exact Value.le_message_of_forall₂ (by simp [uninterpretedSlot])
  set_designates h := by
    simp only [messageOptions] at h
    split at h
    case h_5 => cases h
    all_goals
      obtain ⟨x, -, rfl, rfl⟩ := setWith_eq_some h
      exact Value.designates_singular rfl
  add_le _ _ := Value.le_message_of_forall₂ (by simp [uninterpretedSlot, messageOptions])
  add_holds _ _ := Value.holdsCustom_of_lookup rfl (by simp [messageOptions])

theorem fieldOptions_viewed : fieldOptions.ViewedBy FieldOptions.toValue where
  set_le h := by
    simp only [fieldOptions] at h
    split at h
    case h_7 => cases h
    all_goals
      obtain ⟨x, -, rfl, -⟩ := setWith_eq_some h
      exact Value.le_message_of_forall₂ (by simp [uninterpretedSlot])
  set_designates h := by
    simp only [fieldOptions] at h
    split at h
    case h_7 => cases h
    all_goals
      obtain ⟨x, -, rfl, rfl⟩ := setWith_eq_some h
      exact Value.designates_singular rfl
  add_le _ _ := Value.le_message_of_forall₂ (by simp [uninterpretedSlot, fieldOptions])
  add_holds _ _ := Value.holdsCustom_of_lookup rfl (by simp [fieldOptions])

theorem enumOptions_viewed : enumOptions.ViewedBy EnumOptions.toValue where
  set_le h := by
    simp only [enumOptions] at h
    split at h
    case h_3 => cases h
    all_goals
      obtain ⟨x, -, rfl, -⟩ := setWith_eq_some h
      exact Value.le_message_of_forall₂ (by simp [uninterpretedSlot])
  set_designates h := by
    simp only [enumOptions] at h
    split at h
    case h_3 => cases h
    all_goals
      obtain ⟨x, -, rfl, rfl⟩ := setWith_eq_some h
      exact Value.designates_singular rfl
  add_le _ _ := Value.le_message_of_forall₂ (by simp [uninterpretedSlot, enumOptions])
  add_holds _ _ := Value.holdsCustom_of_lookup rfl (by simp [enumOptions])

theorem enumValueOptions_viewed : enumValueOptions.ViewedBy EnumValueOptions.toValue where
  set_le h := by
    simp only [enumValueOptions] at h
    split at h
    case h_2 => cases h
    all_goals
      obtain ⟨x, -, rfl, -⟩ := setWith_eq_some h
      exact Value.le_message_of_forall₂ (by simp [uninterpretedSlot])
  set_designates h := by
    simp only [enumValueOptions] at h
    split at h
    case h_2 => cases h
    all_goals
      obtain ⟨x, -, rfl, rfl⟩ := setWith_eq_some h
      exact Value.designates_singular rfl
  add_le _ _ := Value.le_message_of_forall₂ (by simp [uninterpretedSlot, enumValueOptions])
  add_holds _ _ := Value.holdsCustom_of_lookup rfl (by simp [enumValueOptions])

theorem serviceOptions_viewed : serviceOptions.ViewedBy ServiceOptions.toValue where
  set_le h := by
    simp only [serviceOptions] at h
    split at h
    case h_2 => cases h
    all_goals
      obtain ⟨x, -, rfl, -⟩ := setWith_eq_some h
      exact Value.le_message_of_forall₂ (by simp [uninterpretedSlot])
  set_designates h := by
    simp only [serviceOptions] at h
    split at h
    case h_2 => cases h
    all_goals
      obtain ⟨x, -, rfl, rfl⟩ := setWith_eq_some h
      exact Value.designates_singular rfl
  add_le _ _ := Value.le_message_of_forall₂ (by simp [uninterpretedSlot, serviceOptions])
  add_holds _ _ := Value.holdsCustom_of_lookup rfl (by simp [serviceOptions])

theorem methodOptions_viewed : methodOptions.ViewedBy MethodOptions.toValue where
  set_le h := by
    simp only [methodOptions] at h
    split at h
    case h_3 => cases h
    all_goals
      obtain ⟨x, -, rfl, -⟩ := setWith_eq_some h
      exact Value.le_message_of_forall₂ (by simp [uninterpretedSlot])
  set_designates h := by
    simp only [methodOptions] at h
    split at h
    case h_3 => cases h
    all_goals
      obtain ⟨x, -, rfl, rfl⟩ := setWith_eq_some h
      exact Value.designates_singular rfl
  add_le _ _ := Value.le_message_of_forall₂ (by simp [uninterpretedSlot, methodOptions])
  add_holds _ _ := Value.holdsCustom_of_lookup rfl (by simp [methodOptions])

theorem plainOptions_viewed (fullName : String) : (plainOptions fullName).ViewedBy PlainOptions.toValue where
  set_le h := by cases h
  set_designates h := by cases h
  add_le _ _ := Value.le_message_of_forall₂ (by simp [uninterpretedSlot, plainOptions])
  add_holds _ _ := Value.holdsCustom_of_lookup rfl (by simp [plainOptions])

/-- The numbers custom options are recorded under in a compile: the field numbers, as options
record them, of the extensions the table holds. -/
def CompileContext.ExtensionNumber (ctx : CompileContext) (k : Int) : Prop :=
  ∃ full s extendee scope n, ctx.table.symbols.get? full = some s ∧ s.info = .extension extendee scope n ∧
    k = wrapInt32 n

namespace CompileM

variable {α : Type} {ctx : CompileContext}

theorem resolveCustomOption_clean (optionsName scope : String) (decl : OptionDecl) (first : OptionNamePart) :
    Clean ctx True (resolveCustomOption optionsName scope decl first) fun r =>
      ∀ full number, r = some (full, number) → ctx.ExtensionNumber number := by
  unfold resolveCustomOption
  refine Clean.read ?_
  split
  · exact (Clean.report _ _).bind fun _ => Clean.pure False.elim
  · exact (Clean.report _ _).bind fun _ => Clean.pure False.elim
  · rename_i full s hfound
    split
    · rename_i extendee extensionScope number hinfo
      split
      · split
        · exact (Clean.report _ _).bind fun _ => Clean.pure False.elim
        · refine Clean.pure fun _ full' number' h => ?_
          cases h
          exact ⟨full, s, extendee, extensionScope, number, (SymbolTable.lookup_found hfound).1, hinfo, rfl⟩
      · exact Clean.pure fun _ _ _ h => by cases h
    · exact (Clean.report _ _).bind fun _ => Clean.pure False.elim

theorem interpretOne_located {schema : OptionsSchema α} {view : α → Value} (hv : schema.ViewedBy view)
    (path : List Int) (scope : String) (o : α) (seen : List String) (decl : OptionDecl) :
    Located ctx True (interpretOne schema path scope o seen decl)
      (fun r => (view o).Le (view r.1)) (fun r p => (view r.1).AdmitsAfter ctx.ExtensionNumber path p) := by
  unfold interpretOne
  split
  · exact Located.pure fun _ => Value.Le.refl _
  · dsimp only
    split
    · -- a standard option: only a name set for the first time through the schema is recorded
      split
      · exact Located.report_bind (Located.pure False.elim)
      · split
        · rename_i o' number hset
          split
          · exact Located.report_bind (Located.pure False.elim)
          · exact Located.locateDecl_bind (Located.pure fun _ =>
              ⟨hv.set_le hset, [number], rfl, .inl (hv.set_designates hset)⟩)
        · exact Located.report_bind (Located.pure False.elim)
        · exact Located.report_bind (Located.pure False.elim)
    · -- a custom option is kept in the list of custom options, under its extension's number
      refine (Located.of_clean (Q := fun _ _ => False) (resolveCustomOption_clean _ _ _ _)
        fun L => resolveCustomOption_locations L _ _ _ _).bind fun r => ?_
      split
      · exact Located.pure fun _ => ⟨Value.Le.refl _, fun _ h => h.elim⟩
      · rename_i full number
        split
        · exact Located.report_bind (Located.pure False.elim)
        · exact Located.locateDecl_bind (Located.pure fun hnumber =>
            ⟨⟨hv.add_le _ _, fun _ h => h.elim⟩, [number], rfl,
              Value.admits_custom (hv.add_holds _ _) (hnumber full number rfl)⟩)

/-- The options message of an element admits every path its statements record. -/
theorem interpretOptions_located [Inhabited α] {schema : OptionsSchema α} {view : α → Value}
    (hv : schema.ViewedBy view) (path : List Int) (scope : String) (decls : List OptionDecl) :
    Located ctx True (interpretOptions schema path scope decls) (fun _ => True)
      (fun r p => ∃ o, r = some o ∧ (view o).AdmitsAfter ctx.ExtensionNumber path p) := by
  unfold interpretOptions
  split
  · exact Located.pure fun _ => trivial
  · -- the options message only gains from statement to statement
    refine (Located.foldlM (fun _ _ => True) (fun acc p => (view acc.1).AdmitsAfter ctx.ExtensionNumber path p) decls [] _
      fun _ d acc _ => ?_).bind fun acc => ?_
    · exact (interpretOne_located hv path scope acc.1 acc.2 d).imp id
        fun _ _ hle => ⟨⟨trivial, fun _ => hle.admitsAfter⟩, fun _ h => h⟩
    · exact Located.pure fun _ => ⟨trivial, fun _ hp => ⟨_, rfl, hp⟩⟩

end CompileM

end ProtoSchema
