import ProtoSchema.Proofs.Source.Package

/-!
What the parser checks, at every depth of the syntax it returns. `NodeChecks` gives a check for
each kind of node that a rule of the grammar constrains: fields and groups with the place they are
declared (a message, a oneof or an extend block), map fields, and the `extensions` and `reserved`
statements of messages. `Throughout` holds of a file when every such node passes its check, at any
nesting depth. The parser's own checks are `parsedChecks`: the rules of the file's version on
labels, groups, explicit defaults and extension ranges, and range bounds that fit a signed 64-bit
integer. Every file the parser returns passes them throughout (`parseSchema_throughout`), and so
passes every set of checks they imply. The version is part of what the parser reads, fixed for the
whole file once its version statement is read, so each test a step makes of it is a test of the
file's version. The parser's steps are read through `Returns`, what a step returns whenever it
succeeds.
-/

namespace ProtoSchema

/-- A check for each kind of node of a schema's syntax that the grammar constrains. -/
structure NodeChecks where
  /-- A field, with the place it is declared. -/
  field : Parser.FieldSite → Field → Prop
  /-- A group, with the place it is declared. -/
  group : Parser.FieldSite → Group → Prop
  mapField : MapField → Prop
  /-- An `extensions` statement of a message. -/
  extensions : ExtensionRanges → Prop
  /-- A `reserved` statement of a message. -/
  reserved : Reserved → Prop

/-- Each check of `C` implies the check of `D` on the same node. -/
structure NodeChecks.Le (C D : NodeChecks) : Prop where
  field : ∀ site f, C.field site f → D.field site f
  group : ∀ site g, C.group site g → D.group site g
  mapField : ∀ m, C.mapField m → D.mapField m
  extensions : ∀ r, C.extensions r → D.extensions r
  reserved : ∀ r, C.reserved r → D.reserved r

@[refl]
theorem NodeChecks.Le.refl (C : NodeChecks) : C.Le C :=
  ⟨fun _ _ => id, fun _ _ => id, fun _ => id, fun _ => id, fun _ => id⟩

mutual

/-- Every node of the message's body passes its check, at any depth. -/
def Message.Throughout (C : NodeChecks) : Message → Prop
  | .mk _ body _ => MessageElement.BodyThroughout C body

def MessageElement.BodyThroughout (C : NodeChecks) : List MessageElement → Prop
  | [] => True
  | e :: rest => MessageElement.Throughout C e ∧ MessageElement.BodyThroughout C rest

/-- A statement of a message body passes its check, and so does every node inside it. -/
def MessageElement.Throughout (C : NodeChecks) : MessageElement → Prop
  | .field f => C.field .message f
  | .map m => C.mapField m
  | .group g => C.group .message g ∧ Group.Throughout C g
  | .oneof (.mk _ body _) => OneofElement.BodyThroughout C body
  | .message m => Message.Throughout C m
  | .enum _ => True
  | .extend (.mk _ body _) => ExtendElement.BodyThroughout C body
  | .extensions r => C.extensions r
  | .reserved r => C.reserved r
  | .option _ => True

/-- Every node of the body of the group's message passes its check. -/
def Group.Throughout (C : NodeChecks) : Group → Prop
  | .mk _ _ _ _ _ body _ => MessageElement.BodyThroughout C body

/-- A member of a oneof passes its check as one declared in a oneof, and so does every node
inside it. -/
def OneofElement.Throughout (C : NodeChecks) : OneofElement → Prop
  | .field f => C.field .oneof f
  | .group g => C.group .oneof g ∧ Group.Throughout C g
  | .option _ => True

def OneofElement.BodyThroughout (C : NodeChecks) : List OneofElement → Prop
  | [] => True
  | e :: rest => OneofElement.Throughout C e ∧ OneofElement.BodyThroughout C rest

/-- A field or group declared at `site` passes its check, and so does every node of a group's
body. -/
def ExtendElement.Throughout (C : NodeChecks) (site : Parser.FieldSite) : ExtendElement → Prop
  | .field f => C.field site f
  | .group g => C.group site g ∧ Group.Throughout C g

def ExtendElement.BodyThroughout (C : NodeChecks) : List ExtendElement → Prop
  | [] => True
  | e :: rest => ExtendElement.Throughout C .extend e ∧ ExtendElement.BodyThroughout C rest

end

/-- Every node of the file's messages and extend blocks passes its check. -/
def SchemaFile.Throughout (C : NodeChecks) (s : SchemaFile) : Prop :=
  (∀ m ∈ s.messages, m.Throughout C) ∧ ∀ x ∈ s.extendBlocks, ExtendElement.BodyThroughout C x.body

section Bodies

variable {C : NodeChecks}

theorem MessageElement.bodyThroughout_iff :
    ∀ {l : List MessageElement}, MessageElement.BodyThroughout C l ↔ ∀ e ∈ l, e.Throughout C
  | [] => by simp [MessageElement.BodyThroughout]
  | e :: rest => by simp [MessageElement.BodyThroughout, bodyThroughout_iff]

theorem OneofElement.bodyThroughout_iff :
    ∀ {l : List OneofElement}, OneofElement.BodyThroughout C l ↔ ∀ e ∈ l, e.Throughout C
  | [] => by simp [OneofElement.BodyThroughout]
  | e :: rest => by simp [OneofElement.BodyThroughout, bodyThroughout_iff]

theorem ExtendElement.bodyThroughout_iff :
    ∀ {l : List ExtendElement}, ExtendElement.BodyThroughout C l ↔ ∀ e ∈ l, e.Throughout C .extend
  | [] => by simp [ExtendElement.BodyThroughout]
  | e :: rest => by simp [ExtendElement.BodyThroughout, bodyThroughout_iff]

theorem SchemaFile.Throughout.push_message {s : SchemaFile} (hs : s.Throughout C) {m : Message}
    (hm : m.Throughout C) : ({ s with messages := s.messages ++ [m] } : SchemaFile).Throughout C := by
  refine ⟨fun m' hm' => ?_, hs.2⟩
  rcases List.mem_append.mp hm' with hm' | hm'
  · exact hs.1 m' hm'
  · rw [List.mem_singleton.mp hm']
    exact hm

theorem SchemaFile.Throughout.push_extend {s : SchemaFile} (hs : s.Throughout C) {x : Extend}
    (hx : MessageElement.Throughout C (.extend x)) :
    ({ s with extendBlocks := s.extendBlocks ++ [x] } : SchemaFile).Throughout C := by
  refine ⟨hs.1, fun x' hx' => ?_⟩
  rcases List.mem_append.mp hx' with hx' | hx'
  · exact hs.2 x' hx'
  · rw [List.mem_singleton.mp hx']
    obtain ⟨extendee, body, decl⟩ := x
    exact hx

end Bodies

/-! ### The checks the parser makes -/

/-- The rules of a language version on one field declared at `site`: a member of a oneof has no
label; proto3 has no `required` and no option named plainly `default`; proto2 wants a label outside
oneofs. -/
structure Field.Admitted (d : Dialect) (site : Parser.FieldSite) (f : Field) : Prop where
  oneof_unlabelled : site = .oneof → f.label = none
  proto3_not_required : d = .proto3 → ∀ l ∈ f.label, l.value ≠ .required
  proto3_no_default : d = .proto3 → ∀ o ∈ f.options, o.simpleName? ≠ some "default"
  proto2_labelled : d = .proto2 → site ≠ .oneof → f.label.isSome

/-- The rules of a language version on one group declared at `site`: groups are proto2 only, a
member of a oneof has no label, and a group elsewhere has one. -/
structure Group.Admitted (d : Dialect) (site : Parser.FieldSite) (g : Group) : Prop where
  proto2 : d = .proto2
  oneof_unlabelled : site = .oneof → g.label = none
  labelled : site ≠ .oneof → g.label.isSome

/-- The bounds of a range are written as numbers from zero to the largest signed 64-bit
integer. -/
structure NumberRange.Within (r : NumberRange) : Prop where
  start : 0 ≤ r.start.value ∧ r.start.value ≤ (Parser.int64Max : Int)
  stop : ∀ s ∈ r.stop, ∀ v ∈ s.value, 0 ≤ v ∧ v ≤ (Parser.int64Max : Int)

def ReservedKind.numberRanges : ReservedKind → List NumberRange
  | .ranges rs => rs
  | .names _ => []

/-- What the parser checks of the nodes of a file of version `d`: the version's rules on fields and
groups, extension ranges in proto2 only, and range bounds in messages that fit a signed 64-bit
integer. -/
def parsedChecks (d : Dialect) : NodeChecks where
  field site f := f.Admitted d site
  group site g := g.Admitted d site
  mapField _ := True
  extensions r := d = .proto2 ∧ ∀ x ∈ r.ranges, x.Within
  reserved r := ∀ x ∈ r.kind.numberRanges, x.Within

theorem defaultOption?_eq_none {options : List OptionDecl} :
    Parser.defaultOption? options = none ↔ ∀ o ∈ options, o.simpleName? ≠ some "default" := by
  simp [Parser.defaultOption?, List.find?_eq_none]

namespace Parser

variable {α β : Type} {T : ParserInput}

/-- Whenever the step succeeds on the input `T`, its value satisfies `P`. -/
def Returns (T : ParserInput) (P : α → Prop) (p : Parser α) : Prop :=
  ∀ st a st', p T st = .ok (a, st') → P a

namespace Returns

variable {P : β → Prop}

theorem pure {a : β} (h : P a) : Returns T P (Pure.pure a) := by
  intro st b st' hb
  cases hb
  exact h

theorem bind {Q : α → Prop} {x : Parser α} {f : α → Parser β} (hx : Returns T Q x)
    (hf : ∀ a, Q a → Returns T P (f a)) : Returns T P (x >>= f) := by
  intro st b st' h
  obtain ⟨a, st₁, ha, h⟩ := bind_eq_ok.mp h
  exact hf a (hx st a st₁ ha) st₁ b st' h

theorem seq {x : Parser α} {f : α → Parser β} (hf : ∀ a, Returns T P (f a)) : Returns T P (x >>= f) :=
  bind (Q := fun _ => True) (fun _ _ _ _ => trivial) fun a _ => hf a

theorem imp {Q : β → Prop} {x : Parser β} (hx : Returns T Q x) (h : ∀ a, Q a → P a) : Returns T P x :=
  fun st a st' ha => h a (hx st a st' ha)

theorem failHere (message : String) : Returns T P (Parser.failHere message) :=
  fun _ _ _ h => absurd h (failHere_ne_ok _ _)

theorem failAt (span : Span) (message : String) : Returns T P (Parser.failAt span message) :=
  fun _ _ _ h => by cases h

theorem failHere_bind (message : String) (f : α → Parser β) : Returns T P (Parser.failHere message >>= f) :=
  bind (failHere (P := fun _ => False) message) fun _ h => h.elim

theorem failAt_bind (span : Span) (message : String) (f : α → Parser β) :
    Returns T P (Parser.failAt span message >>= f) :=
  bind (failAt (P := fun _ => False) span message) fun _ h => h.elim

theorem failAt_unless {c : Prop} [Decidable c] (span : Span) (message : String) :
    Returns T (fun _ => ¬c) (if c then Parser.failAt span message else Pure.pure PUnit.unit) := by
  split
  · exact failAt _ _
  · rename_i hc
    exact pure hc

theorem dialect : Returns T (· = T.dialect) Parser.dialect :=
  fun _ _ _ h => by cases h; rfl

end Returns

/-! ### The steps that check -/

theorem checkLabel_admits (site : FieldSite) (lbl : Option (Spanned LabelKind)) :
    Returns T (fun _ => (site = .oneof → lbl = none) ∧
      (T.dialect = .proto3 → ∀ l ∈ lbl, l.value ≠ .required)) (checkLabel site lbl) := by
  unfold checkLabel
  split
  · rename_i l
    dsimp only
    split
    · exact Returns.failAt_bind _ _ _
    · rename_i hsite
      refine Returns.bind Returns.dialect fun d hd => ?_
      exact (Returns.failAt_unless _ _).imp fun _ h =>
        ⟨fun hs => absurd hs hsite, fun h3 l' hl' hr => by cases hl'; exact h ⟨hd.trans h3, hr⟩⟩
  · exact Returns.pure ⟨fun _ => rfl, fun _ l hl => by cases hl⟩

theorem plainField_admits (start : Nat) (lbl : Option (Spanned LabelKind)) :
    Returns T (fun f => f.label = lbl ∧
      (T.dialect = .proto3 → ∀ o ∈ f.options, o.simpleName? ≠ some "default")) (plainField start lbl) := by
  unfold plainField
  refine Returns.seq fun _ => Returns.seq fun _ => Returns.seq fun _ => Returns.seq fun _ =>
    Returns.seq fun options => ?_
  refine Returns.bind Returns.dialect fun d hd => ?_
  dsimp only
  split
  · split
    · exact Returns.failAt_bind _ _ _
    · rename_i hnone
      refine Returns.seq fun _ => Returns.seq fun _ => Returns.pure ⟨rfl, fun _ => ?_⟩
      exact defaultOption?_eq_none.mp (Option.eq_none_iff_forall_ne_some.mpr hnone)
  · rename_i hne
    exact Returns.seq fun _ => Returns.seq fun _ => Returns.pure ⟨rfl, fun h3 => absurd (hd.trans h3) hne⟩

theorem unsignedInt_within (what : String) :
    Returns T (fun n => 0 ≤ n.value ∧ n.value ≤ (int64Max : Int)) (unsignedInt what) := by
  unfold unsignedInt
  refine Returns.seq fun _ => ?_
  split
  · split
    · exact Returns.failAt _ _
    · rename_i hv
      exact Returns.seq fun _ => Returns.pure ⟨by simp, by simp only; omega⟩
  · exact Returns.failHere _

theorem numberRange_within : Returns T NumberRange.Within (numberRange false) := by
  unfold numberRange
  simp only [Bool.false_eq_true, ↓reduceIte]
  refine Returns.bind (unsignedInt_within _) fun start hstart => Returns.seq fun _ => ?_
  split
  · refine Returns.seq fun _ => Returns.seq fun _ => ?_
    split
    · exact Returns.seq fun _ => Returns.pure ⟨hstart, by simp⟩
    · exact Returns.bind (unsignedInt_within _) fun e he => Returns.pure ⟨hstart, by simpa using he⟩
  · exact Returns.pure ⟨hstart, by simp⟩

theorem moreRanges_within : ∀ (fuel : Nat) (acc : List NumberRange), (∀ x ∈ acc, x.Within) →
    Returns T (fun rs => ∀ x ∈ rs, x.Within) (moreRanges false fuel acc)
  | 0, _, _ => by
    rw [moreRanges]
    exact Returns.failHere _
  | fuel + 1, acc, hacc => by
    rw [moreRanges]
    refine Returns.seq fun _ => ?_
    split
    · exact Returns.bind numberRange_within fun r hr =>
        moreRanges_within fuel _ (List.forall_mem_cons.mpr ⟨hr, hacc⟩)
    · exact Returns.pure fun x hx => hacc x (List.mem_reverse.mp hx)

theorem rangeList_within : Returns T (fun rs => ∀ x ∈ rs, x.Within) (rangeList false) := by
  unfold rangeList
  exact Returns.bind numberRange_within fun first hfirst => Returns.seq fun _ =>
    moreRanges_within _ _ (List.forall_mem_singleton.mpr hfirst)

theorem reserved_within : Returns T (fun r => ∀ x ∈ r.kind.numberRanges, x.Within) (reserved false) := by
  unfold reserved
  refine Returns.seq fun _ => Returns.seq fun _ => Returns.seq fun _ => ?_
  simp only [pure_bind]
  repeat' (first
    | with_reducible refine Returns.bind rangeList_within fun rs hrs => ?_
    | with_reducible refine Returns.seq fun _ => ?_
    | split)
  all_goals first
    | exact Returns.pure hrs
    | exact Returns.pure fun x hx => by simp [ReservedKind.numberRanges] at hx

theorem extensionRanges_admits :
    Returns T (fun r => T.dialect = .proto2 ∧ ∀ x ∈ r.ranges, x.Within) extensionRanges := by
  unfold extensionRanges
  refine Returns.seq fun _ => Returns.seq fun _ => Returns.bind Returns.dialect fun d hd => ?_
  dsimp only
  split
  · exact Returns.failAt_bind _ _ _
  · rename_i hne
    have hp2 : T.dialect = .proto2 := by
      rw [← hd]
      cases d
      · rfl
      · exact absurd rfl hne
    exact Returns.bind rangeList_within fun rs hrs => Returns.seq fun _ => Returns.seq fun _ =>
      Returns.seq fun _ => Returns.pure ⟨hp2, hrs⟩

/-! ### The recursive block -/

section Block

variable (T) (C : NodeChecks)

/-- What each function of the recursive block of the message parser returns with fuel `n` on the
input `T`: nodes passing the checks `C` throughout, when `C` follows from the parser's checks. -/
structure BlockThroughout (n : Nat) : Prop where
  messageBlock : Returns T (MessageElement.BodyThroughout C) (Parser.messageBlock n)
  messageBody : ∀ acc : List MessageElement, (∀ e ∈ acc, e.Throughout C) →
    Returns T (MessageElement.BodyThroughout C) (Parser.messageBody n acc)
  messageElement : Returns T (MessageElement.Throughout C) (Parser.messageElement n)
  message : Returns T (Message.Throughout C) (Parser.message n)
  fieldOrGroup : ∀ site, Returns T (ExtendElement.Throughout C site) (Parser.fieldOrGroup n site)
  group : ∀ start lbl site, Returns T (fun g => g.label = lbl ∧ T.dialect = .proto2 ∧
    (site ≠ .oneof → lbl.isSome) ∧ g.Throughout C) (Parser.group n start lbl site)
  oneofBody : ∀ acc : List OneofElement, (∀ e ∈ acc, e.Throughout C) →
    Returns T (OneofElement.BodyThroughout C) (Parser.oneofBody n acc)
  oneof : Returns T (fun o => MessageElement.Throughout C (.oneof o)) (Parser.oneof n)
  extendBody : ∀ acc : List ExtendElement, (∀ e ∈ acc, e.Throughout C .extend) →
    Returns T (ExtendElement.BodyThroughout C) (Parser.extendBody n acc)
  extend : Returns T (fun x => MessageElement.Throughout C (.extend x)) (Parser.extend n)

theorem blockThroughout_zero : BlockThroughout T C 0 where
  messageBlock := by rw [Parser.messageBlock]; exact Returns.failHere _
  messageBody _ _ := by rw [Parser.messageBody]; exact Returns.failHere _
  messageElement := by rw [Parser.messageElement]; exact Returns.failHere _
  message := by rw [Parser.message]; exact Returns.failHere _
  fieldOrGroup _ := by rw [Parser.fieldOrGroup]; exact Returns.failHere _
  group _ _ _ := by rw [Parser.group]; exact Returns.failHere _
  oneofBody _ _ := by rw [Parser.oneofBody]; exact Returns.failHere _
  oneof := by rw [Parser.oneof]; exact Returns.failHere _
  extendBody _ _ := by rw [Parser.extendBody]; exact Returns.failHere _
  extend := by rw [Parser.extend]; exact Returns.failHere _

variable {T C}

theorem blockThroughout_succ (hC : (parsedChecks T.dialect).Le C) {n : Nat} (ih : BlockThroughout T C n) :
    BlockThroughout T C (n + 1) where
  messageBlock := by
    rw [Parser.messageBlock]
    exact Returns.seq fun _ => ih.messageBody [] (by simp)
  messageBody acc hacc := by
    rw [Parser.messageBody]
    dsimp only
    repeat' (first
      | with_reducible exact Returns.failHere_bind _ _
      | with_reducible refine Returns.bind ih.messageElement fun el hel => ?_
      | with_reducible refine Returns.seq fun _ => ?_
      | split)
    case isTrue =>
      -- the statements read, in the order they were written
      exact Returns.pure (MessageElement.bodyThroughout_iff.mpr fun e he => hacc e (List.mem_reverse.mp he))
    case isFalse.isFalse.isTrue => exact ih.messageBody acc hacc
    case isFalse.isFalse.isFalse => exact ih.messageBody (el :: acc) (List.forall_mem_cons.mpr ⟨hel, hacc⟩)
  messageElement := by
    rw [Parser.messageElement]
    dsimp only
    have hext : Returns T C.extensions extensionRanges :=
      extensionRanges_admits.imp fun r hr => hC.extensions r hr
    have hres : Returns T C.reserved (reserved false) :=
      reserved_within.imp fun r hr => hC.reserved r hr
    repeat' (first
      | with_reducible refine Returns.bind ih.message fun m hm => ?_
      | with_reducible refine Returns.bind ih.extend fun x hx => ?_
      | with_reducible refine Returns.bind ih.oneof fun o ho => ?_
      | with_reducible refine Returns.bind hext fun r hr => ?_
      | with_reducible refine Returns.bind hres fun r hr => ?_
      | with_reducible refine Returns.bind (ih.fieldOrGroup .message) fun x hx => ?_
      | with_reducible refine Returns.seq fun _ => ?_
      | split)
    all_goals first
      | exact Returns.pure hm
      | exact Returns.pure hx
      | exact Returns.pure ho
      | exact Returns.pure hr
      | exact Returns.pure (hC.mapField _ trivial)
      | exact Returns.pure trivial
  message := by
    rw [Parser.message]
    refine Returns.seq fun _ => Returns.seq fun _ => Returns.seq fun _ => ?_
    exact Returns.bind ih.messageBlock fun body hbody => Returns.seq fun _ => Returns.pure hbody
  fieldOrGroup site := by
    rw [Parser.fieldOrGroup]
    refine Returns.seq fun start => Returns.seq fun lbl => ?_
    refine Returns.bind (checkLabel_admits site lbl) fun _ hlbl => ?_
    dsimp only
    repeat' (first
      | with_reducible exact Returns.failHere_bind _ _
      | with_reducible refine Returns.bind (ih.group start lbl site) fun g hg => ?_
      | with_reducible refine Returns.bind (plainField_admits start lbl) fun f hf => ?_
      | with_reducible refine Returns.bind Returns.dialect fun d hd => ?_
      | with_reducible refine Returns.seq fun _ => ?_
      | split)
    · -- a group keeps the label it was checked with
      obtain ⟨hgl, hp2, hlabelled, hbody⟩ := hg
      exact Returns.pure ⟨hC.group site g ⟨hp2, fun hs => hgl.trans (hlbl.1 hs), fun hs => hgl ▸ hlabelled hs⟩, hbody⟩
    · -- a field without a label passed the missing-label test, and keeps its label
      rename_i hmissing
      obtain ⟨hfl, hdef⟩ := hf
      refine Returns.pure (hC.field site f ⟨fun hs => hfl.trans (hlbl.1 hs), fun h3 => hfl ▸ hlbl.2 h3, hdef, ?_⟩)
      intro h2 hs
      rw [hfl]
      cases hl : lbl with
      | none => exact absurd ⟨by simp [hl], hs, hd.trans h2⟩ hmissing
      | some l => rfl
  group start lbl site := by
    rw [Parser.group]
    refine Returns.seq fun kw => Returns.bind Returns.dialect fun d hd => ?_
    dsimp only
    split
    · exact Returns.failAt_bind _ _ _
    · rename_i hne
      have hp2 : T.dialect = .proto2 := by
        rw [← hd]
        cases d
        · rfl
        · exact absurd rfl hne
      split
      · exact Returns.failAt_bind _ _ _
      · rename_i hmissing
        have hlabelled : site ≠ .oneof → lbl.isSome := fun hs => by
          cases hl : lbl with
          | none => exact absurd ⟨by simp [hl], hs⟩ hmissing
          | some l => rfl
        repeat' (first
          | with_reducible exact Returns.failAt_bind _ _ _
          | with_reducible refine Returns.bind ih.messageBlock fun body hbody => ?_
          | with_reducible refine Returns.seq fun _ => ?_
          | split)
        all_goals exact Returns.pure ⟨rfl, hp2, hlabelled, hbody⟩
  oneofBody acc hacc := by
    rw [Parser.oneofBody]
    dsimp only
    repeat' (first
      | with_reducible exact Returns.failHere_bind _ _
      | with_reducible refine Returns.bind (ih.fieldOrGroup .oneof) fun x hx => ?_
      | with_reducible refine Returns.seq fun _ => ?_
      | split)
    case isTrue =>
      exact Returns.pure (OneofElement.bodyThroughout_iff.mpr fun e he => hacc e (List.mem_reverse.mp he))
    case isFalse.isFalse.isTrue => exact ih.oneofBody acc hacc
    case isFalse.isFalse.isFalse.isTrue => exact ih.oneofBody _ (List.forall_mem_cons.mpr ⟨trivial, hacc⟩)
    case h_1 => exact ih.oneofBody _ (List.forall_mem_cons.mpr ⟨hx, hacc⟩)
    case h_2 => exact ih.oneofBody _ (List.forall_mem_cons.mpr ⟨hx, hacc⟩)
  oneof := by
    rw [Parser.oneof]
    refine Returns.seq fun _ => Returns.seq fun _ => Returns.seq fun _ => Returns.seq fun _ => ?_
    exact Returns.bind (ih.oneofBody [] (by simp)) fun body hbody => Returns.seq fun _ => Returns.pure hbody
  extendBody acc hacc := by
    rw [Parser.extendBody]
    dsimp only
    repeat' (first
      | with_reducible exact Returns.failHere_bind _ _
      | with_reducible refine Returns.bind (ih.fieldOrGroup .extend) fun x hx => ?_
      | with_reducible refine Returns.seq fun _ => ?_
      | split)
    case isTrue =>
      exact Returns.pure (ExtendElement.bodyThroughout_iff.mpr fun e he => hacc e (List.mem_reverse.mp he))
    case isFalse.isFalse.isTrue => exact ih.extendBody acc hacc
    case isFalse.isFalse.isFalse => exact ih.extendBody (x :: acc) (List.forall_mem_cons.mpr ⟨hx, hacc⟩)
  extend := by
    rw [Parser.extend]
    refine Returns.seq fun _ => Returns.seq fun _ => Returns.seq fun _ => Returns.seq fun _ => ?_
    exact Returns.bind (ih.extendBody [] (by simp)) fun body hbody => Returns.seq fun _ => Returns.pure hbody

theorem blockThroughout (hC : (parsedChecks T.dialect).Le C) : ∀ n, BlockThroughout T C n
  | 0 => blockThroughout_zero T C
  | n + 1 => blockThroughout_succ hC (blockThroughout hC n)

end Block

theorem topLevel_dialect : ∀ (n : Nat) (file : SchemaFile),
    Returns T (fun file' => file'.dialect = file.dialect) (topLevel n file)
  | 0, _ => by
    rw [topLevel]
    exact Returns.failHere _
  | n + 1, file => by
    rw [topLevel]
    refine Returns.seq fun tok => ?_
    split
    · repeat' (first
        | with_reducible exact Returns.failHere_bind _ _
        | with_reducible exact Returns.failHere _
        | with_reducible refine Returns.seq fun _ => ?_
        | split)
      all_goals exact topLevel_dialect n _
    · exact Returns.pure rfl

theorem topLevel_throughout (hC : (parsedChecks T.dialect).Le C) : ∀ (n : Nat) (file : SchemaFile),
    Returns T (fun file' => file.Throughout C → file'.Throughout C) (topLevel n file)
  | 0, _ => by
    rw [topLevel]
    exact Returns.failHere _
  | n + 1, file => by
    rw [topLevel]
    refine Returns.seq fun tok => ?_
    split
    · rename_i tok
      repeat' (first
        | with_reducible exact Returns.failHere_bind _ _
        | with_reducible exact Returns.failHere _
        | with_reducible refine Returns.bind (blockThroughout hC _).message fun m hm => ?_
        | with_reducible refine Returns.bind (blockThroughout hC _).extend fun x hx => ?_
        | with_reducible refine Returns.seq fun _ => ?_
        | split)
      -- a message or extend block passes the checks; the other statements change neither list
      case h_5 => exact (topLevel_throughout hC n _).imp fun _ h hf => h (hf.push_message hm)
      case h_8 => exact (topLevel_throughout hC n _).imp fun _ h hf => h (hf.push_extend hx)
      all_goals exact topLevel_throughout hC n _
    · exact Returns.pure id

theorem schemaFile_throughout (hT : T.dialect = .proto2) (span : Span) :
    Returns T (fun s => ∀ C, (parsedChecks s.dialect).Le C → s.Throughout C) (schemaFile span) := by
  unfold schemaFile
  refine Returns.seq fun v => ?_
  -- the file starts with no message and no extend block
  have hempty : ∀ {C : NodeChecks} {s : SchemaFile}, s.messages = [] → s.extendBlocks = [] → s.Throughout C :=
    fun hm hx => ⟨fun m h => absurd (hm ▸ h) List.not_mem_nil, fun x h => absurd (hx ▸ h) List.not_mem_nil⟩
  split
  · rename_i d decl
    intro st file st' h C hC
    rw [withReader_run] at h
    obtain ⟨k, st₁, -, h⟩ := bind_eq_ok.mp h
    have hdialect : file.dialect = d := topLevel_dialect (k + 1) _ st₁ file st' h
    rw [hdialect] at hC
    exact topLevel_throughout (T := { T with dialect := d }) hC (k + 1) _ st₁ file st' h (hempty rfl rfl)
  · refine Returns.seq fun k => ?_
    intro st file st' h C hC
    have hdialect : file.dialect = .proto2 := topLevel_dialect (k + 1) _ st file st' h
    rw [hdialect, ← hT] at hC
    exact topLevel_throughout hC (k + 1) _ st file st' h (hempty rfl rfl)

end Parser

theorem parseSchemaChars_throughout {cs : List Char} {s : SchemaFile} (h : parseSchemaChars cs = .ok s)
    {C : NodeChecks} (hC : (parsedChecks s.dialect).Le C) : s.Throughout C := by
  unfold parseSchemaChars at h
  obtain ⟨⟨tokens, span⟩, -, h⟩ := Except.bind_eq_ok.mp h
  obtain ⟨⟨file, st⟩, hrun, h⟩ := Except.bind_eq_ok.mp h
  cases h
  exact Parser.schemaFile_throughout rfl span _ _ _ hrun C hC

theorem parseSchema_throughout {text : String} {s : SchemaFile} (h : parseSchema text = .ok s)
    {C : NodeChecks} (hC : (parsedChecks s.dialect).Le C) : s.Throughout C :=
  parseSchemaChars_throughout h hC

end ProtoSchema
