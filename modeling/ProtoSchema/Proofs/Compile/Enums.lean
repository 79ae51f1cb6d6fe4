import ProtoSchema.Proofs.Compile.Messages
import ProtoSchema.Proofs.SymbolTable.Fresh

/-!
Well-formed enums, and what a clean run of the compiler gives of every enum it builds.

An enum is well formed when it has a value, each value has a 32-bit number, in proto3 the first
value is zero, the values have distinct names, two values share a number exactly when the enum
allows aliases, and no value uses a reserved number (reserved ranges include both ends) or a
reserved name, each reserved range starting at most where it ends
(`EnumDescriptor.WellFormed`). The checks of the enum compiler give all of it but the distinct
names (`enumeration_clean`), which the symbol table checks: enum values are declared beside
their enum, so distinct full names give distinct value names. The body of a message keeps
every enum it builds, at any depth, well formed (`body_enums_clean`), and so does the file
(`compileFile_enums`).
-/

namespace ProtoSchema

def InClosedRange (start stop : Option Int) (n : Int) : Prop :=
  start.getD 0 ≤ n ∧ n ≤ stop.getD 0

namespace EnumDescriptor

/-- The rules on the values and reserved ranges of an enum. -/
structure WellFormed (proto3 : Bool) (ed : EnumDescriptor) : Prop where
  nonempty : ed.value ≠ []
  numbers_int32 : ∀ v ∈ ed.value, ∃ n, v.number = some n ∧ -(2 ^ 31) ≤ n ∧ n < 2 ^ 31
  first_zero : proto3 = true → ∀ v ∈ ed.value.head?, v.number = some 0
  names_nodup : (ed.value.map (·.name)).Nodup
  aliases : ed.options.bind (·.allowAlias) = some true ↔ ¬(ed.value.map (·.number)).Nodup
  outside_reserved : ∀ v ∈ ed.value, ∀ r ∈ ed.reservedRange, ∀ n, v.number = some n →
    ¬InClosedRange r.start r.stop n
  names_not_reserved : ∀ v ∈ ed.value, ∀ n, v.name = some n → n ∉ ed.reservedName
  reserved_ok : ∀ r ∈ ed.reservedRange, ∃ a b, r.start = some a ∧ r.stop = some b ∧ a ≤ b

end EnumDescriptor

namespace MessageDescriptor

/-- Every enum of a message is well formed, and so is every enum of every message nested in
it, at any depth. -/
inductive EnumsWellFormed (proto3 : Bool) : MessageDescriptor → Prop where
  | intro {md : MessageDescriptor} : (∀ ed ∈ md.enumType, ed.WellFormed proto3) →
      (∀ n ∈ md.nestedType, EnumsWellFormed proto3 n) → EnumsWellFormed proto3 md

end MessageDescriptor

theorem clampInt32_mono {a b : Int} (h : a ≤ b) : clampInt32 a ≤ clampInt32 b := by
  simp only [clampInt32]
  omega

namespace CompileM

variable {ctx : CompileContext}

theorem Clean.ite_report {β : Type} {H : Prop} {P : β → Prop} {c : Prop} [Decidable c] {span : Span}
    {message : String} {a : β} (h : ¬c → H → P a) :
    Clean ctx H (if c then (CompileM.report span message >>= fun _ => Pure.pure a : CompileM β) else Pure.pure a)
      P := by
  split
  · exact (Clean.report (P := fun _ => False) _ _).bind fun _ => Clean.pure False.elim
  · rename_i hc
    exact Clean.pure (h hc)

theorem Clean.check_bind {β : Type} {H : Prop} {P : β → Prop} {c : Prop} [Decidable c] {span : Span}
    {message : String} {f : Unit → CompileM β} (h : Clean ctx (H ∧ ¬c) (f ()) P) :
    Clean ctx H (if c then CompileM.report span message >>= f else f ()) P := by
  split
  · exact (Clean.report (P := fun _ => False) span message).bind fun _ => h.imp False.elim fun _ _ hp => hp
  · rename_i hc
    exact h.imp (fun hH => ⟨hH, hc⟩) fun _ _ h => h

theorem Clean.check {H : Prop} {c : Prop} [Decidable c] (span : Span) (message : String) :
    Clean ctx H (if c then CompileM.report span message else Pure.pure PUnit.unit) fun _ => H ∧ ¬c := by
  split
  · exact Clean.report _ _
  · rename_i hc
    exact Clean.pure fun hH => ⟨hH, hc⟩

/-! ### The body of an enum -/

/-- What an enum body keeps of what it has built from the statements `d`: a span for each value,
the values of `d` in order, each with a 32-bit number, and reserved ranges each starting at most
where it ends. -/
structure EnumBuild.Sound (d : List EnumElement) (b : EnumBuild) : Prop where
  spans : b.spans.size = b.values.size
  names : b.values.toList.map (·.name) = (d.filterMap EnumElement.valueName?).map some
  numbers : ∀ v ∈ b.values.toList, ∃ n, v.number = some n ∧ -(2 ^ 31) ≤ n ∧ n < 2 ^ 31
  reserved : ∀ r ∈ b.reservedRanges.toList, ∃ a c, r.start = some a ∧ r.stop = some c ∧ a ≤ c

theorem EnumBuild.Sound.empty : EnumBuild.Sound [] {} := ⟨rfl, rfl, by simp, by simp⟩

theorem EnumBuild.Sound.congr {d : List EnumElement} {b b' : EnumBuild} (hs : EnumBuild.Sound d b)
    (hvalues : b'.values = b.values) (hspans : b'.spans = b.spans)
    (hreserved : ∀ r ∈ b'.reservedRanges.toList, ∃ a c, r.start = some a ∧ r.stop = some c ∧ a ≤ c) :
    EnumBuild.Sound d b' where
  spans := by rw [hvalues, hspans]; exact hs.spans
  names := by rw [hvalues]; exact hs.names
  numbers := by rw [hvalues]; exact hs.numbers
  reserved := hreserved

theorem EnumBuild.Sound.snoc_none {d : List EnumElement} {b : EnumBuild} {x : EnumElement}
    (hs : EnumBuild.Sound d b) (hx : x.valueName? = none) : EnumBuild.Sound (d ++ [x]) b where
  spans := hs.spans
  names := by simp [hs.names, hx]
  numbers := hs.numbers
  reserved := hs.reserved

theorem enumElement_clean (path : List Int) (scope : String) (d : List EnumElement) (b : EnumBuild)
    (x : EnumElement) :
    Clean ctx (EnumBuild.Sound d b) (enumElement path scope b x) (EnumBuild.Sound (d ++ [x])) := by
  cases x with
  | value v =>
    rw [enumElement]
    refine Clean.locateDecl_bind (Clean.locate_bind (Clean.locate_bind ?_))
    dsimp only
    -- a number out of the 32-bit range is reported
    split
    · rename_i hrange
      refine (Clean.pure (P := fun n => EnumBuild.Sound d b ∧ n = v.number.value) fun hs => ⟨hs, rfl⟩).bind
        fun n => ?_
      refine (Clean.of_kept fun _ => interpretOptions_spec _ _ _ _).bind fun options => Clean.pure ?_
      rintro ⟨hs, rfl⟩
      refine ⟨by simp [hs.spans], by simp [hs.names, EnumElement.valueName?], fun w hw => ?_, hs.reserved⟩
      simp only [Array.toList_push, List.mem_append, List.mem_singleton] at hw
      rcases hw with hw | rfl
      · exact hs.numbers w hw
      · exact ⟨_, rfl, hrange⟩
    · refine ((Clean.report (P := fun _ => False) _ _).bind fun _ => Clean.pure (P := fun _ => False) id).bind
        fun _ => ?_
      refine (Clean.pure (P := fun _ => False) id).bind fun _ => ?_
      exact (Clean.of_kept fun _ => interpretOptions_spec _ _ _ _).bind fun _ => Clean.pure False.elim
  | option o =>
    rw [enumElement]
    exact Clean.pure fun hs => (hs.snoc_none rfl).congr rfl rfl hs.reserved
  | reserved r =>
    obtain ⟨kind, decl⟩ := r
    cases kind with
    | ranges rs =>
      rw [enumElement]
      refine Clean.locateDecl_bind ?_
      refine (Clean.foldlM (fun _ b' => EnumBuild.Sound (d ++ [.reserved ⟨.ranges rs, decl⟩]) b')
        rs [] b fun _ range b' _ => ?_).imp (fun hs => hs.snoc_none rfl) fun _ _ h => h
      refine (Clean.of_kept fun _ => rangeLocations_spec _ _).bind fun _ => ?_
      dsimp only
      split <;> refine Clean.ite_report fun hle hs => EnumBuild.Sound.congr hs rfl rfl fun r hr => ?_ <;>
        simp only [Array.toList_push, List.mem_append, List.mem_singleton] at hr <;>
        rcases hr with hr | rfl
      all_goals first
        | exact hs.reserved r hr
        | exact ⟨_, _, rfl, rfl, clampInt32_mono (Int.not_lt.mp hle)⟩
    | names ns =>
      rw [enumElement]
      refine Clean.locateDecl_bind ?_
      refine (Clean.foldlM (fun _ b' => EnumBuild.Sound (d ++ [.reserved ⟨.names ns, decl⟩]) b')
        ns [] b fun _ n b' _ => ?_).imp (fun hs => hs.snoc_none rfl) fun _ _ h => h
      exact Clean.locate_bind (Clean.pure fun hs => hs.congr rfl rfl hs.reserved)

/-! ### The checks on the values of an enum -/

/-- What the alias scan of `validateEnum` knows once it has passed the values `vs` of `ed`: the
numbers it has seen are theirs, it has found an alias exactly when two of them share a number,
which only an enum allowing aliases may do, and none of them uses a reserved number or name. -/
structure AliasScan (ed : EnumDescriptor) (vs : List EnumValueDescriptor) (byNumber : List (Int × String))
    (aliased : Bool) : Prop where
  seen : ∀ n, n ∈ byNumber.map Prod.fst ↔ n ∈ vs.map (·.number.getD 0)
  aliased : aliased = true ↔ ¬(vs.map (·.number.getD 0)).Nodup
  distinct : ed.options.bind (·.allowAlias) ≠ some true → (vs.map (·.number.getD 0)).Nodup
  outside_reserved : ∀ v ∈ vs, ∀ r ∈ ed.reservedRange, ¬InClosedRange r.start r.stop (v.number.getD 0)
  names_not_reserved : ∀ v ∈ vs, v.name.getD "" ∉ ed.reservedName

theorem AliasScan.empty (ed : EnumDescriptor) : AliasScan ed [] [] false :=
  ⟨by simp, by simp, fun _ => List.nodup_nil, by simp, by simp⟩

section AliasScan

variable {ed : EnumDescriptor} {vs : List EnumValueDescriptor} {byNumber : List (Int × String)}
  {aliased : Bool} {v : EnumValueDescriptor}

theorem AliasScan.push_new (hs : AliasScan ed vs byNumber aliased)
    (hnew : v.number.getD 0 ∉ byNumber.map Prod.fst)
    (hr : ∀ r ∈ ed.reservedRange, ¬InClosedRange r.start r.stop (v.number.getD 0))
    (hn : v.name.getD "" ∉ ed.reservedName) :
    AliasScan ed (vs ++ [v]) (byNumber ++ [(v.number.getD 0, v.name.getD "")]) aliased := by
  have hfresh : v.number.getD 0 ∉ vs.map (·.number.getD 0) := fun h => hnew ((hs.seen _).mpr h)
  have hnodup : (vs.map (·.number.getD 0) ++ [v.number.getD 0]).Nodup ↔ (vs.map (·.number.getD 0)).Nodup := by
    rw [List.nodup_append_comm, List.singleton_append, List.nodup_cons]
    exact and_iff_right hfresh
  refine ⟨fun n => ?_, ?_, fun hA => ?_, ?_, ?_⟩
  · simp [hs.seen n]
  · rw [List.map_append, List.map_singleton, hnodup]
    exact hs.aliased
  · rw [List.map_append, List.map_singleton, hnodup]
    exact hs.distinct hA
  · simpa [or_imp, forall_and] using ⟨hs.outside_reserved, hr⟩
  · simpa [or_imp, forall_and] using ⟨hs.names_not_reserved, hn⟩

theorem AliasScan.push_alias (hs : AliasScan ed vs byNumber aliased)
    (hseen : v.number.getD 0 ∈ byNumber.map Prod.fst) (hA : ed.options.bind (·.allowAlias) = some true)
    (hr : ∀ r ∈ ed.reservedRange, ¬InClosedRange r.start r.stop (v.number.getD 0))
    (hn : v.name.getD "" ∉ ed.reservedName) :
    AliasScan ed (vs ++ [v]) byNumber true := by
  have hold : v.number.getD 0 ∈ vs.map (·.number.getD 0) := (hs.seen _).mp hseen
  have hdup : ¬(vs.map (·.number.getD 0) ++ [v.number.getD 0]).Nodup := by
    rw [List.nodup_append_comm, List.singleton_append, List.nodup_cons, not_and]
    exact fun hfresh => absurd hold hfresh
  refine ⟨fun n => ?_, ?_, fun hA' => absurd hA hA', ?_, ?_⟩
  · rw [hs.seen n]
    simp only [List.map_append, List.map_singleton, List.mem_append, List.mem_singleton]
    exact ⟨Or.inl, fun h => h.elim id fun h => h ▸ hold⟩
  · simpa using hdup
  · simpa [or_imp, forall_and] using ⟨hs.outside_reserved, hr⟩
  · simpa [or_imp, forall_and] using ⟨hs.names_not_reserved, hn⟩

end AliasScan

/-- What the checks on the values of an enum give, a number not set read as 0 and a name not set
as the empty name. -/
structure ValuesChecked (proto3 : Bool) (ed : EnumDescriptor) : Prop where
  nonempty : ed.value ≠ []
  first_zero : proto3 = true → ∀ v ∈ ed.value.head?, v.number.getD 0 = 0
  aliases : ed.options.bind (·.allowAlias) = some true ↔ ¬(ed.value.map (·.number.getD 0)).Nodup
  outside_reserved : ∀ v ∈ ed.value, ∀ r ∈ ed.reservedRange, ¬InClosedRange r.start r.stop (v.number.getD 0)
  names_not_reserved : ∀ v ∈ ed.value, v.name.getD "" ∉ ed.reservedName

theorem not_inClosedRange_of_any {rs : List ReservedRange} {n : Int}
    (h : ¬(rs.any fun r => decide (r.start.getD 0 ≤ n) && decide (n ≤ r.stop.getD 0)) = true) :
    ∀ r ∈ rs, ¬InClosedRange r.start r.stop n := fun r hr hin =>
  h (List.any_eq_true.mpr ⟨r, hr, by simpa [InClosedRange] using hin⟩)

theorem ValuesChecked.of_scan {proto3 : Bool} {ed : EnumDescriptor} {first : EnumValueDescriptor}
    {rest : List EnumValueDescriptor} {byNumber : List (Int × String)} {aliased : Bool}
    (hvalue : ed.value = first :: rest) (hfirst : ¬(proto3 && decide (first.number.getD 0 ≠ 0)) = true)
    (hs : AliasScan ed ed.value byNumber aliased)
    (hused : ¬(decide (ed.options.bind (·.allowAlias) = some true) && !aliased) = true) :
    ValuesChecked proto3 ed where
  nonempty := hvalue ▸ List.cons_ne_nil first rest
  first_zero hp v hv := by
    rw [hvalue, List.head?_cons, Option.mem_some_iff] at hv
    subst hv
    simpa [hp] using hfirst
  aliases := ⟨fun hA => hs.aliased.mp (by simpa [hA] using hused),
    fun hdup => Classical.byContradiction fun hA => hdup (hs.distinct hA)⟩
  outside_reserved := hs.outside_reserved
  names_not_reserved := hs.names_not_reserved

theorem validateEnum_clean (full : String) (name : Spanned String) (ed : EnumDescriptor)
    (spans : List Span) :
    Clean ctx (spans.length = ed.value.length) (validateEnum full name ed spans) fun _ =>
      ValuesChecked ctx.proto3 ed := by
  unfold validateEnum
  split
  · exact Clean.report _ _
  · rename_i first rest firstSpan restSpans hvalue
    refine Clean.read ?_
    dsimp only
    refine Clean.check_bind ?_
    -- one scan over the values with their spans, then the test that aliases are used
    refine ((Clean.foldlM (fun (d : List (EnumValueDescriptor × Span)) (acc : List (Int × String) × Bool) =>
      AliasScan ed (d.map Prod.fst) acc.1 acc.2) _ []
      ([], false) fun d x acc _ => ?_).frame fun _ => AliasScan.empty ed).bind fun acc => ?_
    · split
      · -- a number seen before: an alias
        rename_i hfind
        refine Clean.check_bind ?_
        simp only [pure_bind]
        refine Clean.check_bind (Clean.check_bind (Clean.pure ?_))
        rintro ⟨⟨⟨hs, hA⟩, hr⟩, hn⟩
        have hseen : x.1.number.getD 0 ∈ acc.1.map Prod.fst :=
          List.mem_map.mpr ⟨_, List.mem_of_find?_eq_some hfind, by simpa using List.find?_some hfind⟩
        rw [List.map_append, List.map_singleton]
        exact hs.push_alias hseen (by simpa using hA) (not_inClosedRange_of_any hr) (by simpa using hn)
      · rename_i hfind
        simp only [pure_bind]
        refine Clean.check_bind (Clean.check_bind (Clean.pure ?_))
        rintro ⟨⟨hs, hr⟩, hn⟩
        have hnew : x.1.number.getD 0 ∉ acc.1.map Prod.fst := fun hm => by
          obtain ⟨p, hp, heq⟩ := List.mem_map.mp hm
          exact List.find?_eq_none.mp hfind p hp (by simpa using heq)
        rw [List.map_append, List.map_singleton]
        exact hs.push_new hnew (not_inClosedRange_of_any hr) (by simpa using hn)
    · refine (Clean.check _ _).imp id fun _ _ h => ?_
      obtain ⟨⟨⟨hspans, hfirst⟩, hs⟩, hused⟩ := h
      rw [List.nil_append, List.map_fst_zip hspans.ge] at hs
      exact ValuesChecked.of_scan hvalue hfirst hs hused
  · -- a value without a span: the spans are one per value
    rename_i hvalue
    exact Clean.pure fun hspans => by simp [hvalue] at hspans

theorem ValuesChecked.wellFormed {proto3 : Bool} {ed : EnumDescriptor} (hc : ValuesChecked proto3 ed)
    (hnumbers : ∀ v ∈ ed.value, ∃ n, v.number = some n ∧ -(2 ^ 31) ≤ n ∧ n < 2 ^ 31)
    (hnames : (ed.value.map (·.name)).Nodup)
    (hreserved : ∀ r ∈ ed.reservedRange, ∃ a b, r.start = some a ∧ r.stop = some b ∧ a ≤ b) :
    ed.WellFormed proto3 where
  nonempty := hc.nonempty
  numbers_int32 := hnumbers
  first_zero hp v hv := by
    obtain ⟨n, hn, -⟩ := hnumbers v (List.mem_of_mem_head? hv)
    have h0 := hc.first_zero hp v hv
    rw [hn, Option.getD_some] at h0
    rw [hn, h0]
  names_nodup := hnames
  aliases := by
    -- every number is set, so the numbers are distinct exactly when their values are
    have hset : ed.value.map (·.number) = (ed.value.map (·.number.getD 0)).map some := by
      rw [List.map_map]
      refine List.map_congr_left fun v hv => ?_
      obtain ⟨n, hn, -⟩ := hnumbers v hv
      simp [hn]
    rw [hset, List.nodup_map_iff (Option.some_injective _)]
    exact hc.aliases
  outside_reserved v hv r hr n hn := by
    have h := hc.outside_reserved v hv r hr
    rwa [hn, Option.getD_some] at h
  names_not_reserved v hv n hn := by
    have h := hc.names_not_reserved v hv
    rwa [hn, Option.getD_some] at h
  reserved_ok := hreserved

/-- An enum whose value names are distinct is built well formed by a clean run. -/
theorem enumeration_clean (path : List Int) (scope : String) (e : Enum) (he : e.valueNames.Nodup) :
    Clean ctx True (enumeration path scope e) fun ed => ed.WellFormed ctx.proto3 := by
  rw [enumeration]
  refine Clean.locateDecl_bind (Clean.locate_bind ?_)
  refine ((Clean.foldlM EnumBuild.Sound e.body [] {} fun d x b _ => enumElement_clean path scope d b x).imp
    (fun _ => EnumBuild.Sound.empty) fun _ _ h => by rwa [List.nil_append] at h).bind fun b => ?_
  refine (Clean.of_kept fun _ => interpretOptions_spec _ _ _ _).bind fun options => ?_
  refine ((validateEnum_clean _ _ _ _).frame fun hs => by simpa using hs.spans).bind fun _ =>
    Clean.pure fun ⟨hs, hc⟩ => hc.wellFormed hs.numbers ?_ hs.reserved
  show (b.values.toList.map (·.name)).Nodup
  rw [hs.names]
  exact he.map (Option.some_injective _)

/-! ### What the statements of a message body leave alone -/

theorem mapField_entry_bare (fieldPath entryPath : List Int) (scope : String) (m : MapField) :
    Yields ctx (mapField fieldPath entryPath scope m) fun r => r.2.nestedType = [] ∧ r.2.enumType = [] := by
  unfold mapField
  dsimp only
  repeat' (first | with_reducible refine Yields.seq fun _ => ?_ | split)
  all_goals exact Yields.pure ⟨rfl, rfl⟩

theorem extensionRanges_frame (path : List Int) (full : String) (r : ExtensionRanges) (b : MessageBuild) :
    Yields ctx (extensionRanges path full r b) fun b' => ∃ rs, b' = { b with ranges := rs } := by
  unfold extensionRanges
  refine Yields.seq fun _ => ?_
  dsimp only
  refine (Yields.foldlM (fun _ b' => ∃ rs, b' = { b with ranges := rs }) ?_ r.ranges [] b ⟨_, rfl⟩).bind
    fun b' hb' => ?_
  · rintro _ _ _ ⟨rs, rfl⟩
    exact Yields.seq fun _ => Yields.seq fun _ => Yields.pure ⟨_, rfl⟩
  · split
    · exact Yields.pure hb'
    · refine (Yields.foldlM (fun _ b'' => ∃ rs, b'' = { b with ranges := rs }) ?_ _ [] b' hb').bind
        fun _ h => Yields.pure h
      rintro _ _ _ ⟨rs, rfl⟩
      exact Yields.seq fun _ => Yields.pure ⟨_, rfl⟩

theorem reservedOf_frame (path : List Int) (r : Reserved) (b : MessageBuild) :
    Yields ctx (reservedOf path r b) fun b' =>
      ∃ rs ns, b' = { b with reservedRanges := rs, reservedNames := ns } := by
  unfold reservedOf
  split
  all_goals
    refine Yields.seq fun _ => ?_
    refine (Yields.foldlM (fun _ b' => ∃ rs ns, b' = { b with reservedRanges := rs, reservedNames := ns })
      ?_ _ [] b ⟨_, _, rfl⟩).bind fun _ h => Yields.pure h
    rintro _ _ _ ⟨rs, ns, rfl⟩
  · exact Yields.seq fun _ => Yields.seq fun _ => Yields.pure ⟨_, _, rfl⟩
  · exact Yields.seq fun _ => Yields.pure ⟨_, _, rfl⟩

/-! ### The enums of a message body -/

/-- Every enum a message body has built is well formed, and so is every enum of every message
it has built, at any depth. -/
structure MessageBuild.EnumsSound (proto3 : Bool) (b : MessageBuild) : Prop where
  enums : ∀ ed ∈ b.enums.toList, ed.WellFormed proto3
  nested : ∀ md ∈ b.nested.toList, md.EnumsWellFormed proto3

namespace MessageBuild.EnumsSound

variable {proto3 : Bool} {b : MessageBuild}

theorem empty : MessageBuild.EnumsSound proto3 {} := ⟨by simp, by simp⟩

theorem push_enum (hs : b.EnumsSound proto3) {ed : EnumDescriptor} (hed : ed.WellFormed proto3)
    {b' : MessageBuild} (henums : b'.enums = b.enums.push ed) (hnested : b'.nested = b.nested) :
    b'.EnumsSound proto3 where
  enums := henums ▸ forall_mem_toList_push hs.enums hed
  nested := hnested ▸ hs.nested

theorem push_nested (hs : b.EnumsSound proto3) {md : MessageDescriptor} (hmd : md.EnumsWellFormed proto3)
    {b' : MessageBuild} (henums : b'.enums = b.enums) (hnested : b'.nested = b.nested.push md) :
    b'.EnumsSound proto3 where
  enums := henums ▸ hs.enums
  nested := hnested ▸ forall_mem_toList_push hs.nested hmd

end MessageBuild.EnumsSound

theorem finishMessage_enums (path : List Int) (full : String) (name : Spanned String) (b : MessageBuild) :
    Clean ctx (b.EnumsSound ctx.proto3) (finishMessage path full name b) fun md =>
      md.EnumsWellFormed ctx.proto3 := by
  unfold finishMessage
  refine (Clean.of_kept fun _ => interpretOptions_spec _ _ _ _).bind fun options => ?_
  dsimp only
  refine (Clean.of_kept fun _ => validateMessage_spec _ _ _ _ _ _).bind fun _ => Clean.pure ?_
  exact fun hs => .intro hs.enums hs.nested

/-- A clean run over a message body whose full names are distinct keeps every enum it builds
well formed, at any depth; so does a group, and an extend block for the messages of its
groups. The joint induction follows the recursive block of the message compiler, one case
per equation, and each case takes the distinct names of its parts from those of the whole. -/
theorem body_enums_clean :
    (∀ path full body (b : MessageBuild), (MessageElement.bodyFullNames full body).Nodup →
      Clean ctx (b.EnumsSound ctx.proto3) (elements path full body b) fun b' => b'.EnumsSound ctx.proto3) ∧
    (∀ path full (e : MessageElement) (b : MessageBuild), (MessageElement.fullNames full e).Nodup →
      Clean ctx (b.EnumsSound ctx.proto3) (element path full e b) fun b' => b'.EnumsSound ctx.proto3) ∧
    (∀ extBase typeBase scope extendeeSpan extendee body
        (acc : Array FieldDescriptor × Array MessageDescriptor), (ExtendElement.bodyFullNames scope body).Nodup →
      Clean ctx (∀ md ∈ acc.2.toList, md.EnumsWellFormed ctx.proto3)
        (extendMembers extBase typeBase scope extendeeSpan extendee body acc) fun r =>
          ∀ md ∈ r.2.toList, md.EnumsWellFormed ctx.proto3) ∧
    (∀ fieldPath typePath scope site (g : Group), (Group.fullNames scope g).Nodup →
      Clean ctx True (group fieldPath typePath scope site g) fun r => r.2.EnumsWellFormed ctx.proto3) ∧
    (∀ path full index body (acc : MessageBuild × Nat), (OneofElement.bodyFullNames full body).Nodup →
      Clean ctx (acc.1.EnumsSound ctx.proto3) (oneofMembers path full index body acc) fun r =>
        r.1.EnumsSound ctx.proto3) := by
  apply elements.mutual_induct
  case case1 =>
    intro path full f b _
    rw [element]
    refine (Clean.of_kept fun _ => plainField_spec _ _ f .message).bind fun fd => Clean.pure fun hs => ?_
    -- the index of a proto3 optional field is recorded, which no enum depends on
    split
    · exact ⟨hs.enums, hs.nested⟩
    · exact ⟨hs.enums, hs.nested⟩
  case case2 =>
    intro path full m b _
    rw [element]
    refine (Clean.of_yields (fun _ => mapField_spec _ _ _ m) (mapField_entry_bare _ _ _ m)).bind
      fun r => Clean.pure ?_
    rintro ⟨hs, hnested, henums⟩
    refine hs.push_nested (.intro ?_ ?_) rfl rfl
    · simp [henums]
    · simp [hnested]
  case case3 =>
    intro path full g b ih hd
    rw [element]
    refine ((ih hd).frame fun _ => trivial).bind fun r => Clean.pure ?_
    rintro ⟨hs, hwf⟩
    exact hs.push_nested hwf rfl rfl
  case case4 =>
    intro path full name body decl b index ih hd
    rw [element]
    refine Clean.locateDecl_bind (Clean.locate_bind ?_)
    refine (Clean.of_kept fun _ => interpretOptions_spec _ _ _ _).bind fun options => ?_
    refine ((ih options (List.nodup_cons.mp hd).2).imp (fun hs => ⟨hs.enums, hs.nested⟩)
      fun _ _ h => h).bind fun r => ?_
    repeat' (first | with_reducible refine Clean.report_bind ?_ | split | dsimp only)
    all_goals exact Clean.pure id
  case case5 =>
    intro path full name body decl b mpath mfull ih hd
    rw [element]
    refine (Clean.of_kept fun _ => startMessage_spec _ _ _).bind fun _ => ?_
    refine ((ih (List.nodup_cons.mp hd).2).frame fun _ => MessageBuild.EnumsSound.empty).bind fun mb => ?_
    refine ((finishMessage_enums _ _ _ mb).frame And.right).bind fun m => Clean.pure ?_
    rintro ⟨⟨hs, -⟩, hwf⟩
    exact hs.push_nested hwf rfl rfl
  case case6 =>
    intro path full e b hd
    rw [element]
    have he : e.valueNames.Nodup := (List.nodup_cons.mp hd).2.of_map _
    refine ((enumeration_clean _ _ e he).frame fun _ => trivial).bind fun d => Clean.pure ?_
    rintro ⟨hs, hed⟩
    exact hs.push_enum hed rfl rfl
  case case7 =>
    intro path full extendee body decl b ih hd
    rw [element]
    refine (Clean.of_kept fun _ => startExtend_spec _ _ _ _).bind fun resolved => ?_
    refine ((ih resolved hd).frame fun hs => hs.nested).bind fun r => Clean.pure ?_
    rintro ⟨hs, hnested⟩
    exact ⟨hs.enums, hnested⟩
  case case8 =>
    intro path full r b _
    rw [element]
    refine (Clean.of_yields (fun _ => extensionRanges_spec path full r b) (extensionRanges_frame path full r b)).imp
      id ?_
    rintro _ hs ⟨-, rs, rfl⟩
    exact ⟨hs.enums, hs.nested⟩
  case case9 =>
    intro path full r b _
    rw [element]
    refine (Clean.of_yields (fun _ => reservedOf_spec path r b) (reservedOf_frame path r b)).imp id ?_
    rintro _ hs ⟨-, rs, ns, rfl⟩
    exact ⟨hs.enums, hs.nested⟩
  case case10 =>
    intro path full o b _
    rw [element]
    exact Clean.pure fun hs => ⟨hs.enums, hs.nested⟩
  case case11 =>
    intro fieldPath typePath scope site label keywordSpan name number options body decl ih hd
    rw [group]
    refine (Clean.of_kept fun _ => fieldShell_spec _ _ _ _ _ _ _).bind fun fd => ?_
    refine Clean.locate_bind (Clean.locate_bind ?_)
    refine (Clean.of_kept fun _ => fieldOptionsOf_spec _ _ _ _ _ _).bind fun fd' => ?_
    refine (Clean.of_kept fun _ => startMessage_spec _ _ _).bind fun _ => ?_
    have hbody := (List.nodup_cons.mp (List.nodup_cons.mp hd).2).2
    refine ((ih hbody).imp (fun _ => MessageBuild.EnumsSound.empty) fun _ _ h => h).bind fun mb => ?_
    refine (finishMessage_enums _ _ _ mb).bind fun m => Clean.pure id
  case case12 =>
    intro path full b _
    rw [elements]
    exact Clean.pure id
  case case13 =>
    intro path full e rest b ih₁ ih₂ hd
    rw [elements]
    rw [MessageElement.bodyFullNames, List.nodup_append] at hd
    exact (ih₁ hd.1).bind fun b' => ih₂ b' hd.2.1
  case case14 =>
    intro path full index acc _
    rw [oneofMembers]
    exact Clean.pure id
  case case15 =>
    intro path full index f rest b n ih hd
    rw [oneofMembers]
    refine (Clean.of_kept fun _ => plainField_spec _ _ f (.oneof index)).bind fun fd => ?_
    exact (ih fd (List.nodup_cons.mp hd).2).imp (fun hs => ⟨hs.enums, hs.nested⟩) fun _ _ h => h
  case case16 =>
    intro path full index g rest b n ihg ih hd
    rw [OneofElement.bodyFullNames, List.nodup_append] at hd
    rw [oneofMembers]
    refine ((ihg hd.1).frame fun _ => trivial).bind fun r => ?_
    obtain ⟨fd, nested⟩ := r
    exact (ih fd nested hd.2.1).imp (fun h => h.1.push_nested h.2 rfl rfl) fun _ _ h => h
  case case17 =>
    intro path full index o rest acc ih hd
    rw [oneofMembers]
    exact ih hd
  case case18 =>
    intro extBase typeBase scope extendeeSpan extendee acc _
    rw [extendMembers]
    exact Clean.pure id
  case case19 =>
    intro extBase typeBase scope extendeeSpan extendee f rest exts types ih hd
    rw [extendMembers]
    refine (Clean.of_kept fun _ => plainField_spec _ _ _ _).bind fun fd => ?_
    refine (Clean.of_kept fun _ => finishExtension_spec _ _ _ _ _).bind fun fd' => ?_
    exact ih fd' (List.nodup_cons.mp hd).2
  case case20 =>
    intro extBase typeBase scope extendeeSpan extendee g rest exts types epath ihg ih hd
    rw [ExtendElement.bodyFullNames, List.nodup_append] at hd
    rw [extendMembers]
    refine ((ihg hd.1).frame fun _ => trivial).bind fun r => ?_
    obtain ⟨fd, nested⟩ := r
    refine (Clean.of_kept fun _ => finishExtension_spec _ _ _ _ _).bind fun fd' => ?_
    exact (ih nested fd' hd.2.1).imp (fun h => forall_mem_toList_push h.1 h.2) fun _ _ h => h

theorem message_enums (path : List Int) (scope : String) (m : Message) (hm : (Message.fullNames scope m).Nodup) :
    Clean ctx True (message path scope m) fun md => md.EnumsWellFormed ctx.proto3 := by
  obtain ⟨name, body, decl⟩ := m
  rw [message]
  refine (Clean.of_kept fun _ => startMessage_spec _ _ _).bind fun _ => ?_
  refine ((body_enums_clean.1 _ _ body {} (List.nodup_cons.mp hm).2).imp
    (fun _ => MessageBuild.EnumsSound.empty) fun _ _ h => h).bind fun b => ?_
  exact finishMessage_enums _ _ _ b

theorem extendBlock_enums (extBase typeBase : List Int) (scope : String) (x : Extend)
    (acc : Array FieldDescriptor × Array MessageDescriptor) (hx : (ExtendElement.bodyFullNames scope x.body).Nodup) :
    Clean ctx (∀ md ∈ acc.2.toList, md.EnumsWellFormed ctx.proto3) (extendBlock extBase typeBase scope x acc)
      fun r => ∀ md ∈ r.2.toList, md.EnumsWellFormed ctx.proto3 := by
  obtain ⟨extendee, body, decl⟩ := x
  rw [extendBlock]
  refine (Clean.of_kept fun _ => startExtend_spec _ _ _ _).bind fun resolved => ?_
  exact body_enums_clean.2.2.1 _ _ _ _ _ _ _ hx

theorem SchemaFile.fullNames_parts {s : SchemaFile} (h : s.fullNames.Nodup) :
    (∀ m ∈ s.messages, (Message.fullNames s.scope m).Nodup) ∧ (∀ e ∈ s.enums, e.valueNames.Nodup) ∧
      ∀ x ∈ s.extendBlocks, (ExtendElement.bodyFullNames s.scope x.body).Nodup := by
  rw [SchemaFile.fullNames, List.nodup_append, List.nodup_append, List.nodup_append] at h
  refine ⟨(List.nodup_flatMap.mp h.1.1.1).1, fun e he => ?_, (List.nodup_flatMap.mp h.2.1).1⟩
  exact (List.nodup_cons.mp ((List.nodup_flatMap.mp h.1.1.2.1).1 e he)).2.of_map _

theorem file_enums (hs : ctx.file.schema.fullNames.Nodup) :
    Clean ctx True file fun fd =>
      (∀ ed ∈ fd.enumType, ed.WellFormed ctx.proto3) ∧ ∀ md ∈ fd.messageType, md.EnumsWellFormed ctx.proto3 := by
  obtain ⟨hmessages, henums, hextends⟩ := SchemaFile.fullNames_parts hs
  unfold file
  refine Clean.read ?_
  dsimp only
  refine Clean.locate_bind ?_
  -- the version and package declarations only add locations: the rest is met four times
  split <;> (try refine Clean.locateDecl_bind ?_) <;> split <;> (try refine Clean.locateDecl_bind ?_)
  all_goals
    refine (Clean.of_kept fun _ => imports_spec _).bind fun _ => ?_
    refine (Clean.of_kept fun _ => interpretOptions_spec _ _ _ _).bind fun _ => ?_
    refine (Clean.foldlM_push (fun i m => message [4, (i : Int)] _ m) _
      fun _ m hm => message_enums _ _ m (hmessages m hm)).bind fun messages => ?_
    refine (Clean.foldlM_push (fun i e => enumeration [5, (i : Int)] _ e) _
      fun _ e he => enumeration_clean _ _ e (henums e he)).bind fun enums => ?_
    refine (Clean.foldlM (fun _ _ => _) _ [] #[]
      fun _ svc _ _ => (Clean.of_kept fun _ => service_spec _ _ _).bind fun _ => Clean.pure id).bind
      fun _ => ?_
    refine ((Clean.foldlM (fun _ acc => ∀ md ∈ acc.2.toList, md.EnumsWellFormed ctx.proto3) _ [] (#[], messages)
      fun _ x acc hx => extendBlock_enums [7] [4] _ x acc (hextends x hx)).frame fun h => h.1.2).bind fun r => ?_
    exact Clean.get_bind fun _ => Clean.pure fun h => ⟨h.1.2, h.2⟩

end CompileM

/-- A file compiled without annotations, from a schema whose full names are distinct, has
well-formed enums, at the top level and in every message at any depth. -/
theorem compileFile_enums {ctx : CompileContext} (hs : ctx.file.schema.fullNames.Nodup)
    (hclean : (compileFile ctx).2 = []) :
    (∀ ed ∈ (compileFile ctx).1.enumType, ed.WellFormed ctx.proto3) ∧
      ∀ md ∈ (compileFile ctx).1.messageType, md.EnumsWellFormed ctx.proto3 :=
  (CompileM.file_enums hs).of_run trivial {} rfl (Array.toList_eq_nil_iff.mp hclean)

end ProtoSchema
