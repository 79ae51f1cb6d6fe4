import ProtoSchema.Proofs.Compile.Fields
import ProtoSchema.Proofs.SymbolTable.FieldNames

/-!
What a clean run of the message compiler returns. The checks of a message body run on the
list of numbered fields the body builds (number, name and span of each): no number twice,
none in a reserved or extension range, no reserved name, and in proto3 no two default JSON
names equal up to case (`validateMessage_clean`). The body keeps the numbered list in step
with its fields, every number checked and every range checked, and each message it nests
well formed (`MessageBuild.Sound`). So when no step reports, and the fields of the message
have distinct names (which the symbol table checks, not the checks here), the message is
well formed (`message_clean`), and so is every message of a file compiled without
annotations (`compileFile_wellFormed`).
-/

namespace ProtoSchema

/-- What the checks of a message say of its numbered fields: distinct numbers, none in a
reserved range or an extension range, and no reserved name. -/
structure NumbersChecked (reserved : List ReservedRange) (reservedNames : List String)
    (ranges : List ExtensionRange) (numbered : List (Int × String × Span)) : Prop where
  nodup : (numbered.map (·.1)).Nodup
  outside_reserved : ∀ e ∈ numbered, ∀ r ∈ reserved, ¬InRange r.start r.stop e.1
  name_not_reserved : ∀ e ∈ numbered, e.2.1 ∉ reservedNames
  outside_extensions : ∀ e ∈ numbered, ∀ r ∈ ranges, ¬InRange r.start r.stop e.1

theorem NumbersChecked.snoc {reserved : List ReservedRange} {reservedNames : List String}
    {ranges : List ExtensionRange} {d : List (Int × String × Span)}
    (h : NumbersChecked reserved reservedNames ranges d) {number : Int} {name : String} (span : Span)
    (hnew : ∀ e ∈ d, e.1 ≠ number) (hres : ∀ r ∈ reserved, ¬InRange r.start r.stop number)
    (hname : name ∉ reservedNames) (hext : ∀ r ∈ ranges, ¬InRange r.start r.stop number) :
    NumbersChecked reserved reservedNames ranges (d ++ [(number, name, span)]) where
  nodup := by
    rw [List.map_append, List.nodup_append]
    refine ⟨h.nodup, List.nodup_singleton _, fun a ha b hb => ?_⟩
    obtain ⟨e, he, rfl⟩ := List.mem_map.mp ha
    rw [List.map_singleton, List.mem_singleton] at hb
    subst hb
    exact hnew e he
  outside_reserved e he := by
    rcases List.mem_append.mp he with he | he
    · exact h.outside_reserved e he
    · rw [List.mem_singleton.mp he]
      exact hres
  name_not_reserved e he := by
    rcases List.mem_append.mp he with he | he
    · exact h.name_not_reserved e he
    · rw [List.mem_singleton.mp he]
      exact hname
  outside_extensions e he := by
    rcases List.mem_append.mp he with he | he
    · exact h.outside_extensions e he
    · rw [List.mem_singleton.mp he]
      exact hext

theorem not_inRange_of_check {start stop : Option Int} {n : Int}
    (h : (decide (start.getD 0 ≤ n) && decide (n < stop.getD 0)) = false) : ¬InRange start stop n := by
  simp only [Bool.and_eq_false_iff, decide_eq_false_iff_not] at h
  rintro ⟨h₁, h₂⟩
  rcases h with h | h <;> contradiction

theorem List.map_modify_of_forall {α β : Type} {k : α → β} {g : α → α} (h : ∀ a, k (g a) = k a)
    (l : List α) (i : Nat) : (l.modify i g).map k = l.map k := by
  apply List.ext_getElem (by simp)
  intro n h₁ h₂
  simp only [List.getElem_map, List.getElem_modify]
  split
  · exact h _
  · rfl

theorem exists_numbered_of_keys {fields : List FieldDescriptor} {numbered : List (Int × String × Span)}
    (hkeys : fields.map (fun f => (f.name, f.number)) = numbered.map fun e => (some e.2.1, some e.1))
    {f : FieldDescriptor} (hf : f ∈ fields) : ∃ e ∈ numbered, f.name = some e.2.1 ∧ f.number = some e.1 := by
  have hmem : (f.name, f.number) ∈ numbered.map fun e => (some e.2.1, some e.1) :=
    hkeys ▸ List.mem_map_of_mem hf
  obtain ⟨e, he, heq⟩ := List.mem_map.mp hmem
  exact ⟨e, he, (Prod.mk.inj heq).1.symm, (Prod.mk.inj heq).2.symm⟩

theorem rangeOk_modify {α : Type} (start stop : α → Option Int) {g : α → α}
    (hg : ∀ a, (start (g a), stop (g a)) = (start a, stop a)) {rs : List α}
    (h : ∀ r ∈ rs, RangeOk (start r) (stop r)) (i : Nat) : ∀ r ∈ rs.modify i g, RangeOk (start r) (stop r) := by
  intro r hr
  have hmem : (start r, stop r) ∈ rs.map fun r => (start r, stop r) :=
    List.map_modify_of_forall (k := fun r => (start r, stop r)) hg rs i ▸ List.mem_map_of_mem hr
  obtain ⟨r₀, hr₀, heq⟩ := List.mem_map.mp hmem
  rw [← (Prod.mk.inj heq).1, ← (Prod.mk.inj heq).2]
  exact h r₀ hr₀

theorem fieldsWellFormed_of_checks {proto3 : Bool} {fields : List FieldDescriptor}
    {numbered : List (Int × String × Span)} {ranges : List ExtensionRange} {reserved : List ReservedRange}
    {reservedNames : List String}
    (hkeys : fields.map (fun f => (f.name, f.number)) = numbered.map fun e => (some e.2.1, some e.1))
    (hnames : (numbered.map (·.2.1)).Nodup) (hok : ∀ e ∈ numbered, FieldNumberOk e.1)
    (hchk : NumbersChecked reserved reservedNames ranges numbered)
    (hranges : ∀ r ∈ ranges, RangeOk r.start r.stop) (hreserved : ∀ r ∈ reserved, RangeOk r.start r.stop)
    (hjson : proto3 = true → (fields.map FieldDescriptor.jsonKey).Nodup)
    (name : Option String) (nested : List MessageDescriptor) (enums : List EnumDescriptor)
    (extensions : List FieldDescriptor) (options : Option MessageOptions) (oneofs : List OneofDescriptor) :
    (MessageDescriptor.mk name fields nested enums ranges extensions options oneofs reserved
      reservedNames).FieldsWellFormed proto3 := by
  have hname : fields.map (·.name) = (numbered.map (·.2.1)).map some := by
    simpa [List.map_map, Function.comp_def] using congrArg (List.map Prod.fst) hkeys
  have hnumber : fields.map (·.number) = (numbered.map (·.1)).map some := by
    simpa [List.map_map, Function.comp_def] using congrArg (List.map Prod.snd) hkeys
  -- a field's number is the number of its entry in the numbered list
  have hentry : ∀ f ∈ fields, ∀ n, f.number = some n → ∃ e ∈ numbered, f.name = some e.2.1 ∧ n = e.1 := by
    intro f hf n hn
    obtain ⟨e, he, hfn, hfnum⟩ := exists_numbered_of_keys hkeys hf
    exact ⟨e, he, hfn, Option.some.inj (hn.symm.trans hfnum)⟩
  refine ⟨?_, ?_, ?_, ?_, ?_, ?_, hranges, hreserved, hjson⟩
  · exact hname ▸ hnames.map (Option.some_injective _)
  · exact hnumber ▸ hchk.nodup.map (Option.some_injective _)
  · intro f hf
    obtain ⟨e, he, -, hfnum⟩ := exists_numbered_of_keys hkeys hf
    exact ⟨e.1, hfnum, hok e he⟩
  · intro f hf r hr n hn
    obtain ⟨e, he, -, rfl⟩ := hentry f hf n hn
    exact hchk.outside_reserved e he r hr
  · intro f hf r hr n hn
    obtain ⟨e, he, -, rfl⟩ := hentry f hf n hn
    exact hchk.outside_extensions e he r hr
  · intro f hf n hn
    obtain ⟨e, he, hfn, -⟩ := exists_numbered_of_keys hkeys hf
    rw [hn] at hfn
    exact Option.some.inj hfn ▸ hchk.name_not_reserved e he

namespace CompileM

variable {γ : Type} {ctx : CompileContext}

theorem Clean.forIn_check {H : Prop} (c : γ → Bool) (span : Span) (message : γ → String) (l : List γ) :
    Clean ctx H (ForIn.forIn l PUnit.unit fun x (_ : PUnit) =>
        if c x = true then do
          CompileM.report span (message x)
          Pure.pure (ForInStep.yield PUnit.unit)
        else Pure.pure (ForInStep.yield PUnit.unit))
      fun _ => H ∧ ∀ x ∈ l, c x = false := by
  refine (Clean.forIn (fun d => H ∧ ∀ x ∈ d, c x = false) (fun d x => ?_) l []).imp
    (fun h => ⟨h, by simp⟩) fun _ _ h => by simpa using h
  split
  · exact (Clean.report (P := fun _ => False) _ _).bind fun _ => Clean.pure False.elim
  · rename_i hc
    refine Clean.pure ?_
    rintro ⟨hH, hd⟩
    refine ⟨rfl, hH, fun y hy => ?_⟩
    rcases List.mem_append.mp hy with hy | hy
    · exact hd y hy
    · rw [List.mem_singleton.mp hy]
      simpa using hc

theorem validateMessage_clean (full : String) (fields : List FieldDescriptor)
    (reserved : List ReservedRange) (reservedNames : List String) (ranges : List ExtensionRange)
    (numbered : List (Int × String × Span)) :
    Clean ctx True (validateMessage full fields reserved reservedNames ranges numbered) fun _ =>
      NumbersChecked reserved reservedNames ranges numbered ∧
        (ctx.proto3 = true → (fields.map FieldDescriptor.jsonKey).Nodup) := by
  unfold validateMessage
  -- the numbers seen so far, with their names, are those of the fields passed
  refine ((Clean.foldlM (fun d byNumber => byNumber = d.map (fun e => (e.1, e.2.1)) ∧
      NumbersChecked reserved reservedNames ranges d) numbered [] [] fun d x byNumber _ => ?_).imp
      (fun _ => ⟨rfl, List.nodup_nil, by simp, by simp, by simp⟩) fun _ _ h => by simpa using h.2).bind
      fun _ => ?_
  · obtain ⟨number, name, span⟩ := x
    dsimp only
    split
    · -- a number used before is reported; the loops after it only report more
      refine (Clean.report (P := fun _ => False) _ _).bind fun _ => ?_
      simp only [pure_bind]
      refine (Clean.forIn_check _ _ _ _).bind fun _ => ?_
      split
      · exact (Clean.report (P := fun _ => False) _ _).bind fun _ =>
          (Clean.forIn_check _ _ _ _).bind fun _ => Clean.pure fun h => h.1.elim
      · exact (Clean.forIn_check _ _ _ _).bind fun _ => Clean.pure fun h => h.1.1.elim
    · rename_i hfind
      simp only [pure_bind]
      refine (Clean.forIn_check _ _ _ _).bind fun _ => ?_
      split
      · exact (Clean.report (P := fun _ => False) _ _).bind fun _ =>
          (Clean.forIn_check _ _ _ _).bind fun _ => Clean.pure fun h => h.1.elim
      · rename_i hname
        refine (Clean.forIn_check _ _ _ _).bind fun _ => Clean.pure ?_
        rintro ⟨⟨⟨rfl, hc⟩, hres⟩, hext⟩
        refine ⟨by simp, hc.snoc span (fun e he heq => ?_) (fun r hr => not_inRange_of_check (hres r hr))
          (by simpa using hname) (fun r hr => not_inRange_of_check (hext r hr))⟩
        exact List.find?_eq_none.mp hfind (e.1, e.2.1) (List.mem_map_of_mem he) (by simpa using heq)
  · -- in proto3 the default JSON names seen so far are those of the fields passed
    refine Clean.read ?_
    split
    · refine ((Clean.foldlM (fun d byJson => NumbersChecked reserved reservedNames ranges numbered ∧
          byJson = d.map (fun f => (f.jsonKey, f.name.getD "")) ∧ (d.map FieldDescriptor.jsonKey).Nodup)
          fields [] [] fun d f byJson _ => ?_).imp (fun h => ⟨h, rfl, List.nodup_nil⟩)
          fun _ _ h => h).bind fun _ => Clean.pure fun h => ⟨h.1, fun _ => by simpa using h.2.2⟩
      dsimp only
      split
      · exact (Clean.report (P := fun _ => False) _ _).bind fun _ => Clean.pure False.elim
      · rename_i hfind
        refine Clean.pure ?_
        rintro ⟨hc, hb, hnodup⟩
        refine ⟨hc, by rw [hb]; simp; rfl, ?_⟩
        rw [List.map_append, List.nodup_append]
        refine ⟨hnodup, List.nodup_singleton _, fun a ha b hb' => ?_⟩
        obtain ⟨g, hg, rfl⟩ := List.mem_map.mp ha
        rw [List.map_singleton, List.mem_singleton] at hb'
        subst hb hb'
        intro heq
        exact List.find?_eq_none.mp hfind _ (List.mem_map_of_mem hg) (decide_eq_true heq)
    · exact Clean.pure fun hc => ⟨hc, by simp_all⟩

def MessageBuild.fieldNames (b : MessageBuild) : List String := b.numbered.toList.map (·.2.1)

theorem MessageBuild.fieldNames_eq_of_numbered {b b' : MessageBuild} (h : b'.numbered = b.numbered) :
    b'.fieldNames = b.fieldNames := by
  unfold MessageBuild.fieldNames
  rw [h]

theorem forall_mem_toList_push {α : Type} {p : α → Prop} {xs : Array α} {x : α} (h : ∀ a ∈ xs.toList, p a)
    (hx : p x) : ∀ a ∈ (xs.push x).toList, p a := by
  intro a ha
  rw [Array.toList_push, List.mem_append, List.mem_singleton] at ha
  rcases ha with ha | rfl
  · exact h a ha
  · exact hx

/-- What a message body keeps of what it has built: each field has the name and number of
its entry in the numbered list, every number was checked, every range was checked, and
every message nested so far is well formed. -/
structure MessageBuild.Sound (proto3 : Bool) (b : MessageBuild) : Prop where
  keys : b.fields.toList.map (fun f => (f.name, f.number)) = b.numbered.toList.map fun e => (some e.2.1, some e.1)
  numbers_ok : ∀ e ∈ b.numbered.toList, FieldNumberOk e.1
  ranges_ok : ∀ r ∈ b.ranges.toList, RangeOk r.start r.stop
  reserved_ok : ∀ r ∈ b.reservedRanges.toList, RangeOk r.start r.stop
  nested_ok : ∀ md ∈ b.nested.toList, md.WellFormed proto3

namespace MessageBuild.Sound

variable {proto3 : Bool} {b : MessageBuild}

theorem empty : ({} : MessageBuild).Sound proto3 :=
  ⟨rfl, by simp, by simp, by simp, by simp⟩

theorem push_field (hs : b.Sound proto3) {fd : FieldDescriptor} {e : Int × String × Span}
    (hname : fd.name = some e.2.1) (hnumber : fd.number = some e.1) (hok : FieldNumberOk e.1) :
    ({ b with fields := b.fields.push fd, numbered := b.numbered.push e } : MessageBuild).Sound proto3 where
  keys := by simp [hs.keys, hname, hnumber]
  numbers_ok e' he' := by
    simp only [Array.toList_push, List.mem_append, List.mem_singleton] at he'
    rcases he' with he' | rfl
    · exact hs.numbers_ok e' he'
    · exact hok
  ranges_ok := hs.ranges_ok
  reserved_ok := hs.reserved_ok
  nested_ok := hs.nested_ok

theorem congr (hs : b.Sound proto3) {b' : MessageBuild} (hfields : b'.fields = b.fields)
    (hnumbered : b'.numbered = b.numbered) (hranges : b'.ranges = b.ranges)
    (hreserved : b'.reservedRanges = b.reservedRanges) (hnested : b'.nested = b.nested) :
    b'.Sound proto3 where
  keys := by rw [hfields, hnumbered]; exact hs.keys
  numbers_ok := by rw [hnumbered]; exact hs.numbers_ok
  ranges_ok := by rw [hranges]; exact hs.ranges_ok
  reserved_ok := by rw [hreserved]; exact hs.reserved_ok
  nested_ok := by rw [hnested]; exact hs.nested_ok

theorem push_nested (hs : b.Sound proto3) {md : MessageDescriptor} (hmd : md.WellFormed proto3) :
    ({ b with nested := b.nested.push md } : MessageBuild).Sound proto3 where
  keys := hs.keys
  numbers_ok := hs.numbers_ok
  ranges_ok := hs.ranges_ok
  reserved_ok := hs.reserved_ok
  nested_ok := forall_mem_toList_push hs.nested_ok hmd

end MessageBuild.Sound

theorem extensionRanges_clean (path : List Int) (full : String) (r : ExtensionRanges) (b : MessageBuild) :
    Clean ctx (b.Sound ctx.proto3) (extensionRanges path full r b) fun b' =>
      b'.Sound ctx.proto3 ∧ b'.fieldNames = b.fieldNames := by
  unfold extensionRanges
  refine Clean.locateDecl_bind ?_
  dsimp only
  -- each range is checked as it is pushed; the options set after change no range's ends
  refine ((Clean.foldlM (fun _ b' => b'.Sound ctx.proto3 ∧ b'.numbered = b.numbered)
    r.ranges [] b fun _ range b' _ => ?_).imp (fun hs => ⟨hs, rfl⟩) fun _ _ h => h).bind fun b' => ?_
  · refine (Clean.of_kept fun _ => rangeLocations_spec _ _).bind fun _ => ?_
    refine ((checkRange_clean _ _ _ _ _).frame fun _ => trivial).bind fun _ => Clean.pure ?_
    rintro ⟨⟨hs, hnum⟩, h₀, h₁, h₂⟩
    refine ⟨⟨hs.keys, hs.numbers_ok, fun r' hr' => ?_, hs.reserved_ok, hs.nested_ok⟩, hnum⟩
    simp only [Array.toList_push, List.mem_append, List.mem_singleton] at hr'
    rcases hr' with hr' | rfl
    · exact hs.ranges_ok r' hr'
    · exact ⟨range.bounds.1, range.bounds.2, by rw [wrapInt32_of_range (by omega) (by omega)],
        by rw [wrapInt32_of_range (by omega) h₂], h₀, h₁, h₂⟩
  · split
    · exact Clean.pure fun h => ⟨h.1, MessageBuild.fieldNames_eq_of_numbered h.2⟩
    · refine (Clean.foldlM (fun _ b'' => b''.Sound ctx.proto3 ∧ b''.numbered = b.numbered)
        _ [] b' fun _ k b'' _ => ?_).imp id fun _ _ h => ⟨h.1, MessageBuild.fieldNames_eq_of_numbered h.2⟩
      refine (Clean.of_kept fun _ => interpretOptions_spec _ _ _ _).bind fun _ => Clean.pure ?_
      rintro ⟨hs, hnum⟩
      refine ⟨⟨hs.keys, hs.numbers_ok, ?_, hs.reserved_ok, hs.nested_ok⟩, hnum⟩
      rw [Array.toList_modify]
      refine rangeOk_modify ExtensionRange.start ExtensionRange.stop ?_ hs.ranges_ok _
      exact fun _ => rfl

theorem reservedOf_clean (path : List Int) (r : Reserved) (b : MessageBuild) :
    Clean ctx (b.Sound ctx.proto3) (reservedOf path r b) fun b' =>
      b'.Sound ctx.proto3 ∧ b'.fieldNames = b.fieldNames := by
  unfold reservedOf
  split
  · -- each reserved range is checked as it is pushed
    refine Clean.locateDecl_bind ?_
    refine (Clean.foldlM (fun _ b' => b'.Sound ctx.proto3 ∧ b'.numbered = b.numbered)
      _ [] b fun _ range b' _ => ?_).imp (fun hs => ⟨hs, rfl⟩)
      fun _ _ h => ⟨h.1, MessageBuild.fieldNames_eq_of_numbered h.2⟩
    refine (Clean.of_kept fun _ => rangeLocations_spec _ _).bind fun _ => ?_
    dsimp only
    refine ((checkRange_clean _ _ _ _ _).frame fun _ => trivial).bind fun _ => Clean.pure ?_
    rintro ⟨⟨hs, hnum⟩, h₀, h₁, h₂⟩
    refine ⟨⟨hs.keys, hs.numbers_ok, hs.ranges_ok, fun r' hr' => ?_, hs.nested_ok⟩, hnum⟩
    simp only [Array.toList_push, List.mem_append, List.mem_singleton] at hr'
    rcases hr' with hr' | rfl
    · exact hs.reserved_ok r' hr'
    · exact ⟨range.bounds.1, range.bounds.2, by rw [wrapInt32_of_range (by omega) (by omega)],
        by rw [wrapInt32_of_range (by omega) h₂], h₀, h₁, h₂⟩
  · -- reserved names are only recorded
    refine Clean.locateDecl_bind ?_
    refine (Clean.foldlM (fun _ b' => b'.Sound ctx.proto3 ∧ b'.numbered = b.numbered)
      _ [] b fun _ n b' _ => ?_).imp (fun hs => ⟨hs, rfl⟩)
      fun _ _ h => ⟨h.1, MessageBuild.fieldNames_eq_of_numbered h.2⟩
    exact Clean.locate_bind (Clean.pure fun h =>
      ⟨⟨h.1.keys, h.1.numbers_ok, h.1.ranges_ok, h.1.reserved_ok, h.1.nested_ok⟩, h.2⟩)

theorem syntheticOneofs_map {β : Type} {k : FieldDescriptor → β} (hk : ∀ f i, k { f with oneofIndex := i } = k f)
    (fields : Array FieldDescriptor) (oneofs : Array OneofDescriptor) (indices : List Nat) :
    (syntheticOneofs fields oneofs indices).1.toList.map k = fields.toList.map k := by
  unfold syntheticOneofs
  dsimp only
  refine List.foldlRecOn (motive := fun (acc : Array FieldDescriptor × Array OneofDescriptor × List String) =>
    acc.1.toList.map k = fields.toList.map k) _ _ rfl ?_
  intro acc hacc i _
  rw [← hacc, Array.toList_modify]
  exact List.map_modify_of_forall (fun f => hk f _) _ _

theorem syntheticOneofs_keys (fields : Array FieldDescriptor) (oneofs : Array OneofDescriptor)
    (indices : List Nat) :
    (syntheticOneofs fields oneofs indices).1.toList.map (fun f => (f.name, f.number)) =
      fields.toList.map fun f => (f.name, f.number) :=
  syntheticOneofs_map (fun _ _ => rfl) fields oneofs indices

theorem finishMessage_clean (path : List Int) (full : String) (name : Spanned String) (b : MessageBuild) :
    Clean ctx (b.Sound ctx.proto3 ∧ b.fieldNames.Nodup) (finishMessage path full name b) fun md =>
      md.WellFormed ctx.proto3 := by
  unfold finishMessage
  refine (Clean.of_kept fun _ => interpretOptions_spec _ _ _ _).bind fun options => ?_
  dsimp only
  generalize hp : (if b.proto3Optional.isEmpty = true then (b.fields, b.oneofs)
    else syntheticOneofs b.fields b.oneofs b.proto3Optional.toList) = p
  -- the fields after the oneofs of proto3 `optional` fields are set keep their names and numbers
  have hkeys : p.1.toList.map (fun f => (f.name, f.number)) = b.fields.toList.map fun f => (f.name, f.number) := by
    rw [← hp]
    split
    · rfl
    · exact syntheticOneofs_keys _ _ _
  refine ((validateMessage_clean _ _ _ _ _ _).frame fun _ => trivial).bind fun _ => Clean.pure ?_
  rintro ⟨⟨hs, hnames⟩, hchk, hjson⟩
  refine .intro ?_ hs.nested_ok
  exact fieldsWellFormed_of_checks (hkeys.trans hs.keys) hnames hs.numbers_ok hchk hs.ranges_ok hs.reserved_ok
    hjson _ _ _ _ _ _

theorem body_clean :
    (∀ path full body (b : MessageBuild), MessageElement.BodyDistinctFields body →
      Clean ctx (b.Sound ctx.proto3) (elements path full body b) fun b' =>
        b'.Sound ctx.proto3 ∧ b'.fieldNames = b.fieldNames ++ body.flatMap MessageElement.fieldNames) ∧
    (∀ path full (e : MessageElement) (b : MessageBuild), e.DistinctFields →
      Clean ctx (b.Sound ctx.proto3) (element path full e b) fun b' =>
        b'.Sound ctx.proto3 ∧ b'.fieldNames = b.fieldNames ++ e.fieldNames) ∧
    (∀ extBase typeBase scope extendeeSpan extendee body
        (acc : Array FieldDescriptor × Array MessageDescriptor), ExtendElement.BodyDistinctFields body →
      Clean ctx (∀ md ∈ acc.2.toList, md.WellFormed ctx.proto3)
        (extendMembers extBase typeBase scope extendeeSpan extendee body acc) fun r =>
          ∀ md ∈ r.2.toList, md.WellFormed ctx.proto3) ∧
    (∀ fieldPath typePath scope site (g : Group), g.DistinctFields →
      Clean ctx True (group fieldPath typePath scope site g) fun r =>
        r.1.name = some (groupFieldName g.name.value) ∧ r.1.number = some g.number.value ∧
          (site.isExtension = false → FieldNumberOk g.number.value) ∧ r.2.WellFormed ctx.proto3) ∧
    (∀ path full index body (acc : MessageBuild × Nat), OneofElement.BodyDistinctFields body →
      Clean ctx (acc.1.Sound ctx.proto3) (oneofMembers path full index body acc) fun r =>
        r.1.Sound ctx.proto3 ∧ r.1.fieldNames = acc.1.fieldNames ++ body.filterMap OneofElement.fieldName?) := by
  apply elements.mutual_induct
  case case1 =>
    intro path full f b _
    rw [element]
    refine ((plainField_clean _ _ f .message).frame fun _ => trivial).bind fun fd => Clean.pure ?_
    rintro ⟨hs, hn, hnum, hok⟩
    -- the index of a proto3 `optional` field is recorded, which neither soundness nor the
    -- field names read
    split
    all_goals refine ⟨?_, by simp [MessageBuild.fieldNames, MessageElement.fieldNames]⟩
    · exact (hs.push_field hn hnum (hok rfl)).congr rfl rfl rfl rfl rfl
    · exact hs.push_field hn hnum (hok rfl)
  case case2 =>
    intro path full m b _
    rw [element]
    refine ((mapField_clean _ _ _ m).frame fun _ => trivial).bind fun r => Clean.pure ?_
    rintro ⟨hs, hn, hnum, hok, hwf⟩
    exact ⟨(hs.push_field hn hnum hok).push_nested hwf,
      by simp [MessageBuild.fieldNames, MessageElement.fieldNames]⟩
  case case3 =>
    intro path full g b ih hd
    rw [element]
    refine ((ih hd).frame fun _ => trivial).bind fun r => Clean.pure ?_
    rintro ⟨hs, hn, hnum, hok, hwf⟩
    exact ⟨(hs.push_field hn hnum (hok rfl)).push_nested hwf,
      by simp [MessageBuild.fieldNames, MessageElement.fieldNames]⟩
  case case4 =>
    intro path full name body decl b index ih hd
    rw [element]
    refine Clean.locateDecl_bind (Clean.locate_bind ?_)
    refine (Clean.of_kept fun _ => interpretOptions_spec _ _ _ _).bind fun options => ?_
    refine ((ih options hd).imp (fun hs => hs.congr rfl rfl rfl rfl rfl) fun _ _ h => h).bind fun r => ?_
    repeat' (first | with_reducible refine Clean.report_bind ?_ | split | dsimp only)
    all_goals exact Clean.pure id
  case case5 =>
    intro path full name body decl b mpath mfull ih hd
    rw [element]
    refine (Clean.of_kept fun _ => startMessage_spec _ _ _).bind fun _ => ?_
    refine ((ih hd.2).frame fun _ => MessageBuild.Sound.empty).bind fun mb => ?_
    refine ((finishMessage_clean _ _ _ mb).frame fun h => ⟨h.2.1, ?_⟩).bind fun m => Clean.pure ?_
    · -- the fields of the nested message are those of its body
      rw [h.2.2]
      exact hd.1
    · rintro ⟨⟨hs, -⟩, hwf⟩
      exact ⟨hs.push_nested hwf, (List.append_nil _).symm⟩
  case case6 =>
    intro path full e b _
    rw [element]
    refine (Clean.of_kept fun _ => enumeration_spec _ _ _).bind fun d => Clean.pure ?_
    exact fun hs => ⟨hs.congr rfl rfl rfl rfl rfl, (List.append_nil _).symm⟩
  case case7 =>
    intro path full extendee body decl b ih hd
    rw [element]
    refine (Clean.of_kept fun _ => startExtend_spec _ _ _ _).bind fun resolved => ?_
    refine ((ih resolved hd).frame fun hs => hs.nested_ok).bind fun r => Clean.pure ?_
    rintro ⟨hs, hnested⟩
    exact ⟨⟨hs.keys, hs.numbers_ok, hs.ranges_ok, hs.reserved_ok, hnested⟩, (List.append_nil _).symm⟩
  case case8 =>
    intro path full r b _
    rw [element]
    exact (extensionRanges_clean path full r b).imp id fun _ _ h => ⟨h.1, h.2.trans (List.append_nil _).symm⟩
  case case9 =>
    intro path full r b _
    rw [element]
    exact (reservedOf_clean path r b).imp id fun _ _ h => ⟨h.1, h.2.trans (List.append_nil _).symm⟩
  case case10 =>
    intro path full o b _
    rw [element]
    exact Clean.pure fun hs => ⟨hs.congr rfl rfl rfl rfl rfl, (List.append_nil _).symm⟩
  case case11 =>
    intro fieldPath typePath scope site label keywordSpan name number options body decl ih hd
    rw [group]
    refine (fieldShell_clean _ _ _ _ _ _ _).bind fun fd => ?_
    refine Clean.locate_bind (Clean.locate_bind ?_)
    refine (fieldOptionsOf_clean _ _ _ _ _ _ _).bind fun fd' => ?_
    refine (Clean.of_kept fun _ => startMessage_spec _ _ _).bind fun _ => ?_
    refine ((ih hd.2).frame fun _ => MessageBuild.Sound.empty).bind fun mb => ?_
    refine ((finishMessage_clean _ _ _ mb).frame fun h => ⟨h.2.1, ?_⟩).bind fun m => Clean.pure ?_
    · -- the fields of the group's message are those of its body
      rw [h.2.2]
      exact hd.1
    · rintro ⟨⟨⟨⟨hn, hnum, hok⟩, hn', hnum'⟩, -⟩, hwf⟩
      exact ⟨hn'.trans hn, hnum'.trans hnum, hok, hwf⟩
  case case12 =>
    intro path full b _
    rw [elements]
    exact Clean.pure fun hs => ⟨hs, (List.append_nil _).symm⟩
  case case13 =>
    intro path full e rest b ih₁ ih₂ hd
    rw [elements]
    refine (ih₁ hd.1).bind fun b' => (ih₂ b' hd.2).imp And.left ?_
    rintro b'' ⟨-, hb'⟩ ⟨hs, hb''⟩
    refine ⟨hs, ?_⟩
    rw [hb'', hb', List.flatMap_cons, List.append_assoc]
  case case14 =>
    intro path full index acc _
    rw [oneofMembers]
    exact Clean.pure fun hs => ⟨hs, (List.append_nil _).symm⟩
  case case15 =>
    intro path full index f rest b n ih hd
    rw [oneofMembers]
    refine ((plainField_clean _ _ f (.oneof index)).frame fun _ => trivial).bind fun fd => ?_
    refine (ih fd hd).imp ?_ ?_
    · rintro ⟨hs, hn, hnum, hok⟩
      exact hs.push_field hn hnum (hok rfl)
    · rintro r - ⟨hs, hr⟩
      refine ⟨hs, ?_⟩
      rw [hr]
      simp [MessageBuild.fieldNames, OneofElement.fieldName?]
  case case16 =>
    intro path full index g rest b n ihg ih hd
    rw [oneofMembers]
    refine ((ihg hd.1).frame fun _ => trivial).bind fun r => ?_
    obtain ⟨fd, nested⟩ := r
    refine (ih fd nested hd.2).imp ?_ ?_
    · rintro ⟨hs, hn, hnum, hok, hwf⟩
      exact (hs.push_field hn hnum (hok rfl)).push_nested hwf
    · rintro r - ⟨hs, hr⟩
      refine ⟨hs, ?_⟩
      rw [hr]
      simp [MessageBuild.fieldNames, OneofElement.fieldName?]
  case case17 =>
    intro path full index o rest acc ih hd
    rw [oneofMembers]
    exact ih hd
  case case18 =>
    intro extBase typeBase scope extendeeSpan extendee acc _
    rw [extendMembers]
    exact Clean.pure id
  case case19 =>
    intro extBase typeBase scope extendeeSpan extendee f rest exts types ih hd
    rw [extendMembers]
    refine (Clean.of_kept fun _ => plainField_spec _ _ _ _).bind fun fd => ?_
    refine (Clean.of_kept fun _ => finishExtension_spec _ _ _ _ _).bind fun fd' => ?_
    exact ih fd' hd
  case case20 =>
    intro extBase typeBase scope extendeeSpan extendee g rest exts types epath ihg ih hd
    rw [extendMembers]
    refine ((ihg hd.1).frame fun _ => trivial).bind fun r => ?_
    obtain ⟨fd, nested⟩ := r
    refine (Clean.of_kept fun _ => finishExtension_spec _ _ _ _ _).bind fun fd' => ?_
    refine (ih nested fd' hd.2).imp ?_ fun _ _ h => h
    rintro ⟨hnested, -, -, -, hwf⟩
    exact forall_mem_toList_push hnested hwf

/-- A clean run on a message whose messages have fields of distinct names returns a
well-formed message. -/
theorem message_clean (path : List Int) (scope : String) (m : Message) (hm : m.DistinctFields) :
    Clean ctx True (message path scope m) fun md => md.WellFormed ctx.proto3 := by
  obtain ⟨name, body, decl⟩ := m
  obtain ⟨hnodup, hbody⟩ := hm
  rw [message]
  refine (Clean.of_kept fun _ => startMessage_spec _ _ _).bind fun _ => ?_
  refine ((body_clean.1 _ _ body {} hbody).imp (fun _ => MessageBuild.Sound.empty) fun _ _ h => h).bind
    fun b => (finishMessage_clean _ _ _ b).imp (fun h => ⟨h.1, ?_⟩) fun _ _ h => h
  rw [h.2]
  exact hnodup

theorem extendBlock_clean (extBase typeBase : List Int) (scope : String) (x : Extend)
    (acc : Array FieldDescriptor × Array MessageDescriptor) (hx : ExtendElement.BodyDistinctFields x.body) :
    Clean ctx (∀ md ∈ acc.2.toList, md.WellFormed ctx.proto3) (extendBlock extBase typeBase scope x acc)
      fun r => ∀ md ∈ r.2.toList, md.WellFormed ctx.proto3 := by
  obtain ⟨extendee, body, decl⟩ := x
  rw [extendBlock]
  refine (Clean.of_kept fun _ => startExtend_spec _ _ _ _).bind fun resolved => ?_
  exact body_clean.2.2.1 _ _ _ _ _ _ _ hx

theorem Clean.foldlM_push {α γ : Type} {H : Prop} {P : α → Prop} (f : Nat → γ → CompileM α) (l : List γ)
    (hf : ∀ i x, x ∈ l → Clean ctx True (f i x) P) :
    Clean ctx H (l.foldlM (fun acc x => do return acc.push (← f acc.size x)) #[]) fun acc =>
      H ∧ ∀ a ∈ acc.toList, P a := by
  refine (Clean.foldlM (fun _ acc => H ∧ ∀ a ∈ acc.toList, P a) l [] #[] fun _ x acc hx => ?_).imp
    (fun h => ⟨h, by simp⟩) fun _ _ h => h
  refine ((hf acc.size x hx).frame fun _ => trivial).bind fun a => Clean.pure ?_
  rintro ⟨⟨hH, hacc⟩, ha⟩
  exact ⟨hH, forall_mem_toList_push hacc ha⟩

theorem file_clean (hs : ctx.file.schema.DistinctFields) :
    Clean ctx True file fun fd =>
      fd.dialect = (if ctx.proto3 then some "proto3" else none) ∧
        ∀ md ∈ fd.messageType, md.WellFormed ctx.proto3 := by
  unfold file
  refine Clean.read ?_
  dsimp only
  refine Clean.locate_bind ?_
  -- the version and package declarations only add locations: the rest is met four times
  split <;> (try refine Clean.locateDecl_bind ?_) <;> split <;> (try refine Clean.locateDecl_bind ?_)
  all_goals
    refine (Clean.of_kept fun _ => imports_spec _).bind fun _ => ?_
    refine (Clean.of_kept fun _ => interpretOptions_spec _ _ _ _).bind fun _ => ?_
    refine (Clean.foldlM_push (fun i m => message [4, (i : Int)] _ m) _
      fun _ m hm => message_clean _ _ m (hs.1 m hm)).bind fun messages => ?_
    refine (Clean.foldlM (fun _ _ => _) _ [] #[]
      fun _ e _ _ => (Clean.of_kept fun _ => enumeration_spec _ _ _).bind fun _ => Clean.pure id).bind
      fun _ => ?_
    refine (Clean.foldlM (fun _ _ => _) _ [] #[]
      fun _ svc _ _ => (Clean.of_kept fun _ => service_spec _ _ _).bind fun _ => Clean.pure id).bind
      fun _ => ?_
    refine ((Clean.foldlM (fun _ acc => ∀ md ∈ acc.2.toList, md.WellFormed ctx.proto3) _ [] (#[], messages)
      fun _ x acc hx => extendBlock_clean [7] [4] _ x acc (hs.2 x hx)).imp (fun h => h.2) fun _ _ h => h).bind
      fun r => ?_
    exact Clean.get_bind fun _ => Clean.pure fun h => ⟨rfl, h⟩

end CompileM

/-- A file compiled without annotations, from a schema whose messages have fields of
distinct names at any depth, has only well-formed messages, and its version is proto3 exactly
when it was compiled as proto3. -/
theorem compileFile_wellFormed {ctx : CompileContext} (hs : ctx.file.schema.DistinctFields)
    (hclean : (compileFile ctx).2 = []) :
    (compileFile ctx).1.dialect = (if ctx.proto3 then some "proto3" else none) ∧
      ∀ md ∈ (compileFile ctx).1.messageType, md.WellFormed ctx.proto3 :=
  (CompileM.file_clean hs).of_run trivial {} rfl (Array.toList_eq_nil_iff.mp hclean)

end ProtoSchema
