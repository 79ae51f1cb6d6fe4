import ProtoSchema.Proofs.Compile.Messages

/-!
The oneofs of a message descriptor. A field names the oneof it belongs to by its index, and
the members of a oneof are consecutive fields. Each proto3 `optional` field gets a oneof of
its own, after the written ones, named after the field with `_` in front, and with `X` put in
front again until no field or oneof has the name. `OneofLayout` says all this of the fields
and oneofs of a message. The name found is new (`freshName_not_mem`), and giving the proto3
`optional` fields their oneofs turns a layout of the written oneofs into a layout of all of
them (`syntheticOneofs_layout`).
-/

namespace ProtoSchema

def MembersBetween (fields : List FieldDescriptor) (k : Int) (i j : Nat) : Prop :=
  ∀ n, fields[n]?.bind (·.oneofIndex) = some k ↔ i ≤ n ∧ n < j

/-- The fields belong only to the oneofs of index below `m`, and the members of each of these
are a non-empty run of consecutive fields. -/
structure OneofBlocks (fields : List FieldDescriptor) (m : Nat) : Prop where
  index_lt : ∀ f ∈ fields, ∀ k, f.oneofIndex = some k → 0 ≤ k ∧ k < m
  contiguous : ∀ k : Nat, k < m → ∃ i j, i < j ∧ MembersBetween fields k i j

/-- The fields and oneofs of a message are laid out as a descriptor requires: the oneofs are
blocks of consecutive fields; the proto3 `optional` fields are exactly the members of the
oneofs from some index `d` on, one field to each; and the oneofs have distinct names, none
the name of a field. -/
structure OneofLayout (fields : List FieldDescriptor) (oneofs : List OneofDescriptor) : Prop
    extends OneofBlocks fields oneofs.length where
  synthetic : ∃ d ≤ oneofs.length,
    (∀ f ∈ fields, f.proto3Optional = some true ↔ ∃ k : Nat, d ≤ k ∧ f.oneofIndex = some (k : Int)) ∧
      ∀ k : Nat, d ≤ k → k < oneofs.length → ∃ i, MembersBetween fields k i (i + 1)
  names_nodup : (oneofs.map (·.name)).Nodup
  names_fresh : ∀ o ∈ oneofs, ∀ f ∈ fields, o.name ≠ f.name

namespace MessageDescriptor

/-- The fields and oneofs of a message, and of every message nested in it at any depth, are
laid out as a descriptor requires. -/
inductive OneofsWellFormed : MessageDescriptor → Prop where
  | intro {md : MessageDescriptor} : OneofLayout md.field md.oneofDecl →
      (∀ n ∈ md.nestedType, OneofsWellFormed n) → OneofsWellFormed md

end MessageDescriptor

/-! ### Runs of members -/

section Members

variable {fields ms : List FieldDescriptor} {k m : Int} {i j p : Nat}

theorem MembersBetween.le_length (h : MembersBetween fields k i j) (hij : i < j) :
    j ≤ fields.length := by
  have hlast := (h (j - 1)).mpr ⟨by omega, by omega⟩
  by_contra hlt
  rw [List.getElem?_eq_none (by omega)] at hlast
  cases hlast

theorem MembersBetween.append (h : MembersBetween fields k i j) (hij : i < j)
    (hms : ∀ f ∈ ms, f.oneofIndex ≠ some k) : MembersBetween (fields ++ ms) k i j := by
  have hj := h.le_length hij
  intro n
  rw [List.getElem?_append]
  split
  · exact h n
  · -- past the old fields nothing belongs to the oneof
    constructor
    · intro hn
      obtain ⟨f, hf, hfk⟩ := Option.bind_eq_some_iff.mp hn
      exact absurd hfk (hms f (List.mem_of_getElem? hf))
    · intro hn
      omega

theorem membersBetween_append (hfields : ∀ f ∈ fields, f.oneofIndex ≠ some k)
    (hms : ∀ f ∈ ms, f.oneofIndex = some k) :
    MembersBetween (fields ++ ms) k fields.length (fields.length + ms.length) := by
  intro n
  rw [List.getElem?_append]
  split
  · constructor
    · intro hn
      obtain ⟨f, hf, hfk⟩ := Option.bind_eq_some_iff.mp hn
      exact absurd hfk (hfields f (List.mem_of_getElem? hf))
    · intro hn
      omega
  · constructor
    · intro hn
      obtain ⟨f, hf, -⟩ := Option.bind_eq_some_iff.mp hn
      have := (List.getElem?_eq_some_iff.mp hf).1
      omega
    · intro hn
      rw [List.getElem?_eq_getElem (by omega)]
      exact hms _ (List.getElem_mem _)

theorem oneofIndex_modify_iff (hp : fields[p]?.bind (·.oneofIndex) = none) (hk : m ≠ k) (n : Nat) :
    (fields.modify p fun f => { f with oneofIndex := some m })[n]?.bind (·.oneofIndex) = some k ↔
      fields[n]?.bind (·.oneofIndex) = some k := by
  rw [List.getElem?_modify]
  by_cases hpn : p = n
  · subst hpn
    cases hf : fields[p]? with
    | none => simp
    | some f => simp_all
  · simp [hpn]

theorem MembersBetween.modify (h : MembersBetween fields k i j) (hp : fields[p]?.bind (·.oneofIndex) = none)
    (hk : m ≠ k) : MembersBetween (fields.modify p fun f => { f with oneofIndex := some m }) k i j :=
  fun n => (oneofIndex_modify_iff hp hk n).trans (h n)

theorem membersBetween_modify_new (hp : p < fields.length) (hnew : ∀ f ∈ fields, f.oneofIndex ≠ some m) :
    MembersBetween (fields.modify p fun f => { f with oneofIndex := some m }) m p (p + 1) := by
  intro n
  rw [List.getElem?_modify]
  by_cases hpn : p = n
  · subst hpn
    simp [List.getElem?_eq_getElem hp]
  · constructor
    · intro hn
      simp only [hpn, if_false, id_map'] at hn
      obtain ⟨f, hf, hfm⟩ := Option.bind_eq_some_iff.mp hn
      exact absurd hfm (hnew f (List.mem_of_getElem? hf))
    · intro hn
      omega

end Members

section Blocks

variable {fields ms : List FieldDescriptor} {m : Nat}

theorem OneofBlocks.push_plain (h : OneofBlocks fields m) {f : FieldDescriptor} (hf : f.oneofIndex = none) :
    OneofBlocks (fields ++ [f]) m where
  index_lt g hg k hk := by
    rcases List.mem_append.mp hg with hg | hg
    · exact h.index_lt g hg k hk
    · rw [List.mem_singleton.mp hg, hf] at hk
      cases hk
  contiguous k hk := by
    obtain ⟨i, j, hij, hb⟩ := h.contiguous k hk
    exact ⟨i, j, hij, hb.append hij (by simp [hf])⟩

theorem OneofBlocks.append_members (h : OneofBlocks fields m) (hne : ms ≠ [])
    (hms : ∀ f ∈ ms, f.oneofIndex = some (m : Int)) : OneofBlocks (fields ++ ms) (m + 1) where
  index_lt g hg k hk := by
    rcases List.mem_append.mp hg with hg | hg
    · have := h.index_lt g hg k hk
      omega
    · rw [hms g hg, Option.some_inj] at hk
      omega
  contiguous k hk := by
    have hold : ∀ f ∈ fields, f.oneofIndex ≠ some (m : Int) := fun f hf hfm => by
      have := h.index_lt f hf _ hfm
      omega
    rcases Nat.lt_succ_iff_lt_or_eq.mp hk with hk | rfl
    · obtain ⟨i, j, hij, hb⟩ := h.contiguous k hk
      refine ⟨i, j, hij, hb.append hij fun f hf hfk => ?_⟩
      rw [hms f hf, Option.some_inj] at hfk
      omega
    · have := List.length_pos_of_ne_nil hne
      exact ⟨_, _, by omega, membersBetween_append hold hms⟩

theorem OneofBlocks.modify_new (h : OneofBlocks fields m) {p : Nat} (hp : p < fields.length)
    (hplain : fields[p]?.bind (·.oneofIndex) = none) :
    OneofBlocks (fields.modify p fun f => { f with oneofIndex := some (m : Int) }) (m + 1) where
  index_lt g hg k hk := by
    obtain ⟨n, hn⟩ := List.mem_iff_getElem?.mp hg
    rw [List.getElem?_modify] at hn
    by_cases hpn : p = n
    · -- the field moved is in the new oneof
      subst hpn
      rw [List.getElem?_eq_getElem hp] at hn
      simp only [if_true, Option.map_eq_map, Option.map_some, Option.some_inj] at hn
      rw [← hn, Option.some_inj] at hk
      omega
    · simp only [hpn, if_false, id_map'] at hn
      have := h.index_lt g (List.mem_of_getElem? hn) k hk
      omega
  contiguous k hk := by
    have hnew : ∀ f ∈ fields, f.oneofIndex ≠ some (m : Int) := fun f hf hfm => by
      have := h.index_lt f hf _ hfm
      omega
    rcases Nat.lt_succ_iff_lt_or_eq.mp hk with hk | rfl
    · obtain ⟨i, j, hij, hb⟩ := h.contiguous k hk
      exact ⟨i, j, hij, hb.modify hplain (by omega)⟩
    · exact ⟨p, p + 1, by omega, membersBetween_modify_new hp hnew⟩

end Blocks

/-! ### Fresh names -/

def xPrefixed (k : Nat) (name : String) : String := (fun s => "X" ++ s)^[k] name

theorem xPrefixed_length (k : Nat) (name : String) : (xPrefixed k name).length = name.length + k := by
  induction k with
  | zero => rfl
  | succ k ih =>
    rw [xPrefixed, Function.iterate_succ_apply', String.length_append, ← xPrefixed, ih]
    have hX : "X".length = 1 := rfl
    omega

theorem xPrefixed_mem_of_freshName (taken : List String) :
    ∀ fuel name, CompileM.freshName taken fuel name ∈ taken → ∀ k ≤ fuel, xPrefixed k name ∈ taken
  | 0, name, h, k, hk => by
    rw [Nat.le_zero.mp hk]
    exact h
  | fuel + 1, name, h, k, hk => by
    rw [CompileM.freshName] at h
    split at h
    · rename_i hc
      cases k with
      | zero =>
        show name ∈ taken
        simpa using hc
      | succ k =>
        rw [xPrefixed, Function.iterate_succ_apply]
        exact xPrefixed_mem_of_freshName taken fuel _ h k (by omega)
    · rename_i hc
      exact absurd (List.elem_iff.mpr h) (by simpa using hc)

/-- With one more turn than there are taken names, `freshName` finds a name not taken: the
candidates are all distinct, and not all of them fit among the names taken. -/
theorem freshName_not_mem (taken : List String) (name : String) :
    CompileM.freshName taken (taken.length + 1) name ∉ taken := by
  intro h
  have hall := xPrefixed_mem_of_freshName taken _ name h
  have hinj : Function.Injective fun k => xPrefixed k name := fun a b hab => by
    have := congrArg String.length hab
    simp only [xPrefixed_length] at this
    omega
  have hsub : (List.range (taken.length + 2)).map (fun k => xPrefixed k name) ⊆ taken := by
    intro s hs
    obtain ⟨k, hk, rfl⟩ := List.mem_map.mp hs
    exact hall k (by rw [List.mem_range] at hk; omega)
  have hle := (List.nodup_range.map hinj).length_le_of_subset hsub
  simp at hle

/-! ### The oneofs of proto3 `optional` fields -/

theorem foldl_invariant {α β : Type} {f : β → α → β} (I : List α → List α → β → Prop)
    (hf : ∀ done a rest acc, I done (a :: rest) acc → I (done ++ [a]) rest (f acc a)) :
    ∀ rest done acc, I done rest acc → I (done ++ rest) [] (rest.foldl f acc)
  | [], done, acc, h => by simpa using h
  | a :: rest, done, acc, h => by
    simpa using foldl_invariant I hf rest (done ++ [a]) (f acc a) (hf done a rest acc h)

theorem getElem?_bind_eq_of_map_eq {α β : Type} {l l' : List α} {g : α → Option β}
    (h : l.map g = l'.map g) (n : Nat) : l[n]?.bind g = l'[n]?.bind g := by
  have hn := congrArg (·[n]?) h
  simp only [List.getElem?_map] at hn
  cases hl : l[n]? <;> cases hl' : l'[n]? <;> simp_all

theorem mem_filterMap_of_map_eq {γ : Type} {xs : List γ} {g : γ → Option String} {l : List String}
    (hl : xs.map g = l.map some) {x : String} : x ∈ xs.filterMap g ↔ x ∈ l := by
  rw [List.mem_filterMap]
  have h := congrArg (some x ∈ ·) hl
  simpa using h

/-- Half-way through giving the proto3 `optional` fields at `done ++ rest` their oneofs, after
the `m` written ones: each at `done` has one of its own, those at `rest` have none yet, the
fields keep their names and labels, and `taken` holds the names of the fields, `names`, and
those of the oneofs. -/
structure SyntheticProgress (fields₀ : List FieldDescriptor) (names : List String) (m : Nat)
    (done rest : List Nat) (fields : Array FieldDescriptor) (oneofs : Array OneofDescriptor)
    (taken : List String) : Prop where
  blocks : OneofBlocks fields.toList oneofs.size
  size : oneofs.size = m + done.length
  kept_names : fields.toList.map (·.name) = fields₀.map (·.name)
  kept_optional : fields.toList.map (·.proto3Optional) = fields₀.map (·.proto3Optional)
  nodup : (done ++ rest).Nodup
  rest_lt : ∀ n ∈ rest, n < fields₀.length
  rest_plain : ∀ n ∈ rest, fields.toList[n]?.bind (·.oneofIndex) = none
  done_iff : ∀ n, (∃ k : Nat, m ≤ k ∧ fields.toList[n]?.bind (·.oneofIndex) = some (k : Int)) ↔ n ∈ done
  single : ∀ k : Nat, m ≤ k → k < oneofs.size → ∃ i, MembersBetween fields.toList k i (i + 1)
  oneof_names : ∃ O, oneofs.toList.map (·.name) = O.map some ∧ (names ++ O).Nodup ∧
    ∀ x, x ∈ taken ↔ x ∈ names ∨ x ∈ O

namespace SyntheticProgress

variable {fields₀ : List FieldDescriptor} {names : List String} {m : Nat} {done rest : List Nat}
  {fields : Array FieldDescriptor} {oneofs : Array OneofDescriptor} {taken : List String}

theorem length_eq (h : SyntheticProgress fields₀ names m done rest fields oneofs taken) :
    fields.toList.length = fields₀.length := by
  simpa using congrArg List.length h.kept_names

theorem step {p : Nat} (h : SyntheticProgress fields₀ names m done (p :: rest) fields oneofs taken)
    {name : String} (hname : name ∉ taken) :
    SyntheticProgress fields₀ names m (done ++ [p]) rest
      (fields.modify p fun f => { f with oneofIndex := some (oneofs.size : Int) })
      (oneofs.push { name := some name }) (name :: taken) := by
  have hp : p < fields.toList.length := h.length_eq ▸ h.rest_lt p List.mem_cons_self
  have hplain := h.rest_plain p List.mem_cons_self
  obtain ⟨hdone, hrest⟩ : p ∉ done ∧ p ∉ rest := by
    have hnd := h.nodup
    rw [List.nodup_append, List.nodup_cons] at hnd
    exact ⟨fun hd => hnd.2.2 p hd p List.mem_cons_self rfl, hnd.2.1.1⟩
  refine ⟨?blocks, ?size, ?names, ?optional, ?nodup, ?lt, ?plain, ?done, ?single, ?oneofNames⟩
  case blocks =>
    rw [Array.toList_modify, Array.size_push]
    exact h.blocks.modify_new hp hplain
  case size =>
    rw [Array.size_push, h.size, List.length_append, List.length_singleton, Nat.add_assoc]
  case names =>
    rw [Array.toList_modify, List.map_modify_of_forall]
    · exact h.kept_names
    · exact fun _ => rfl
  case optional =>
    rw [Array.toList_modify, List.map_modify_of_forall]
    · exact h.kept_optional
    · exact fun _ => rfl
  case nodup => simpa using h.nodup
  case lt => exact fun n hn => h.rest_lt n (List.mem_cons_of_mem _ hn)
  case plain =>
    intro n hn
    rw [Array.toList_modify, List.getElem?_modify_ne _ _ (fun hpn => hrest (by rw [hpn]; exact hn))]
    exact h.rest_plain n (List.mem_cons_of_mem _ hn)
  case done =>
    intro n
    rw [Array.toList_modify, List.mem_append, List.mem_singleton]
    by_cases hpn : p = n
    · -- the field moved is in the new oneof, past the written ones
      subst hpn
      simp only [List.getElem?_modify_eq, List.getElem?_eq_getElem hp, Option.map_eq_map, Option.map_some,
        Option.bind_some, Option.some_inj, Nat.cast_inj, exists_eq_right', iff_true, or_true]
      rw [h.size]
      omega
    · rw [List.getElem?_modify_ne _ _ hpn, h.done_iff n]
      exact ⟨Or.inl, fun hn => hn.resolve_right (Ne.symm hpn)⟩
  case single =>
    intro k hmk hk
    rw [Array.size_push] at hk
    rw [Array.toList_modify]
    rcases Nat.lt_succ_iff_lt_or_eq.mp hk with hk | rfl
    · obtain ⟨i, hi⟩ := h.single k hmk hk
      exact ⟨i, hi.modify hplain (by omega)⟩
    · refine ⟨p, membersBetween_modify_new hp fun f hf hfk => ?_⟩
      have := h.blocks.index_lt f hf _ hfk
      omega
  case oneofNames =>
    obtain ⟨O, hO, hnd, htaken⟩ := h.oneof_names
    have hnew : name ∉ names ++ O := fun hn => hname ((htaken name).mpr (List.mem_append.mp hn))
    refine ⟨O ++ [name], by simp [hO], ?_, fun x => ?_⟩
    · rw [← List.append_assoc]
      exact List.nodup_append.mpr ⟨hnd, List.nodup_singleton _,
        fun a ha b hb hab => hnew (by rw [List.mem_singleton.mp hb] at hab; exact hab ▸ ha)⟩
    · rw [List.mem_cons, htaken, List.mem_append, List.mem_singleton]
      tauto

theorem layout (h : SyntheticProgress fields₀ names m done [] fields oneofs taken)
    (hopt : ∀ n, fields₀[n]?.bind (·.proto3Optional) = some true ↔ n ∈ done)
    (hnames : fields₀.map (·.name) = names.map some) : OneofLayout fields.toList oneofs.toList := by
  obtain ⟨O, hO, hnd, -⟩ := h.oneof_names
  refine ⟨by simpa using h.blocks, ⟨m, ?_, fun f hf => ?_, ?_⟩, ?_, ?_⟩
  · rw [Array.length_toList, h.size]
    omega
  · -- a field is proto3 `optional` exactly when it was recorded, so when it has a new oneof
    obtain ⟨n, hn⟩ := List.mem_iff_getElem?.mp hf
    have hopt' := getElem?_bind_eq_of_map_eq h.kept_optional n
    rw [hn, Option.bind_some] at hopt'
    have hdone := h.done_iff n
    rw [hn, Option.bind_some] at hdone
    rw [hopt', hopt n, hdone]
  · intro k hmk hk
    exact h.single k hmk (by simpa using hk)
  · rw [hO]
    exact (List.nodup_append.mp hnd).2.1.map (Option.some_injective _)
  · intro o ho f hf heq
    obtain ⟨x, hx, hox⟩ := List.mem_map.mp (hO ▸ List.mem_map_of_mem ho : o.name ∈ O.map some)
    have hfn : f.name ∈ names.map some := hnames ▸ h.kept_names ▸ List.mem_map_of_mem hf
    obtain ⟨y, hy, hfy⟩ := List.mem_map.mp hfn
    rw [← hox, ← hfy, Option.some_inj] at heq
    exact List.disjoint_of_nodup_append hnd hy (heq ▸ hx)

end SyntheticProgress

/-- Giving the proto3 `optional` fields their oneofs, when the written oneofs are blocks, the
fields recorded are exactly the proto3 `optional` ones, in no oneof, and the names of the
fields and oneofs are distinct, lays out the fields and oneofs as a descriptor requires. -/
theorem syntheticOneofs_layout {fields : Array FieldDescriptor} {oneofs : Array OneofDescriptor}
    {opt : List Nat} {names oneofNames : List String} (hblocks : OneofBlocks fields.toList oneofs.size)
    (hopt : ∀ n, fields.toList[n]?.bind (·.proto3Optional) = some true ↔ n ∈ opt) (hnodup : opt.Nodup)
    (hplain : ∀ n ∈ opt, fields.toList[n]?.bind (·.oneofIndex) = none)
    (hnames : fields.toList.map (·.name) = names.map some)
    (honeofs : oneofs.toList.map (·.name) = oneofNames.map some) (hdistinct : (names ++ oneofNames).Nodup) :
    OneofLayout (CompileM.syntheticOneofs fields oneofs opt).1.toList
      (CompileM.syntheticOneofs fields oneofs opt).2.toList := by
  -- what is taken at the start is the names of the fields and of the written oneofs
  have htaken : ∀ x, x ∈ fields.toList.filterMap (·.name) ++ oneofs.toList.filterMap (·.name) ↔
      x ∈ names ∨ x ∈ oneofNames := fun x => by
    rw [List.mem_append, mem_filterMap_of_map_eq hnames, mem_filterMap_of_map_eq honeofs]
  have hinit : SyntheticProgress fields.toList names oneofs.size [] opt fields oneofs
      (fields.toList.filterMap (·.name) ++ oneofs.toList.filterMap (·.name)) := by
    refine ⟨hblocks, by simp, rfl, rfl, by simpa using hnodup, fun n hn => ?_, hplain, fun n => ?_, ?_,
      ⟨oneofNames, honeofs, hdistinct, htaken⟩⟩
    · obtain ⟨f, hf, -⟩ := Option.bind_eq_some_iff.mp ((hopt n).mpr hn)
      exact (List.getElem?_eq_some_iff.mp hf).1
    · -- before the first step every field is in a written oneof or none
      simp only [List.not_mem_nil, iff_false, not_exists, not_and]
      intro k hk hfk
      obtain ⟨f, hf, hfk⟩ := Option.bind_eq_some_iff.mp hfk
      have := hblocks.index_lt f (List.mem_of_getElem? hf) _ hfk
      omega
    · intro k hk hk'
      omega
  unfold CompileM.syntheticOneofs
  dsimp only
  refine SyntheticProgress.layout (foldl_invariant
    (fun done rest (acc : Array FieldDescriptor × Array OneofDescriptor × List String) =>
      SyntheticProgress fields.toList names oneofs.size done rest acc.1 acc.2.1 acc.2.2) ?step opt [] _ hinit)
    (by simpa using hopt) hnames
  case step =>
    intro done p rest acc h
    exact h.step (freshName_not_mem _ _)

end ProtoSchema
