import Mathlib.Data.List.Nodup
import ProtoSchema.Proofs.SymbolTable.Declared
import ProtoSchema.Proofs.SymbolTable.FieldNames

/-!
Names a file declares without conflict. The full names a schema file declares, read off its
syntax in the order the symbol table declares them, are `SchemaFile.fullNames`: each message,
field, map entry, group, oneof, enum, enum value, service, method and extension, under the
scope it is declared in. The symbol table records a conflict against a file whenever one of
these names is already declared, so when it records none, the file's full names are pairwise
distinct (`SymbolTable.build_fullNames_nodup`). The declarations of a message body are one
recursive block; they are followed by their joint induction, as the conflicts are.
-/

namespace ProtoSchema

def EnumElement.valueName? : EnumElement → Option String
  | .value v => some v.name.value
  | _ => none

def Enum.valueNames (e : Enum) : List String := e.body.filterMap EnumElement.valueName?

mutual

/-- The full names a message declares in `scope`: its own, then those of its body. -/
def Message.fullNames (scope : String) : Message → List String
  | .mk name body _ =>
    qualify scope name.value :: MessageElement.bodyFullNames (qualify scope name.value) body

def MessageElement.bodyFullNames (full : String) : List MessageElement → List String
  | [] => []
  | e :: rest => MessageElement.fullNames full e ++ MessageElement.bodyFullNames full rest

/-- The full names one statement of the body of the message of full name `full` declares:
a field, a map field with its entry message, a group, a oneof with its members, a nested
message or enum, or the fields of an extend block. -/
def MessageElement.fullNames (full : String) : MessageElement → List String
  | .field f => [qualify full f.name.value]
  | .map m => [qualify full m.name.value, qualify full (mapEntryName m.name.value)]
  | .group g => Group.fullNames full g
  | .oneof (.mk name body _) => qualify full name.value :: OneofElement.bodyFullNames full body
  | .message m => Message.fullNames full m
  | .enum e => qualify full e.name.value :: e.valueNames.map (qualify full)
  | .extend (.mk _ body _) => ExtendElement.bodyFullNames full body
  | .extensions _ => []
  | .reserved _ => []
  | .option _ => []

/-- The full names a group declares in `scope`: its field, its message, then its body. -/
def Group.fullNames (scope : String) : Group → List String
  | .mk _ _ name _ _ body _ =>
    qualify scope (groupFieldName name.value) :: qualify scope name.value ::
      MessageElement.bodyFullNames (qualify scope name.value) body

def OneofElement.bodyFullNames (full : String) : List OneofElement → List String
  | [] => []
  | .field f :: rest => qualify full f.name.value :: OneofElement.bodyFullNames full rest
  | .group g :: rest => Group.fullNames full g ++ OneofElement.bodyFullNames full rest
  | .option _ :: rest => OneofElement.bodyFullNames full rest

def ExtendElement.bodyFullNames (scope : String) : List ExtendElement → List String
  | [] => []
  | .field f :: rest => qualify scope f.name.value :: ExtendElement.bodyFullNames scope rest
  | .group g :: rest => Group.fullNames scope g ++ ExtendElement.bodyFullNames scope rest

end

/-- The full names a service declares in `scope`: its own, then its methods'. -/
def Service.fullNames (scope : String) (svc : Service) : List String :=
  qualify scope svc.name.value :: svc.body.flatMap fun
    | .method m => [qualify (qualify scope svc.name.value) m.name.value]
    | .option _ => []

/-- The full names a schema file declares in its package, in the order the symbol table
declares them: messages, enums with their values, services with their methods, extensions. -/
def SchemaFile.fullNames (s : SchemaFile) : List String :=
  s.messages.flatMap (Message.fullNames s.scope) ++
    s.enums.flatMap (fun e => qualify s.scope e.name.value :: e.valueNames.map (qualify s.scope)) ++
    s.services.flatMap (Service.fullNames s.scope) ++
    s.extendBlocks.flatMap fun x => ExtendElement.bodyFullNames s.scope x.body

namespace Collected

def Clear (file : Nat) (c : Collected) : Prop := ∀ x ∈ c.conflicts.toList, x.file ≠ file

/-- `c'` extends `c`: every name of `c` is still declared, after the conflicts of `c`. -/
structure Grows (c c' : Collected) : Prop where
  keys : ∀ k, c.table.symbols.contains k = true → c'.table.symbols.contains k = true
  conflicts : c.conflicts.toList <+: c'.conflicts.toList

theorem Grows.refl (c : Collected) : Grows c c := ⟨fun _ h => h, List.prefix_refl _⟩

theorem Grows.trans {c c' c'' : Collected} (h : Grows c c') (h' : Grows c' c'') : Grows c c'' :=
  ⟨fun k hk => h'.keys k (h.keys k hk), h.conflicts.trans h'.conflicts⟩

theorem Clear.of_grows {file : Nat} {c c' : Collected} (h : Grows c c') (hc : Clear file c') :
    Clear file c :=
  fun x hx => hc x (h.conflicts.subset hx)

/-- From `c` to `c'`, file `file` declared the full names `l`: no other name is added; unless
a conflict was recorded against the file, the names are distinct, none was declared before,
and all are declared after; and names distinct and new add no conflict. -/
structure Declares (file : Nat) (l : List String) (c c' : Collected) : Prop where
  grows : Grows c c'
  only : ∀ k, c'.table.symbols.contains k = true → c.table.symbols.contains k = true ∨ k ∈ l
  fresh : Clear file c' →
    l.Nodup ∧ (∀ n ∈ l, c.table.symbols.contains n = false) ∧ ∀ n ∈ l, c'.table.symbols.contains n = true
  clean : l.Nodup → (∀ n ∈ l, c.table.symbols.contains n = false) → c'.conflicts = c.conflicts

variable {file : Nat} {names : Array String}

theorem Declares.nil (c : Collected) : Declares file [] c c :=
  ⟨Grows.refl c, fun _ hk => Or.inl hk, fun _ => by simp, fun _ _ => rfl⟩

theorem Declares.append {l l' : List String} {c c' c'' : Collected} (h : Declares file l c c')
    (h' : Declares file l' c' c'') : Declares file (l ++ l') c c'' := by
  refine ⟨h.grows.trans h'.grows, fun k hk => ?_, fun hc => ?_, fun hnd hnew => ?_⟩
  · rcases h'.only k hk with hk | hk
    · exact (h.only k hk).imp_right (List.mem_append_left l')
    · exact Or.inr (List.mem_append_right _ hk)
  · obtain ⟨hnd', hnew', hin'⟩ := h'.fresh hc
    obtain ⟨hnd, hnew, hin⟩ := h.fresh (hc.of_grows h'.grows)
    refine ⟨List.nodup_append.mpr ⟨hnd, hnd', fun a ha b hb hab => ?_⟩, fun n hn => ?_, fun n hn => ?_⟩
    · -- a name of `l` is declared in `c'`, where those of `l'` are not yet
      subst hab
      have := hnew' a hb
      rw [hin a ha] at this
      cases this
    · rcases List.mem_append.mp hn with hn | hn
      · exact hnew n hn
      · cases hk : c.table.symbols.contains n
        · rfl
        · have := hnew' n hn
          rw [h.grows.keys n hk] at this
          cases this
    · rcases List.mem_append.mp hn with hn | hn
      · exact h'.grows.keys n (hin n hn)
      · exact hin' n hn
  · obtain ⟨hnd₁, hnd₂, hdisj⟩ := List.nodup_append.mp hnd
    -- the names of `l'` are still new after `l`: `l` added only its own names
    have hnew' : ∀ n ∈ l', c'.table.symbols.contains n = false := by
      intro n hn
      cases hk : c'.table.symbols.contains n
      · rfl
      · rcases h.only n hk with hk' | hk'
        · rw [hnew n (List.mem_append_right _ hn)] at hk'
          cases hk'
        · exact absurd rfl (hdisj n hk' n hn)
    rw [h'.clean hnd₂ hnew', h.clean hnd₁ fun n hn => hnew n (List.mem_append_left _ hn)]

theorem Declares.cons {n : String} {l : List String} {c c' c'' : Collected} (h : Declares file [n] c c')
    (h' : Declares file l c' c'') : Declares file (n :: l) c c'' :=
  h.append h'

theorem Declares.add (c : Collected) (scope name : String) (kind : SymbolKind) (hkind : kind ≠ .package)
    (span : Span) (info : SymbolInfo) :
    Declares file [qualify scope name] c (c.add names file scope name kind span info) := by
  unfold Collected.add
  dsimp only
  split
  · rename_i hnone
    have hfresh : c.table.symbols.contains (qualify scope name) = false := by
      rw [Std.HashMap.contains_eq_isSome_getElem?, ← Std.HashMap.get?_eq_getElem?, hnone]
      rfl
    refine ⟨⟨fun k hk => ?_, List.prefix_refl _⟩, fun k hk => ?_, fun _ => ⟨by simp, ?_, ?_⟩, fun _ _ => rfl⟩
    · rw [Std.HashMap.contains_insert, hk, Bool.or_true]
    · rw [Std.HashMap.contains_insert] at hk
      rcases Bool.or_eq_true_iff.mp hk with hk | hk
      · exact Or.inr (List.mem_singleton.mpr (beq_iff_eq.mp hk).symm)
      · exact Or.inl hk
    · intro n hn
      rw [List.mem_singleton.mp hn]
      exact hfresh
    · intro n hn
      rw [List.mem_singleton.mp hn, Std.HashMap.contains_insert]
      simp
  · -- the name is taken and this is no package: a conflict against the file
    rename_i existing hsome
    have hpkg : (existing.kind = .package && kind = .package) = false := by simp [hkind]
    simp only [hpkg, Bool.false_eq_true, if_false]
    have htaken : c.table.symbols.contains (qualify scope name) = true := by
      rw [Std.HashMap.contains_eq_isSome_getElem?, ← Std.HashMap.get?_eq_getElem?, hsome]
      rfl
    refine ⟨⟨fun _ hk => hk, by simp⟩, fun _ hk => Or.inl hk, fun hc => ?_, fun _ hnew => ?_⟩
    · have hx := hc _ (by rw [Array.toList_push]; exact List.mem_append_right _ (List.mem_singleton_self _))
      exact absurd rfl hx
    · rw [hnew _ (List.mem_singleton_self _)] at htaken
      cases htaken

theorem grows_add (c : Collected) (scope name : String) (kind : SymbolKind) (span : Span) (info : SymbolInfo) :
    Grows c (c.add names file scope name kind span info) := by
  unfold Collected.add
  dsimp only
  split
  · exact ⟨fun k hk => by rw [Std.HashMap.contains_insert, hk, Bool.or_true], List.prefix_refl _⟩
  · split
    · split
      · split
        · exact Grows.refl c
        · refine ⟨fun k hk => ?_, List.prefix_refl _⟩
          rw [Std.HashMap.contains_insert, hk, Bool.or_true]
      · exact Grows.refl c
    · exact ⟨fun _ hk => hk, by simp⟩

theorem Declares.foldl {α : Type} {f : Collected → α → Collected} {g : α → List String} :
    ∀ (xs : List α), (∀ c, ∀ x ∈ xs, Declares file (g x) c (f c x)) →
      ∀ c : Collected, Declares file (xs.flatMap g) c (xs.foldl f c)
  | [], _, c => Declares.nil c
  | x :: xs, hf, c => by
    rw [List.flatMap_cons, List.foldl_cons]
    exact (hf c x List.mem_cons_self).append
      (Declares.foldl xs (fun c' y hy => hf c' y (List.mem_cons_of_mem x hy)) (f c x))

theorem Declares.addEnum (c : Collected) (scope : String) (e : Enum) :
    Declares file (qualify scope e.name.value :: e.valueNames.map (qualify scope)) c
      (c.addEnum names file scope e) := by
  have hvalues : e.valueNames.map (qualify scope) =
      (e.body.filterMap fun | .value v => some v | _ => none).flatMap
        fun v => [qualify scope v.name.value] := by
    rw [← List.map_eq_flatMap, Enum.valueNames, List.map_filterMap, List.map_filterMap]
    congr 1
    funext el
    cases el <;> rfl
  unfold Collected.addEnum
  rw [hvalues]
  exact Declares.cons (Declares.add c scope e.name.value .enum (by decide) e.name.span _)
    (Declares.foldl _ (fun c v _ => Declares.add c scope v.name.value .enumValue (by decide) v.name.span .none) _)

theorem Declares.body :
    (∀ scope m c, Declares file (Message.fullNames scope m) c (addMessage names file scope m c)) ∧
    (∀ full body c, Declares file (MessageElement.bodyFullNames full body) c (addBody names file full body c)) ∧
    (∀ full e c, Declares file (MessageElement.fullNames full e) c (addElement names file full e c)) ∧
    (∀ scope extendee body c,
      Declares file (ExtendElement.bodyFullNames scope body) c (addExtend names file scope extendee body c)) ∧
    (∀ scope extendee g c, Declares file (Group.fullNames scope g) c (addGroup names file scope extendee g c)) ∧
    (∀ full body c, Declares file (OneofElement.bodyFullNames full body) c (addOneof names file full body c)) := by
  apply addMessage.mutual_induct names file
  case _ => -- a message: its own name, then its body
    intro scope name body decl c c' ih
    rw [addMessage, Message.fullNames]
    exact (Declares.add c scope _ .message (by decide) _ _).cons ih
  case _ =>
    intro full fd c
    rw [addElement, MessageElement.fullNames]
    exact Declares.add c full _ .field (by decide) _ _
  case _ => -- a map field and its entry message
    intro full m c
    rw [addElement, MessageElement.fullNames]
    exact (Declares.add c full _ .field (by decide) _ _).cons (Declares.add _ full _ .message (by decide) _ _)
  case _ => intro full g c ih; rw [addElement, MessageElement.fullNames]; exact ih
  case _ => -- a oneof: its name, then its members
    intro full name body decl c ih
    rw [addElement, MessageElement.fullNames]
    exact (Declares.add c full _ .oneof (by decide) _ _).cons ih
  case _ => intro full m c ih; rw [addElement, MessageElement.fullNames]; exact ih
  case _ =>
    intro full e c
    rw [addElement, MessageElement.fullNames]
    exact Declares.addEnum c full e
  case _ => intro full extendee body decl c ih; rw [addElement, MessageElement.fullNames]; exact ih
  case _ => intro full r c; rw [addElement]; exact Declares.nil c
  case _ => intro full r c; rw [addElement]; exact Declares.nil c
  case _ => intro full o c; rw [addElement]; exact Declares.nil c
  case _ => -- a group: its field, its message, then its body
    intro scope extendee label keywordSpan name number options body decl c fieldName kind info hki c₁ c₂ ih
    simp only [addGroup, Group.fullNames]
    rw [hki]
    -- a group's field is a field or an extension, never a package
    have hk : kind ≠ .package := by
      cases extendee <;> simp only [Prod.mk.injEq] at hki <;> rw [← hki.1] <;> decide
    exact (Declares.add c scope _ kind hk _ _).cons ((Declares.add _ scope _ .message (by decide) _ _).cons ih)
  case _ => intro full c; rw [addBody]; exact Declares.nil c
  case _ =>
    intro full e rest c ih₁ ih₂
    rw [addBody, MessageElement.bodyFullNames]
    exact ih₁.append ih₂
  case _ => intro full c; rw [addOneof]; exact Declares.nil c
  case _ =>
    intro full fd rest c ih
    rw [addOneof, OneofElement.bodyFullNames]
    exact (Declares.add c full _ .field (by decide) _ _).cons ih
  case _ =>
    intro full g rest c ih₁ ih₂
    rw [addOneof, OneofElement.bodyFullNames]
    exact ih₁.append ih₂
  case _ => intro full o rest c ih; rw [addOneof, OneofElement.bodyFullNames]; exact ih
  case _ => intro scope extendee c; rw [addExtend]; exact Declares.nil c
  case _ =>
    intro scope extendee fd rest c ih
    rw [addExtend, ExtendElement.bodyFullNames]
    exact (Declares.add c scope _ .extension (by decide) _ _).cons ih
  case _ =>
    intro scope extendee g rest c ih₁ ih₂
    rw [addExtend, ExtendElement.bodyFullNames]
    exact ih₁.append ih₂

theorem grows_addPackage (c : Collected) (p : Package) : Grows c (c.addPackage names file p).1 := by
  unfold Collected.addPackage
  exact List.foldlRecOn (motive := fun acc : Collected × String => Grows c acc.1) _ _ (Grows.refl c)
    fun acc hacc _ _ => hacc.trans (grows_add _ _ _ _ _ _)

theorem Declares.addFile (c : Collected) (s : SchemaFile) (hnamed : s.PackageNamed) :
    ∃ c₀, Grows c c₀ ∧ (s.package = none → c₀ = c) ∧ Declares file s.fullNames c₀ (c.addFile names file s) := by
  obtain ⟨hmsg, -, -, hext, -, -⟩ := @Declares.body file names
  unfold Collected.addFile
  dsimp only
  split
  case' h_1 =>
    rename_i p hp
    have hsc : (c.addPackage names file p).2 = s.scope := by
      rw [Collected.addPackage_scope c names file p (hnamed p hp)]
      simp [SchemaFile.scope, hp]
    refine ⟨(c.addPackage names file p).1, grows_addPackage c p,
      fun h => absurd (hp.symm.trans h) (by simp), ?_⟩
    generalize (c.addPackage names file p).2 = scope at hsc ⊢
    generalize (c.addPackage names file p).1 = c₀
  case' h_2 =>
    rename_i hp
    have hsc : "" = s.scope := by simp [SchemaFile.scope, hp]
    refine ⟨c, Grows.refl c, fun _ => rfl, ?_⟩
    generalize "" = scope at hsc ⊢
    generalize c = c₀
    dsimp only
  all_goals
    subst hsc
    rw [SchemaFile.fullNames]
    refine (((Declares.foldl _ (fun c m _ => hmsg _ m c) _).append
      (Declares.foldl _ (fun c e _ => Declares.addEnum c _ e) _)).append
      (Declares.foldl _ (fun c svc _ => ?_) _)).append (Declares.foldl _ (fun c x _ => ?_) _)
    · -- a service, then its methods in its scope
      refine (Declares.add c _ _ .service (by decide) _ _).cons (Declares.foldl _ (fun c el _ => ?_) _)
      cases el with
      | method m => exact Declares.add c _ _ .method (by decide) _ _
      | option o => exact Declares.nil c
    · obtain ⟨extendee, body, decl⟩ := x
      exact hext _ _ _ c

theorem grows_foldl {α : Type} {f : Collected → α → Collected} :
    ∀ (xs : List α), (∀ c, ∀ x ∈ xs, Grows c (f c x)) → ∀ c : Collected, Grows c (xs.foldl f c)
  | [], _, c => Grows.refl c
  | x :: xs, hf, c =>
    (hf c x List.mem_cons_self).trans (grows_foldl xs (fun c' y hy => hf c' y (List.mem_cons_of_mem x hy)) _)

theorem conflicts_foldl {f : Collected → Nat → Collected} {N : Nat → List String} :
    ∀ (l : List Nat), (∀ c, ∀ i ∈ l, Declares i (N i) c (f c i)) → ∀ (c : Collected) (seen : List String),
      (∀ k, c.table.symbols.contains k = true → k ∈ seen) → (seen ++ l.flatMap N).Nodup →
        (l.foldl f c).conflicts = c.conflicts
  | [], _, _, _, _, _ => rfl
  | i :: l, hf, c, seen, hseen, hnd => by
    rw [List.flatMap_cons, ← List.append_assoc] at hnd
    obtain ⟨hnd₁, -, -⟩ := List.nodup_append.mp hnd
    obtain ⟨-, hnodup, hdisj⟩ := List.nodup_append.mp hnd₁
    have hd := hf c i List.mem_cons_self
    -- a name of the file is not declared yet: it is none of the names seen
    have hnew : ∀ n ∈ N i, c.table.symbols.contains n = false := by
      intro n hn
      cases hk : c.table.symbols.contains n
      · rfl
      · exact absurd rfl (hdisj n (hseen n hk) n hn)
    rw [List.foldl_cons]
    refine (conflicts_foldl l (fun c' j hj => hf c' j (List.mem_cons_of_mem i hj)) _ (seen ++ N i)
      (fun k hk => ?_) hnd).trans (hd.clean hnodup hnew)
    rcases hd.only k hk with hk | hk
    · exact List.mem_append_left _ (hseen k hk)
    · exact List.mem_append_right _ hk

theorem grows_addFile (c : Collected) (s : SchemaFile) (hnamed : s.PackageNamed) :
    Grows c (c.addFile names file s) := by
  obtain ⟨c₀, h₀, -, h⟩ := @Declares.addFile file names c s hnamed
  exact h₀.trans h.grows

end Collected

/-- A file of the symbol table that no conflict blames declares each of its full names once. -/
theorem SymbolTable.build_fullNames_nodup {files : Array ParsedFile} {order : List Nat}
    (hnamed : ∀ f ∈ files.toList, f.schema.PackageNamed) {i : Nat} {f : ParsedFile} (hi : i ∈ order)
    (hf : files[i]? = some f) (hclear : ∀ x ∈ (SymbolTable.build files order).2, x.file ≠ i) :
    f.schema.fullNames.Nodup := by
  unfold SymbolTable.build at hclear
  dsimp only at hclear
  obtain ⟨pre, post, rfl⟩ := List.append_of_mem hi
  rw [List.foldl_append, List.foldl_cons, hf] at hclear
  dsimp only at hclear
  generalize List.foldl _ ({} : Collected) pre = c at hclear
  obtain ⟨c₀, -, -, hdecl⟩ := @Collected.Declares.addFile i (files.map (·.name)) c f.schema
    (hnamed f (Array.mem_toList_iff.mpr (Array.mem_of_getElem? hf)))
  -- the files declared after `i` only extend the table, so no conflict blames `i` after it
  refine (hdecl.fresh (Collected.Clear.of_grows (Collected.grows_foldl post (fun c' j _ => ?_) _) hclear)).1
  split
  · rename_i g hg
    exact Collected.grows_addFile _ _ (hnamed g (Array.mem_toList_iff.mpr (Array.mem_of_getElem? hg)))
  · exact Collected.Grows.refl c'

theorem SymbolTable.build_conflicts_nil {files : Array ParsedFile} {order : List Nat}
    (hpkg : ∀ i ∈ order, ∀ f, files[i]? = some f → f.schema.package = none)
    (hnd : (order.flatMap fun i => (files[i]?.map (·.schema.fullNames)).getD []).Nodup) :
    (SymbolTable.build files order).2 = [] := by
  unfold SymbolTable.build
  dsimp only
  refine (congrArg Array.toList (@Collected.conflicts_foldl _ (fun i => (files[i]?.map (·.schema.fullNames)).getD [])
    order (fun c i hi => ?_) {} [] (fun k hk => by simp at hk) (by simpa using hnd))).trans rfl
  -- each file declares its own names, from the table it is given, having no package
  split
  · rename_i f hf
    obtain ⟨c₀, -, hc₀, hdecl⟩ := @Collected.Declares.addFile i (files.map (·.name)) c f.schema
      (fun p hp => by rw [hpkg i hi f hf] at hp; cases hp)
    rw [hc₀ (hpkg i hi f hf)] at hdecl
    simpa [hf] using hdecl
  · rename_i hf
    simpa [hf] using Collected.Declares.nil c

/-! ### Distinct full names give distinct field names -/

theorem OneofElement.fieldNames_sublist (full : String) :
    ∀ body : List OneofElement,
      List.Sublist ((body.filterMap OneofElement.fieldName?).map (qualify full))
        (OneofElement.bodyFullNames full body)
  | [] => List.Sublist.slnil
  | .field f :: rest => by
    simp only [List.filterMap_cons, OneofElement.fieldName?, List.map_cons, OneofElement.bodyFullNames]
    exact (fieldNames_sublist full rest).cons_cons _
  | .group (.mk label kw name number options body decl) :: rest => by
    simp only [List.filterMap_cons, OneofElement.fieldName?, List.map_cons, OneofElement.bodyFullNames,
      Group.fullNames, List.cons_append]
    exact (((fieldNames_sublist full rest).trans (List.sublist_append_right _ _)).cons _).cons_cons _
  | .option o :: rest => by
    simp only [List.filterMap_cons, OneofElement.fieldName?, OneofElement.bodyFullNames]
    exact fieldNames_sublist full rest

theorem MessageElement.fieldNames_sublist (full : String) (e : MessageElement) :
    List.Sublist (e.fieldNames.map (qualify full)) (MessageElement.fullNames full e) := by
  cases e with
  | field f => exact List.Sublist.refl _
  | map m => exact (List.nil_sublist _).cons_cons _
  | group g =>
    obtain ⟨label, kw, name, number, options, body, decl⟩ := g
    exact (List.nil_sublist _).cons_cons _
  | oneof o =>
    obtain ⟨name, body, decl⟩ := o
    exact (OneofElement.fieldNames_sublist full body).cons _
  | message m => exact List.nil_sublist _
  | enum e => exact List.nil_sublist _
  | extend x => exact List.nil_sublist _
  | extensions r => exact List.nil_sublist _
  | reserved r => exact List.nil_sublist _
  | option o => exact List.nil_sublist _

theorem MessageElement.bodyFieldNames_sublist (full : String) :
    ∀ body : List MessageElement,
      List.Sublist ((body.flatMap MessageElement.fieldNames).map (qualify full))
        (MessageElement.bodyFullNames full body)
  | [] => List.Sublist.slnil
  | e :: rest => by
    rw [List.flatMap_cons, List.map_append, MessageElement.bodyFullNames]
    exact (e.fieldNames_sublist full).append (bodyFieldNames_sublist full rest)

theorem MessageElement.bodyFieldNames_nodup {full : String} {body : List MessageElement}
    (h : (MessageElement.bodyFullNames full body).Nodup) : (body.flatMap MessageElement.fieldNames).Nodup :=
  List.Nodup.of_map (qualify full) (h.sublist (bodyFieldNames_sublist full body))

theorem distinctFields_of_fullNames :
    (∀ scope m, (Message.fullNames scope m).Nodup → m.DistinctFields) ∧
    (∀ full body, (MessageElement.bodyFullNames full body).Nodup → MessageElement.BodyDistinctFields body) ∧
    (∀ full e, (MessageElement.fullNames full e).Nodup → e.DistinctFields) ∧
    (∀ scope body, (ExtendElement.bodyFullNames scope body).Nodup → ExtendElement.BodyDistinctFields body) ∧
    (∀ scope g, (Group.fullNames scope g).Nodup → g.DistinctFields) ∧
    (∀ full body, (OneofElement.bodyFullNames full body).Nodup → OneofElement.BodyDistinctFields body) := by
  apply Message.fullNames.mutual_induct
  case _ => -- a message: its fields, then what its body declares
    intro scope name body decl ih h
    rw [Message.fullNames, List.nodup_cons] at h
    exact ⟨MessageElement.bodyFieldNames_nodup h.2, ih h.2⟩
  case _ => intro full f _; trivial
  case _ => intro full m _; trivial
  case _ => intro full g ih h; exact ih h
  case _ => intro full name body decl ih h; exact ih (List.nodup_cons.mp h).2
  case _ => intro full m ih h; exact ih h
  case _ => intro full e _; trivial
  case _ => intro full extendee body decl ih h; exact ih h
  case _ => intro full r _; trivial
  case _ => intro full r _; trivial
  case _ => intro full o _; trivial
  case _ => -- a group: its field and message, then its body
    intro scope label kw name number options body decl ih h
    rw [Group.fullNames, List.nodup_cons, List.nodup_cons] at h
    exact ⟨MessageElement.bodyFieldNames_nodup h.2.2, ih h.2.2⟩
  case _ => intro full _; trivial
  case _ =>
    intro full e rest ih₁ ih₂ h
    rw [MessageElement.bodyFullNames, List.nodup_append] at h
    exact ⟨ih₁ h.1, ih₂ h.2.1⟩
  case _ => intro full _; trivial
  case _ =>
    intro full f rest ih h
    rw [OneofElement.bodyFullNames, List.nodup_cons] at h
    exact ih h.2
  case _ =>
    intro full g rest ih₁ ih₂ h
    rw [OneofElement.bodyFullNames, List.nodup_append] at h
    exact ⟨ih₁ h.1, ih₂ h.2.1⟩
  case _ =>
    intro full o rest ih h
    rw [OneofElement.bodyFullNames] at h
    exact ih h
  case _ => intro scope _; trivial
  case _ =>
    intro scope f rest ih h
    rw [ExtendElement.bodyFullNames, List.nodup_cons] at h
    exact ih h.2
  case _ =>
    intro scope g rest ih₁ ih₂ h
    rw [ExtendElement.bodyFullNames, List.nodup_append] at h
    exact ⟨ih₁ h.1, ih₂ h.2.1⟩

theorem SchemaFile.distinctFields_of_nodup {s : SchemaFile} (h : s.fullNames.Nodup) : s.DistinctFields := by
  rw [SchemaFile.fullNames, List.nodup_append, List.nodup_append, List.nodup_append] at h
  refine ⟨fun m hm => distinctFields_of_fullNames.1 s.scope m ?_, fun x hx => ?_⟩
  · exact (List.nodup_flatMap.mp h.1.1.1).1 m hm
  · exact distinctFields_of_fullNames.2.2.2.1 s.scope x.body ((List.nodup_flatMap.mp h.2.1).1 x hx)

end ProtoSchema
