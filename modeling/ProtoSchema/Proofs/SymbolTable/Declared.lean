import ProtoSchema.Proofs.Source.Package

/-!
Where the types of the symbol table come from. The types a schema file declares are read
off its syntax: each message and enum under its full name, with the map entry messages and
group messages it implies, at any depth (`SchemaFile.types`). Every message or enum the
symbol table holds is declared under that full name by the file the table names, and is
visible exactly where that file is (`SymbolTable.build_typesDeclared`); a lookup that
finds a name finds a symbol of the table visible from where it looked
(`SymbolTable.lookup_found`).
-/

namespace ProtoSchema

mutual

/-- The types a message declares in `scope`, itself first, by full name and kind. -/
def Message.types (scope : String) : Message → List (String × SymbolKind)
  | .mk name body _ =>
    (qualify scope name.value, .message) :: MessageElement.bodyTypes (qualify scope name.value) body

def MessageElement.bodyTypes (full : String) : List MessageElement → List (String × SymbolKind)
  | [] => []
  | e :: rest => MessageElement.types full e ++ MessageElement.bodyTypes full rest

/-- The types one statement of the body of the message of full name `full` declares. -/
def MessageElement.types (full : String) : MessageElement → List (String × SymbolKind)
  | .field _ => []
  | .map m => [(qualify full (mapEntryName m.name.value), .message)]
  | .group g => Group.types full g
  | .oneof (.mk _ body _) => OneofElement.bodyTypes full body
  | .message m => Message.types full m
  | .enum e => [(qualify full e.name.value, .enum)]
  | .extend (.mk _ body _) => ExtendElement.bodyTypes full body
  | .extensions _ => []
  | .reserved _ => []
  | .option _ => []

/-- The types a group declares in `scope`: its message, then what its body declares. -/
def Group.types (scope : String) : Group → List (String × SymbolKind)
  | .mk _ _ name _ _ body _ =>
    (qualify scope name.value, .message) :: MessageElement.bodyTypes (qualify scope name.value) body

def OneofElement.bodyTypes (full : String) : List OneofElement → List (String × SymbolKind)
  | [] => []
  | .field _ :: rest => OneofElement.bodyTypes full rest
  | .group g :: rest => Group.types full g ++ OneofElement.bodyTypes full rest
  | .option _ :: rest => OneofElement.bodyTypes full rest

def ExtendElement.bodyTypes (scope : String) : List ExtendElement → List (String × SymbolKind)
  | [] => []
  | .field _ :: rest => ExtendElement.bodyTypes scope rest
  | .group g :: rest => Group.types scope g ++ ExtendElement.bodyTypes scope rest

end

def SchemaFile.scope (s : SchemaFile) : String := (s.package.map (·.name.value)).getD ""

/-- The types a file declares, by full name and kind. -/
def SchemaFile.types (s : SchemaFile) : List (String × SymbolKind) :=
  s.messages.flatMap (Message.types s.scope) ++ s.enums.map (fun e => (qualify s.scope e.name.value, .enum)) ++
    s.extendBlocks.flatMap fun x => ExtendElement.bodyTypes s.scope x.body

namespace Collected

def TypesDeclared (files : Array ParsedFile) (c : Collected) : Prop :=
  ∀ full s, c.table.symbols.get? full = some s → s.kind.isType = true →
    (∀ vs, SymbolTable.isVisible s vs = vs.contains s.file) ∧
      ∃ f, files[s.file]? = some f ∧ (full, s.kind) ∈ f.schema.types

variable {files : Array ParsedFile} {names : Array String} {file : Nat} {f : ParsedFile}

theorem TypesDeclared.add {c : Collected} (hc : c.TypesDeclared files) {scope name : String}
    {kind : SymbolKind} (span : Span) {info : SymbolInfo}
    (hdecl : kind.isType = true → (∀ vs, SymbolTable.isVisible ⟨kind, file, info⟩ vs = vs.contains file) ∧
      ∃ f, files[file]? = some f ∧ (qualify scope name, kind) ∈ f.schema.types) :
    (c.add names file scope name kind span info).TypesDeclared files := by
  unfold Collected.add
  dsimp only
  split
  · -- a new name: the symbol inserted is the one declared here
    intro full s h hty
    simp only [Std.HashMap.get?_eq_getElem?] at h
    rw [Std.HashMap.getElem?_insert] at h
    split at h
    · rename_i heq
      cases h
      rw [← beq_iff_eq.mp heq]
      exact hdecl hty
    · exact hc full s (by simpa using h) hty
  · split
    · -- a package declared again only gains a file, and a package is no type
      rename_i existing _ hpkg
      have hkind : existing.kind = .package := by
        simp only [Bool.and_eq_true, decide_eq_true_eq] at hpkg
        exact hpkg.1
      split
      · split
        · exact hc
        · intro full s h hty
          simp only [Std.HashMap.get?_eq_getElem?] at h
          rw [Std.HashMap.getElem?_insert] at h
          split at h
          · cases h
            simp [hkind, SymbolKind.isType] at hty
          · exact hc full s (by simpa using h) hty
      · exact hc
    · exact hc

theorem TypesDeclared.add_other {c : Collected} (hc : c.TypesDeclared files) {scope name : String}
    {kind : SymbolKind} (span : Span) {info : SymbolInfo} (hk : kind.isType = false) :
    (c.add names file scope name kind span info).TypesDeclared files :=
  hc.add span fun h => absurd (hk.symm.trans h) Bool.false_ne_true

theorem TypesDeclared.add_type {c : Collected} (hc : c.TypesDeclared files) (hf : files[file]? = some f)
    {scope name : String} {kind : SymbolKind} (span : Span) {info : SymbolInfo}
    (hvis : ∀ vs, SymbolTable.isVisible ⟨kind, file, info⟩ vs = vs.contains file)
    (hmem : (qualify scope name, kind) ∈ f.schema.types) :
    (c.add names file scope name kind span info).TypesDeclared files :=
  hc.add span fun _ => ⟨hvis, f, hf, hmem⟩

theorem TypesDeclared.addEnum {c : Collected} (hc : c.TypesDeclared files) (hf : files[file]? = some f)
    {scope : String} {e : Enum} (hmem : (qualify scope e.name.value, .enum) ∈ f.schema.types) :
    (c.addEnum names file scope e).TypesDeclared files := by
  unfold Collected.addEnum
  dsimp only
  refine List.foldlRecOn (motive := fun c : Collected => c.TypesDeclared files) _ _
    (hc.add_type hf _ (fun _ => rfl) hmem) fun c hc v _ => hc.add_other _ rfl

theorem TypesDeclared.body (hf : files[file]? = some f) :
    (∀ scope m c, Message.types scope m ⊆ f.schema.types → c.TypesDeclared files →
      (addMessage names file scope m c).TypesDeclared files) ∧
    (∀ full body c, MessageElement.bodyTypes full body ⊆ f.schema.types → c.TypesDeclared files →
      (addBody names file full body c).TypesDeclared files) ∧
    (∀ full e c, MessageElement.types full e ⊆ f.schema.types → c.TypesDeclared files →
      (addElement names file full e c).TypesDeclared files) ∧
    (∀ scope extendee body c, ExtendElement.bodyTypes scope body ⊆ f.schema.types →
      c.TypesDeclared files → (addExtend names file scope extendee body c).TypesDeclared files) ∧
    (∀ scope extendee g c, Group.types scope g ⊆ f.schema.types → c.TypesDeclared files →
      (addGroup names file scope extendee g c).TypesDeclared files) ∧
    (∀ full body c, OneofElement.bodyTypes full body ⊆ f.schema.types → c.TypesDeclared files →
      (addOneof names file full body c).TypesDeclared files) := by
  apply addMessage.mutual_induct names file
  case _ => -- a message: its own name, then its body
    intro scope name body decl c c' ih hT hc
    rw [Message.types, List.cons_subset] at hT
    rw [addMessage]
    exact ih hT.2 (hc.add_type hf _ (fun _ => rfl) hT.1)
  case _ => intro full fd c hT hc; rw [addElement]; exact hc.add_other _ rfl
  case _ => -- a map field and its entry message
    intro full m c hT hc
    rw [MessageElement.types, List.cons_subset] at hT
    rw [addElement]
    exact (hc.add_other _ rfl).add_type hf _ (fun _ => rfl) hT.1
  case _ => intro full g c ih hT hc; rw [addElement]; exact ih hT hc
  case _ => -- a oneof: its name, then its members
    intro full name body decl c ih hT hc
    rw [addElement]
    exact ih hT (hc.add_other _ rfl)
  case _ => intro full m c ih hT hc; rw [addElement]; exact ih hT hc
  case _ =>
    intro full e c hT hc
    rw [MessageElement.types, List.cons_subset] at hT
    rw [addElement]
    exact hc.addEnum hf hT.1
  case _ => intro full extendee body decl c ih hT hc; rw [addElement]; exact ih hT hc
  case _ => intro full r c hT hc; rw [addElement]; exact hc
  case _ => intro full r c hT hc; rw [addElement]; exact hc
  case _ => intro full o c hT hc; rw [addElement]; exact hc
  case _ => -- a group: its field, its message, then its body
    intro scope extendee label keywordSpan name number options body decl c fieldName kind info hki c₁ c₂ ih
      hT hc
    rw [Group.types, List.cons_subset] at hT
    simp only [addGroup]
    rw [hki]
    have hk : kind.isType = false := by
      cases extendee <;> simp only [Prod.mk.injEq] at hki <;> rw [← hki.1] <;> rfl
    exact ih hT.2 ((hc.add_other _ hk).add_type hf _ (fun _ => rfl) hT.1)
  case _ => intro full c hT hc; rw [addBody]; exact hc
  case _ =>
    intro full e rest c ih₁ ih₂ hT hc
    rw [MessageElement.bodyTypes, List.append_subset] at hT
    rw [addBody]
    exact ih₂ hT.2 (ih₁ hT.1 hc)
  case _ => intro full c hT hc; rw [addOneof]; exact hc
  case _ =>
    intro full fd rest c ih hT hc
    rw [OneofElement.bodyTypes] at hT
    rw [addOneof]
    exact ih hT (hc.add_other _ rfl)
  case _ =>
    intro full g rest c ih₁ ih₂ hT hc
    rw [OneofElement.bodyTypes, List.append_subset] at hT
    rw [addOneof]
    exact ih₂ hT.2 (ih₁ hT.1 hc)
  case _ =>
    intro full o rest c ih hT hc
    rw [OneofElement.bodyTypes] at hT
    rw [addOneof]
    exact ih hT hc
  case _ => intro scope extendee c hT hc; rw [addExtend]; exact hc
  case _ =>
    intro scope extendee fd rest c ih hT hc
    rw [ExtendElement.bodyTypes] at hT
    rw [addExtend]
    exact ih hT (hc.add_other _ rfl)
  case _ =>
    intro scope extendee g rest c ih₁ ih₂ hT hc
    rw [ExtendElement.bodyTypes, List.append_subset] at hT
    rw [addExtend]
    exact ih₂ hT.2 (ih₁ hT.1 hc)

theorem TypesDeclared.addPackage {c : Collected} (hc : c.TypesDeclared files) (p : Package) :
    (c.addPackage names file p).1.TypesDeclared files := by
  unfold Collected.addPackage
  refine List.foldlRecOn (motive := fun acc : Collected × String => acc.1.TypesDeclared files) _ _ hc
    fun acc hacc part _ => hacc.add_other _ rfl

theorem TypesDeclared.addFile {c : Collected} (hc : c.TypesDeclared files) (hf : files[file]? = some f)
    (hnamed : f.schema.PackageNamed) : (c.addFile names file f.schema).TypesDeclared files := by
  obtain ⟨hmsg, -, -, hext, -, -⟩ := @TypesDeclared.body files names file f hf
  unfold Collected.addFile
  dsimp only
  -- the package's own names come first; the rest is declared in the package scope
  split
  case' h_1 =>
    rename_i p hp
    have hsc : (c.addPackage names file p).2 = f.schema.scope := by
      rw [Collected.addPackage_scope c names file p (hnamed p hp)]
      simp [SchemaFile.scope, hp]
    have hc₀ : (c.addPackage names file p).1.TypesDeclared files := hc.addPackage p
    generalize (c.addPackage names file p).2 = scope at hsc ⊢
    generalize (c.addPackage names file p).1 = c₀ at hc₀ ⊢
  case' h_2 =>
    rename_i hp
    have hsc : "" = f.schema.scope := by simp [SchemaFile.scope, hp]
    generalize "" = scope at hsc ⊢
    generalize c = c₀ at hc ⊢
  all_goals
    subst hsc
    refine List.foldlRecOn (motive := fun c : Collected => c.TypesDeclared files) _ _ ?_ fun c hc x hx => ?_
    · refine List.foldlRecOn (motive := fun c : Collected => c.TypesDeclared files) _ _ ?_
        fun c hc svc _ => ?_
      · refine List.foldlRecOn (motive := fun c : Collected => c.TypesDeclared files) _ _ ?_
          fun c hc e he => ?_
        · refine List.foldlRecOn (motive := fun c : Collected => c.TypesDeclared files) _ _ ‹_›
            fun c hc m hm => ?_
          exact hmsg _ _ _ (fun x hx => by simp only [SchemaFile.types]; grind) hc
        · exact hc.addEnum hf (by simp only [SchemaFile.types]; grind)
      · -- a service and its methods are no types
        refine List.foldlRecOn (motive := fun c : Collected => c.TypesDeclared files) _ _
          (hc.add_other _ rfl) fun c hc el _ => ?_
        split
        · exact hc.add_other _ rfl
        · exact hc
    · split
      rename_i extendee body decl
      exact hext _ _ _ _ (fun y hy => by simp only [SchemaFile.types]; grind [Extend.body]) hc

end Collected

/-- Every message or enum of the symbol table of parsed files is declared, under its full
name and kind, by the file the table names for it, and is visible exactly where that
file is. -/
theorem SymbolTable.build_typesDeclared {files : Array ParsedFile} (order : List Nat)
    (hnamed : ∀ f ∈ files.toList, f.schema.PackageNamed) :
    Collected.TypesDeclared files
      { table := (SymbolTable.build files order).1 : Collected } := by
  unfold SymbolTable.build
  dsimp only
  refine List.foldlRecOn (motive := fun c : Collected => c.TypesDeclared files) _ _ ?_ fun c hc i _ => ?_
  · intro full s h
    simp at h
  · split
    · rename_i f hf
      exact hc.addFile hf (hnamed f (Array.mem_toList_iff.mpr (Array.mem_of_getElem? hf)))
    · exact hc

namespace SymbolTable

variable {t : SymbolTable} {vs : List Nat}

theorem find_some {n : String} {hidden hidden' : Option (String × Nat)} {s : Symbol}
    (h : t.find n (some vs) hidden = (some s, hidden')) :
    t.symbols.get? n = some s ∧ isVisible s vs = true := by
  unfold find at h
  split at h
  · cases h
  · rename_i s' hs'
    dsimp only at h
    split at h
    · cases h
      rename_i hvis
      exact ⟨hs', hvis⟩
    · split at h <;> cases h

theorem missing_ne_found (hidden : Option (String × Nat)) (hint : Option String) (full : String)
    (s : Symbol) : missing hidden hint ≠ .found full s := by
  unfold missing
  split <;> simp

theorem searchScopes_found {name first full : String} {compound typesOnly : Bool} {s : Symbol} :
    ∀ {scopes : List String} {hidden : Option (String × Nat)},
      t.searchScopes name first compound typesOnly (some vs) scopes hidden = .found full s →
      t.symbols.get? full = some s ∧ isVisible s vs = true
  | [], hidden, h => by
    unfold searchScopes at h
    split at h
    · rename_i hf
      cases h
      exact find_some hf
    · exact absurd h (missing_ne_found _ _ _ _)
  | scope :: rest, hidden, h => by
    unfold searchScopes at h
    dsimp only at h
    split at h
    · exact searchScopes_found h
    · rename_i s₁ hidden₁ hf
      split at h
      · split at h
        · split at h
          · rename_i hf'
            cases h
            exact find_some hf'
          · exact absurd h (missing_ne_found _ _ _ _)
        · exact searchScopes_found h
      · split at h
        · cases h
          exact find_some hf
        · exact searchScopes_found h

/-- A lookup among the visible files finds only symbols of the table that are visible. -/
theorem lookup_found {name relativeTo full : String} {typesOnly : Bool} {s : Symbol}
    (h : t.lookup name relativeTo typesOnly (some vs) = .found full s) :
    t.symbols.get? full = some s ∧ isVisible s vs = true := by
  unfold lookup at h
  split at h
  · dsimp only at h
    split at h
    · rename_i hf
      cases h
      exact find_some hf
    · exact absurd h (missing_ne_found _ _ _ _)
  · exact searchScopes_found h

end SymbolTable

end ProtoSchema
