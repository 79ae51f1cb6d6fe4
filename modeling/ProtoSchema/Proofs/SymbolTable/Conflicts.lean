import ProtoSchema.SymbolTable.Collect

/-!
Where symbol conflicts are blamed. Declaring the symbols of one file records a
conflict only against that file, so every conflict the symbol table reports names
one of the files it was filled from (`SymbolTable.build_conflicts`). The
declarations of a message body are one recursive block; they are followed by
their joint induction.
-/

namespace ProtoSchema

namespace Collected

def Blames (S : Nat → Prop) (c : Collected) : Prop :=
  ∀ x ∈ c.conflicts.toList, S x.file

variable {S : Nat → Prop} {names : Array String} {file : Nat}

theorem Blames.add {c : Collected} (hc : c.Blames S) (hfile : S file) (scope name : String)
    (kind : SymbolKind) (span : Span) (info : SymbolInfo) :
    (c.add names file scope name kind span info).Blames S := by
  unfold Collected.add
  dsimp only
  split
  · exact hc
  · split
    · split
      · split
        · exact hc
        · exact hc
      · exact hc
    · intro x hx
      simp only [Array.toList_push, List.mem_append, List.mem_singleton] at hx
      rcases hx with hx | rfl
      · exact hc x hx
      · exact hfile

theorem Blames.foldl {α : Type} {f : Collected → α → Collected} :
    ∀ (l : List α), (∀ c, ∀ x ∈ l, c.Blames S → (f c x).Blames S) →
      ∀ c : Collected, c.Blames S → (l.foldl f c).Blames S
  | [], _, _, hc => hc
  | x :: l, hf, c, hc =>
    Blames.foldl l (fun c' y hy => hf c' y (List.mem_cons_of_mem x hy)) (f c x) (hf c x List.mem_cons_self hc)

theorem Blames.addEnum {c : Collected} (hc : c.Blames S) (hfile : S file) (scope : String) (e : Enum) :
    (c.addEnum names file scope e).Blames S :=
  Blames.foldl _ (fun _ _ _ h => h.add hfile _ _ _ _ _) _ (hc.add hfile _ _ _ _ _)

theorem Blames.body (hfile : S file) :
    (∀ scope m c, c.Blames S → (addMessage names file scope m c).Blames S) ∧
    (∀ full body c, c.Blames S → (addBody names file full body c).Blames S) ∧
    (∀ full e c, c.Blames S → (addElement names file full e c).Blames S) ∧
    (∀ scope extendee body c, c.Blames S → (addExtend names file scope extendee body c).Blames S) ∧
    (∀ scope extendee g c, c.Blames S → (addGroup names file scope extendee g c).Blames S) ∧
    (∀ full body c, c.Blames S → (addOneof names file full body c).Blames S) := by
  apply addMessage.mutual_induct names file
  case _ => -- a message: its own name, then its body
    intro scope name body decl c c' ih hc
    rw [addMessage]
    exact ih (hc.add hfile _ _ _ _ _)
  case _ => -- a field
    intro full f c hc
    rw [addElement]
    exact hc.add hfile _ _ _ _ _
  case _ => -- a map field and its entry message
    intro full m c hc
    rw [addElement]
    exact (hc.add hfile _ _ _ _ _).add hfile _ _ _ _ _
  case _ => -- a group
    intro full g c ih hc
    rw [addElement]
    exact ih hc
  case _ => -- a oneof: its name, then its members
    intro full name body decl c ih hc
    rw [addElement]
    exact ih (hc.add hfile _ _ _ _ _)
  case _ => -- a nested message
    intro full m c ih hc
    rw [addElement]
    exact ih hc
  case _ => -- a nested enum
    intro full e c hc
    rw [addElement]
    exact hc.addEnum hfile _ _
  case _ => -- a nested extend block
    intro full extendee body decl c ih hc
    rw [addElement]
    exact ih hc
  case _ => intro full r c hc; rw [addElement]; exact hc
  case _ => intro full r c hc; rw [addElement]; exact hc
  case _ => intro full o c hc; rw [addElement]; exact hc
  case _ => -- a group: its field, its message, then its body
    intro scope extendee label keywordSpan name number options body decl c fieldName kind info hki c₁ c₂ ih hc
    simp only [addGroup]
    rw [hki]
    exact ih ((hc.add hfile _ _ _ _ _).add hfile _ _ _ _ _)
  case _ => intro full c hc; rw [addBody]; exact hc
  case _ =>
    intro full e rest c ih₁ ih₂ hc
    rw [addBody]
    exact ih₂ (ih₁ hc)
  case _ => intro full c hc; rw [addOneof]; exact hc
  case _ =>
    intro full f rest c ih hc
    rw [addOneof]
    exact ih (hc.add hfile _ _ _ _ _)
  case _ =>
    intro full g rest c ih₁ ih₂ hc
    rw [addOneof]
    exact ih₂ (ih₁ hc)
  case _ => intro full o rest c ih hc; rw [addOneof]; exact ih hc
  case _ => intro scope extendee c hc; rw [addExtend]; exact hc
  case _ =>
    intro scope extendee f rest c ih hc
    rw [addExtend]
    exact ih (hc.add hfile _ _ _ _ _)
  case _ =>
    intro scope extendee g rest c ih₁ ih₂ hc
    rw [addExtend]
    exact ih₂ (ih₁ hc)

theorem Blames.addPackage {c : Collected} (hc : c.Blames S) (hfile : S file) (p : Package) :
    (c.addPackage names file p).1.Blames S := by
  unfold Collected.addPackage
  suffices h : ∀ (parts : List String) (acc : Collected × String), acc.1.Blames S →
      (parts.foldl (fun (acc : Collected × String) part =>
        (acc.1.add names file acc.2 part .package p.name.span (.package [file]),
          qualify acc.2 part)) acc).1.Blames S from h _ (c, "") hc
  intro parts
  induction parts with
  | nil => exact fun _ h => h
  | cons part rest ih => exact fun acc h => ih _ (h.add hfile _ _ _ _ _)

theorem Blames.addFile {c : Collected} (hc : c.Blames S) (hfile : S file) (s : SchemaFile) :
    (c.addFile names file s).Blames S := by
  obtain ⟨hmsg, -, -, hext, -, -⟩ := @Blames.body S names file hfile
  unfold Collected.addFile
  refine Blames.foldl _ (fun c' x _ h => ?_) _ ?_
  · split
    exact hext _ _ _ _ h
  refine Blames.foldl _ (fun c' svc _ h => ?_) _ ?_
  · refine Blames.foldl _ (fun c'' el _ h' => ?_) _ (h.add hfile _ _ _ _ _)
    split
    · exact h'.add hfile _ _ _ _ _
    · exact h'
  refine Blames.foldl _ (fun c' e _ h => h.addEnum hfile _ _) _ ?_
  refine Blames.foldl _ (fun c' m _ h => hmsg _ _ _ h) _ ?_
  -- the package's own names come first
  split
  · exact hc.addPackage hfile _
  · exact hc

end Collected

/-- Every conflict the symbol table reports blames a file it was filled from. -/
theorem SymbolTable.build_conflicts (files : Array ParsedFile) (order : List Nat) :
    ∀ c ∈ (SymbolTable.build files order).2, c.file ∈ order ∧ c.file < files.size := by
  unfold SymbolTable.build
  dsimp only
  refine Collected.Blames.foldl (S := fun j => j ∈ order ∧ j < files.size) order
    (fun c i hi h => ?_) {} (by simp [Collected.Blames])
  split
  · rename_i f hf
    exact h.addFile ⟨hi, (Array.getElem?_eq_some_iff.mp hf).1⟩ _
  · exact h

end ProtoSchema
