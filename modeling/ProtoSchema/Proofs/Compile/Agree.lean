import Mathlib
import ProtoSchema.Proofs.SymbolTable.Alike
import ProtoSchema.Compile.File

/-!
Compiling one file in two builds. The compiler reads its context: the compiled file, its
flags, and through name lookups the symbol table, the visible files and the other files of
the build. Two contexts are alike for a file (`LinksAlike`) when the file is the same (its
path may differ), the flags are the same, every name has alike visible entries, and the one
lookup made against the whole table, that of the message an option extends, finds the same
name in both.

`Agree c d R m₁ m₂` says that running `m₁` in `c` and `m₂` in `d` from alike states ends in
alike states, with values related by `R`. Alike states have the same source locations and
alike annotations: at the same place and of the same kind, with the same message unless one
of them says that a name is declared in a file that is not imported (`Annotation.Alike`).
It is a relational Hoare logic whose rules follow the binds and loops of the compiler.
-/

namespace ProtoSchema

def NotImportedText (m : String) : Prop :=
  ∃ full definedIn fileName, m = CompileM.notImportedMessage full definedIn fileName

def MessagesAlike (m₁ m₂ : String) : Prop := m₁ = m₂ ∨ NotImportedText m₁ ∨ NotImportedText m₂

/-- Two annotations of a file compiled in two builds: at the same place, of the same kind and
severity, with alike messages. Each is at the path of the file in its own build. -/
structure Annotation.Alike (a₁ a₂ : Annotation) : Prop where
  place : { a₁ with path := "", message := "" } = { a₂ with path := "", message := "" }
  message : MessagesAlike a₁.message a₂.message

def SymbolInfo.extendee? : SymbolInfo → Option (String × String)
  | .extension extendee scope _ => some (extendee, scope)
  | _ => Option.none

def ExtendeesAlike (c d : CompileContext) : Prop :=
  ∀ n s extendee scope number, c.table.visibleEntry c.visible n = some s →
    s.info = .extension extendee scope number → ∀ full,
      (∃ s', c.table.lookup extendee scope true none = .found full s') ↔
        ∃ s', d.table.lookup extendee scope true none = .found full s'

/-- What a file compiled in two builds reads alike: the file, its flags, what it can see, and
the messages its options extend. -/
structure LinksAlike (c d : CompileContext) : Prop where
  name : c.file.name = d.file.name
  schema : c.file.schema = d.file.schema
  proto3 : c.proto3 = d.proto3
  sourceInfo : c.sourceInfo = d.sourceInfo
  seen : SymbolTable.SeenAlike c.files d.files c.table c.visible d.table d.visible
  extendees : ExtendeesAlike c d

namespace CompileM

/-- Two compiler states of two builds: the same source locations, and alike annotations. -/
structure StateAlike (s₁ s₂ : CompileState) : Prop where
  locations : s₁.locations = s₂.locations
  annotations : List.Forall₂ Annotation.Alike s₁.annotations.toList s₂.annotations.toList

def Agree {α β : Type} (c d : CompileContext) (R : α → β → Prop) (m₁ : CompileM α) (m₂ : CompileM β) :
    Prop :=
  ∀ s₁ s₂, StateAlike s₁ s₂ → R (m₁ c s₁).1 (m₂ d s₂).1 ∧ StateAlike (m₁ c s₁).2 (m₂ d s₂).2

section Rules

variable {α β γ δ : Type} {c d : CompileContext}

theorem Agree.pure {R : α → β → Prop} {a : α} {b : β} (h : R a b) : Agree c d R (pure a) (pure b) :=
  fun _ _ hs => ⟨h, hs⟩

theorem Agree.imp {R R' : α → β → Prop} {m₁ : CompileM α} {m₂ : CompileM β} (hm : Agree c d R m₁ m₂)
    (hR : ∀ a b, R a b → R' a b) : Agree c d R' m₁ m₂ :=
  fun s₁ s₂ hs => ⟨hR _ _ (hm s₁ s₂ hs).1, (hm s₁ s₂ hs).2⟩

theorem Agree.bind {Q : α → β → Prop} {R : γ → δ → Prop} {m₁ : CompileM α} {m₂ : CompileM β}
    {f₁ : α → CompileM γ} {f₂ : β → CompileM δ} (hm : Agree c d Q m₁ m₂)
    (hf : ∀ a b, Q a b → Agree c d R (f₁ a) (f₂ b)) : Agree c d R (m₁ >>= f₁) (m₂ >>= f₂) := by
  intro s₁ s₂ hs
  obtain ⟨hq, hs'⟩ := hm s₁ s₂ hs
  exact hf _ _ hq _ _ hs'

theorem Agree.seq {R : γ → δ → Prop} {m₁ m₂ : CompileM α} {f₁ : α → CompileM γ} {f₂ : α → CompileM δ}
    (hm : Agree c d Eq m₁ m₂) (hf : ∀ a, Agree c d R (f₁ a) (f₂ a)) : Agree c d R (m₁ >>= f₁) (m₂ >>= f₂) :=
  hm.bind fun a _ hab => hab ▸ hf a

theorem Agree.read {R : α → β → Prop} {f₁ : CompileContext → CompileM α} {f₂ : CompileContext → CompileM β}
    (h : Agree c d R (f₁ c) (f₂ d)) : Agree c d R (read >>= f₁) (read >>= f₂) := h

theorem Agree.get {R : α → β → Prop} {f₁ : CompileState → CompileM α} {f₂ : CompileState → CompileM β}
    (h : ∀ s₁ s₂, StateAlike s₁ s₂ → Agree c d R (f₁ s₁) (f₂ s₂)) : Agree c d R (get >>= f₁) (get >>= f₂) :=
  fun s₁ s₂ hs => h s₁ s₂ hs s₁ s₂ hs

theorem Agree.foldlM {f : β → γ → CompileM β} (hf : ∀ b x, Agree c d Eq (f b x) (f b x)) :
    ∀ (l : List γ) (init : β), Agree c d Eq (l.foldlM f init) (l.foldlM f init)
  | [], _ => Agree.pure rfl
  | x :: rest, init => by
    rw [List.foldlM_cons]
    exact (hf init x).seq fun b => Agree.foldlM hf rest b

theorem Agree.forIn {f : γ → β → CompileM (ForInStep β)} (hf : ∀ x b, Agree c d Eq (f x b) (f x b)) :
    ∀ (l : List γ) (init : β), Agree c d Eq (forIn l init f) (forIn l init f)
  | [], _ => Agree.pure rfl
  | x :: rest, init => by
    rw [List.forIn_cons]
    refine (hf x init).seq fun step => ?_
    cases step with
    | done b => exact Agree.pure rfl
    | yield b => exact Agree.forIn hf rest b

theorem Agree.modify {f₁ f₂ : CompileState → CompileState}
    (h : ∀ s₁ s₂, StateAlike s₁ s₂ → StateAlike (f₁ s₁) (f₂ s₂)) : Agree c d Eq (modify f₁) (modify f₂) :=
  fun s₁ s₂ hs => ⟨rfl, h s₁ s₂ hs⟩

theorem report_agree (span : Span) {m₁ m₂ : String} (hm : MessagesAlike m₁ m₂) :
    Agree c d Eq (report span m₁) (report span m₂) := by
  refine Agree.read (Agree.modify fun s₁ s₂ hs => ⟨hs.locations, ?_⟩)
  show List.Forall₂ Annotation.Alike (s₁.annotations.push _).toList (s₂.annotations.push _).toList
  rw [Array.toList_push, Array.toList_push]
  exact List.rel_append hs.annotations (.cons ⟨rfl, hm⟩ .nil)

theorem report_agree_same (span : Span) (m : String) : Agree c d Eq (report span m) (report span m) :=
  report_agree span (.inl rfl)

end Rules

end CompileM

end ProtoSchema
