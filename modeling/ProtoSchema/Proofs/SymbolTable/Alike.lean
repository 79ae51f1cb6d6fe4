import ProtoSchema.Proofs.SymbolTable.Scoping

/-!
Lookups seen from two builds. A compiled file reads three things of a symbol it finds: its
kind, its information, and, for a type, the dialect of the file declaring it. The files a
package is declared in only decide whether the package is seen, and the index of the declaring
file is the build's own. Two symbols are alike when they agree on what is read
(`Symbol.Alike`).

Two builds in which every name has alike visible entries (`SeenAlike`) give every lookup
alike outcomes: alike symbols found under the same full name, or a miss in both with the
same hint (`lookup_alike`). A miss may still be reported differently: it names the first
hidden candidate the search met, and which candidates are hidden is decided by the files the
compiled file cannot see.
-/

namespace ProtoSchema

/-- Two symbols of two builds that a compiled file cannot tell apart: of the same kind, with
the same information unless both are packages, and unless they are packages, declared in files
of the same dialect. A package is declared by every file of it, so its first file may be
another one in each build. -/
structure Symbol.Alike (files₁ files₂ : Array ParsedFile) (s₁ s₂ : Symbol) : Prop where
  kind : s₁.kind = s₂.kind
  info : s₁.info = s₂.info ∨
    s₁.kind = .package ∧ ∃ fs₁ fs₂, s₁.info = .package fs₁ ∧ s₂.info = .package fs₂
  dialect : s₁.kind ≠ .package →
    files₁[s₁.file]?.map (·.schema.dialect) = files₂[s₂.file]?.map (·.schema.dialect)

theorem Symbol.Alike.info_eq {files₁ files₂ : Array ParsedFile} {s₁ s₂ : Symbol}
    (h : Symbol.Alike files₁ files₂ s₁ s₂) (hk : s₁.kind ≠ .package) : s₁.info = s₂.info :=
  h.info.resolve_right fun hp => hk hp.1

theorem Symbol.Alike.symm {files₁ files₂ : Array ParsedFile} {s₁ s₂ : Symbol}
    (h : Symbol.Alike files₁ files₂ s₁ s₂) : Symbol.Alike files₂ files₁ s₂ s₁ where
  kind := h.kind.symm
  info := by
    rcases h.info with hi | ⟨hk, fs₁, fs₂, h₁, h₂⟩
    · exact .inl hi.symm
    · exact .inr ⟨h.kind ▸ hk, fs₂, fs₁, h₂, h₁⟩
  dialect hk := (h.dialect (h.kind ▸ hk)).symm

/-- Two outcomes of one lookup in two builds: alike symbols found under the same full name,
or a miss in both with the same hint. -/
def Lookup.Alike (files₁ files₂ : Array ParsedFile) (l₁ l₂ : Lookup) : Prop :=
  (∃ full s₁ s₂, l₁ = .found full s₁ ∧ l₂ = .found full s₂ ∧ Symbol.Alike files₁ files₂ s₁ s₂) ∨
    ∃ hint hidden₁ hidden₂, l₁ = SymbolTable.missing hidden₁ hint ∧ l₂ = SymbolTable.missing hidden₂ hint

namespace SymbolTable

/-- Two tables, seen from the files `vs₁` of one build and `vs₂` of another, that give every
name alike visible entries. -/
def SeenAlike (files₁ files₂ : Array ParsedFile) (t₁ : SymbolTable) (vs₁ : List Nat) (t₂ : SymbolTable)
    (vs₂ : List Nat) : Prop :=
  ∀ n, Option.Rel (Symbol.Alike files₁ files₂) (t₁.visibleEntry vs₁ n) (t₂.visibleEntry vs₂ n)

variable {files₁ files₂ : Array ParsedFile} {t₁ t₂ : SymbolTable} {vs₁ vs₂ : List Nat}

theorem visibleEntry_of_lookup_found {t : SymbolTable} {vs : List Nat} {name relativeTo full : String}
    {typesOnly : Bool} {s : Symbol} (h : t.lookup name relativeTo typesOnly (some vs) = .found full s) :
    t.visibleEntry vs full = some s := by
  obtain ⟨hget, hvis⟩ := lookup_found h
  rw [visibleEntry, hget, Option.filter_some, if_pos hvis]

section Seen

variable (h : SeenAlike files₁ files₂ t₁ vs₁ t₂ vs₂)
include h

theorem accepted_alike (first : String) (compound typesOnly : Bool) (S : String) :
    Option.Rel (Symbol.Alike files₁ files₂) (t₁.accepted vs₁ first compound typesOnly S)
      (t₂.accepted vs₂ first compound typesOnly S) := by
  unfold accepted
  have hS := h (qualify S first)
  generalize t₁.visibleEntry vs₁ (qualify S first) = e₁ at hS ⊢
  generalize t₂.visibleEntry vs₂ (qualify S first) = e₂ at hS ⊢
  cases hS with
  | none => exact .none
  | @some s₁ s₂ hs =>
    simp only [Option.filter_some, hs.kind]
    split_ifs <;> first | exact .some hs | exact .none

theorem decision_alike (first : String) (compound typesOnly : Bool) (scopes : List String) :
    Option.Rel (fun d₁ d₂ => d₁.1 = d₂.1 ∧ Symbol.Alike files₁ files₂ d₁.2 d₂.2)
      (t₁.decision vs₁ first compound typesOnly scopes) (t₂.decision vs₂ first compound typesOnly scopes) := by
  induction scopes with
  | nil => exact .none
  | cons S rest ih =>
    unfold decision at ih ⊢
    rw [findSome?_cons_eq_or, findSome?_cons_eq_or]
    have hS := accepted_alike h first compound typesOnly S
    generalize t₁.accepted vs₁ first compound typesOnly S = e₁ at hS ⊢
    generalize t₂.accepted vs₂ first compound typesOnly S = e₂ at hS ⊢
    cases hS with
    | none => simpa using ih
    | some hs => exact .some ⟨rfl, hs⟩

theorem atTop_alike (n : String) (hidden₁ hidden₂ : Option (String × Nat)) :
    Lookup.Alike files₁ files₂ (t₁.atTop vs₁ n hidden₁) (t₂.atTop vs₂ n hidden₂) := by
  unfold atTop
  have hn := h n
  generalize t₁.visibleEntry vs₁ n = e₁ at hn ⊢
  generalize t₂.visibleEntry vs₂ n = e₂ at hn ⊢
  cases hn with
  | none => exact .inr ⟨none, hidden₁, hidden₂, rfl, rfl⟩
  | @some s₁ s₂ hs => exact .inl ⟨n, s₁, s₂, rfl, rfl, hs⟩

theorem decidedAt_alike (name first : String) (compound : Bool) (hidden₁ hidden₂ : Option (String × Nat))
    (S : String) {s₁ s₂ : Symbol} (hs : Symbol.Alike files₁ files₂ s₁ s₂) :
    Lookup.Alike files₁ files₂ (t₁.decidedAt vs₁ name first compound hidden₁ S s₁)
      (t₂.decidedAt vs₂ name first compound hidden₂ S s₂) := by
  unfold decidedAt
  cases compound with
  | false => exact .inl ⟨qualify S first, s₁, s₂, rfl, rfl, hs⟩
  | true =>
    simp only [if_true]
    have hn := h (qualify S name)
    generalize t₁.visibleEntry vs₁ (qualify S name) = e₁ at hn ⊢
    generalize t₂.visibleEntry vs₂ (qualify S name) = e₂ at hn ⊢
    cases hn with
    | none => exact .inr ⟨some (qualify S name), hidden₁, hidden₂, rfl, rfl⟩
    | @some r₁ r₂ hr => exact .inl ⟨qualify S name, r₁, r₂, rfl, rfl, hr⟩

theorem searchOutcome_alike (name first : String) (compound typesOnly : Bool)
    (met₁ met₂ : Option (String × Nat)) (scopes : List String) :
    Lookup.Alike files₁ files₂ (t₁.searchOutcome vs₁ name first compound typesOnly met₁ scopes)
      (t₂.searchOutcome vs₂ name first compound typesOnly met₂ scopes) := by
  unfold searchOutcome
  have hd := decision_alike h first compound typesOnly scopes
  generalize t₁.decision vs₁ first compound typesOnly scopes = e₁ at hd ⊢
  generalize t₂.decision vs₂ first compound typesOnly scopes = e₂ at hd ⊢
  cases hd with
  | none => exact atTop_alike h _ _ _
  | @some d₁ d₂ hd =>
    obtain ⟨hS, hs⟩ := hd
    simp only [Option.map_some, Option.getD_some, hS]
    exact decidedAt_alike h _ _ _ _ _ _ hs

/-- Looking a name up in two builds whose visible entries are alike gives alike outcomes. -/
theorem lookup_alike (name relativeTo : String) (typesOnly : Bool) :
    Lookup.Alike files₁ files₂ (t₁.lookup name relativeTo typesOnly (some vs₁))
      (t₂.lookup name relativeTo typesOnly (some vs₂)) := by
  rw [lookup_eq_scopedLookup, lookup_eq_scopedLookup]
  unfold scopedLookup
  split
  · exact atTop_alike h _ _ _
  · exact searchOutcome_alike h _ _ _ _ _ _ _

end Seen

end SymbolTable

end ProtoSchema
