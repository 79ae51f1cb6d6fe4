import Mathlib.Data.List.Basic
import ProtoSchema.Proofs.SymbolTable.Records
import ProtoSchema.Proofs.SymbolTable.Alike

/-!
What a file sees of the symbol tables of two builds in which the files it sees are twins:
parsed under the same names into the same schemas.

A file's declarations do not depend on where the build puts it: at another index it makes the
same declarations, each in its new file (`SchemaFile.decls_inFile`). Only a package records
files (`SchemaFile.info_ne_package`). A declaration that no conflict blames is the first of its
name, unless it is a package declared after a package of that name
(`firstOf_of_not_redeclared`).

So when every file seen is among the files a table is built from and no conflict blames it
(`CleanView`), every symbol seen in one build is seen in the other, alike: a type, field or
other declaration through the twin of its file, a package through the twin of a file declaring
it (`CleanView.visibleEntry_twin`). With twins both ways, every name has alike visible entries
in the two builds (`CleanView.seenAlike`).
-/

namespace ProtoSchema

open SymbolDecl

/-! ### The declarations of a file wherever it stands -/

def SymbolDecl.inFile (j : Nat) (d : SymbolDecl) : SymbolDecl :=
  { d with file := j, info := if d.kind = .package then .package [j] else d.info }

section Moved

variable {i j : Nat}

theorem decls_inFile_body :
    (∀ scope m, Message.decls j scope m = (Message.decls i scope m).map (SymbolDecl.inFile j)) ∧
    (∀ full body, MessageElement.bodyDecls j full body = (MessageElement.bodyDecls i full body).map (SymbolDecl.inFile j)) ∧
    (∀ full e, MessageElement.decls j full e = (MessageElement.decls i full e).map (SymbolDecl.inFile j)) ∧
    (∀ scope extendee body, ExtendElement.bodyDecls j scope extendee body =
      (ExtendElement.bodyDecls i scope extendee body).map (SymbolDecl.inFile j)) ∧
    (∀ scope extendee g, Group.decls j scope extendee g = (Group.decls i scope extendee g).map (SymbolDecl.inFile j)) ∧
    (∀ full body, OneofElement.bodyDecls j full body = (OneofElement.bodyDecls i full body).map (SymbolDecl.inFile j)) := by
  apply Message.decls.mutual_induct
  all_goals
    intros
    simp_all [SymbolDecl.inFile, Message.decls, MessageElement.bodyDecls, MessageElement.decls, Group.decls,
      OneofElement.bodyDecls, ExtendElement.bodyDecls, Enum.decls, groupKind_ne_package]

theorem packageDecls_inFile (span : Span) :
    ∀ (scope : String) (parts : List String),
      packageDecls j span scope parts = (packageDecls i span scope parts).map (SymbolDecl.inFile j)
  | _, [] => rfl
  | scope, part :: rest => by
    simp [packageDecls, SymbolDecl.inFile, packageDecls_inFile span (qualify scope part) rest]

theorem Enum.decls_inFile (scope : String) (e : Enum) :
    e.decls j scope = (e.decls i scope).map (SymbolDecl.inFile j) := by
  simp [Enum.decls, SymbolDecl.inFile]

theorem Service.decls_inFile (scope : String) (svc : Service) :
    svc.decls j scope = (svc.decls i scope).map (SymbolDecl.inFile j) := by
  simp only [Service.decls, List.map_cons, List.map_flatMap]
  refine congrArg₂ List.cons (by simp [SymbolDecl.inFile]) (List.flatMap_congr fun el _ => ?_)
  cases el <;> simp [SymbolDecl.inFile]

/-- A file makes the same declarations at every index, each in the file at that index. -/
theorem SchemaFile.decls_inFile (s : SchemaFile) : s.decls j = (s.decls i).map (SymbolDecl.inFile j) := by
  obtain ⟨hmsg, -, -, hext, -, -⟩ := @decls_inFile_body i j
  have hpkg : ((s.package.map fun p => packageDecls j p.name.span "" (packageParts p.name.value)).getD []) =
      ((s.package.map fun p => packageDecls i p.name.span "" (packageParts p.name.value)).getD []).map
        (SymbolDecl.inFile j) := by
    cases s.package <;> simp [packageDecls_inFile (i := i) (j := j)]
  have hm : Message.decls j s.scope = fun m => (Message.decls i s.scope m).map (SymbolDecl.inFile j) :=
    funext (hmsg s.scope)
  have he : Enum.decls j s.scope = fun e => (Enum.decls i s.scope e).map (SymbolDecl.inFile j) :=
    funext (Enum.decls_inFile s.scope)
  have hs : (Service.decls j s.scope) = fun svc => (Service.decls i s.scope svc).map (SymbolDecl.inFile j) :=
    funext (Service.decls_inFile s.scope)
  simp only [SchemaFile.decls, List.map_append, List.map_flatMap, hpkg, hm, he, hs, hext]

end Moved

section Lists

variable {file : Nat}

def ListsNoFiles (l : List SymbolDecl) : Prop := ∀ d ∈ l, ∀ fs, d.info ≠ .package fs

theorem groupInfo_ne_package (extendee : Option String) (scope : String) (number : Int) (fs : List Nat) :
    (extendee.map fun x => SymbolInfo.extension x scope number).getD .none ≠ .package fs := by
  cases extendee <;> simp

theorem listsNoFiles_body :
    (∀ scope m, ListsNoFiles (Message.decls file scope m)) ∧
    (∀ full body, ListsNoFiles (MessageElement.bodyDecls file full body)) ∧
    (∀ full e, ListsNoFiles (MessageElement.decls file full e)) ∧
    (∀ scope extendee body, ListsNoFiles (ExtendElement.bodyDecls file scope extendee body)) ∧
    (∀ scope extendee g, ListsNoFiles (Group.decls file scope extendee g)) ∧
    (∀ full body, ListsNoFiles (OneofElement.bodyDecls file full body)) := by
  apply Message.decls.mutual_induct
  all_goals
    intros
    simp_all [ListsNoFiles, Message.decls, MessageElement.bodyDecls, MessageElement.decls, Group.decls,
      OneofElement.bodyDecls, ExtendElement.bodyDecls, Enum.decls, groupInfo_ne_package, or_imp]

/-- Only a package records the files declaring it. -/
theorem SchemaFile.info_ne_package {s : SchemaFile} {i : Nat} {d : SymbolDecl} (h : d ∈ s.decls i)
    (hk : d.kind ≠ .package) (fs : List Nat) : d.info ≠ .package fs := by
  obtain ⟨hmsg, -, -, hext, -, -⟩ := @listsNoFiles_body i
  simp only [SchemaFile.decls, List.mem_append, List.mem_flatMap] at h
  rcases h with (((hp | ⟨m, -, hm⟩) | ⟨e, -, he⟩) | ⟨svc, -, hsvc⟩) | ⟨x, -, hx⟩
  · cases hpkg : s.package with
    | none => simp [hpkg] at hp
    | some p =>
      rw [hpkg] at hp
      exact absurd (mem_packageDecls hp).2.1 hk
  · exact hmsg _ m d hm fs
  · simp only [Enum.decls, List.mem_cons, List.mem_map] at he
    rcases he with rfl | ⟨v, -, rfl⟩ <;> simp
  · simp only [Service.decls, List.mem_cons, List.mem_flatMap] at hsvc
    rcases hsvc with rfl | ⟨el, -, hel⟩
    · simp
    · cases el <;> simp_all
  · exact hext _ _ _ d hx fs

end Lists

/-! ### Declarations no conflict blames -/

/-- A declaration that is not a redeclaration is the first of its name, or a package declared
after a package of that name. -/
theorem firstOf_of_not_redeclared {d : SymbolDecl} :
    ∀ {P D : List SymbolDecl}, d ∈ D → d ∉ redeclarations P D →
      ∃ d₀, firstOf (P ++ D) d.fullName = some d₀ ∧ (d₀ = d ∨ d₀.kind = .package ∧ d.kind = .package)
  | _, [], hd, _ => absurd hd List.not_mem_nil
  | P, e :: rest, hd, hr => by
    rw [redeclarations, List.mem_append, not_or] at hr
    rcases List.mem_cons.mp hd with rfl | hd
    · -- the declaration itself: no earlier one of its name, or only packages before it
      have happ : firstOf (P ++ d :: rest) d.fullName = (firstOf P d.fullName).or (some d) := by
        simp [firstOf, List.find?_append]
      rw [happ]
      have hclash : ¬Clashes P d := fun hc => hr.1 (by simp [hc])
      cases hP : firstOf P d.fullName with
      | none => exact ⟨d, rfl, .inl rfl⟩
      | some d₀ =>
        have hpk : d₀.kind = .package ∧ d.kind = .package := by
          by_contra hne
          exact hclash ⟨d₀, hP, hne⟩
        exact ⟨d₀, rfl, .inr hpk⟩
    · obtain ⟨d₀, h₀, hd₀⟩ := firstOf_of_not_redeclared (P := P ++ [e]) hd hr.2
      exact ⟨d₀, by simpa using h₀, hd₀⟩

/-! ### Two builds -/

def Twins (files₁ files₂ : Array ParsedFile) (j₁ j₂ : Nat) : Prop :=
  ∃ f₁ f₂, files₁[j₁]? = some f₁ ∧ files₂[j₂]? = some f₂ ∧ f₁.name = f₂.name ∧ f₁.schema = f₂.schema

theorem Twins.symm {files₁ files₂ : Array ParsedFile} {j₁ j₂ : Nat} (h : Twins files₁ files₂ j₁ j₂) :
    Twins files₂ files₁ j₂ j₁ := by
  obtain ⟨f₁, f₂, h₁, h₂, hn, hs⟩ := h
  exact ⟨f₂, f₁, h₂, h₁, hn.symm, hs.symm⟩

namespace SymbolTable

theorem isVisible_of_info {s : Symbol} (h : ∀ fs, s.info ≠ .package fs) (vs : List Nat) :
    isVisible s vs = vs.contains s.file := by
  unfold isVisible
  split
  · exact absurd ‹_› (h _)
  · rfl

/-- A table built from the files `order`, seen from the files `vs`: every one of them is among
the files the table is built from, and none is blamed for a conflict. -/
structure CleanView (files : Array ParsedFile) (order : List Nat) (table : SymbolTable)
    (conflicts : List Conflict) (vs : List Nat) : Prop where
  recorded : Recorded files order table conflicts
  named : ∀ i ∈ order, ∀ f, files[i]? = some f → f.schema.PackageNamed
  built : ∀ j ∈ vs, j ∈ order
  unblamed : ∀ c ∈ conflicts, c.file ∉ vs

namespace CleanView

variable {files : Array ParsedFile} {order : List Nat} {table : SymbolTable} {conflicts : List Conflict}
  {vs : List Nat}

theorem first_of_seen (h : CleanView files order table conflicts vs) {d : SymbolDecl}
    (hd : d ∈ buildDecls files order) (hv : d.file ∈ vs) :
    ∃ d₀, firstOf (buildDecls files order) d.fullName = some d₀ ∧
      (d₀ = d ∨ d₀.kind = .package ∧ d.kind = .package) := by
  refine firstOf_of_not_redeclared (P := []) hd fun hr => ?_
  -- a redeclaration is reported as a conflict of its own file
  have hmem : (d.file, d.span) ∈ conflicts.map fun x => (x.file, x.span) := by
    rw [h.recorded.conflicts]
    exact List.mem_map_of_mem hr
  obtain ⟨c, hc, hcd⟩ := List.mem_map.mp hmem
  exact h.unblamed c hc (by rw [(Prod.mk.inj hcd).1]; exact hv)

section Mirror

variable {files₁ files₂ : Array ParsedFile} {order₁ order₂ : List Nat} {t₁ t₂ : SymbolTable}
  {cs₁ cs₂ : List Conflict} {vs₁ vs₂ : List Nat}
  (h₁ : CleanView files₁ order₁ t₁ cs₁ vs₁) (h₂ : CleanView files₂ order₂ t₂ cs₂ vs₂)
  (htw : ∀ j₁ ∈ vs₁, ∃ j₂ ∈ vs₂, Twins files₁ files₂ j₁ j₂)
include h₁ h₂ htw

theorem visibleEntry_package {n : String} {s₁ : Symbol} (hs : t₁.visibleEntry vs₁ n = some s₁)
    (hk : s₁.kind = .package) : ∃ s₂, t₂.visibleEntry vs₂ n = some s₂ ∧ Symbol.Alike files₁ files₂ s₁ s₂ := by
  obtain ⟨hget, hvis⟩ := Option.filter_eq_some_iff.mp hs
  obtain ⟨fs₁, hinfo₁, -, hmem₁⟩ := h₁.recorded.packages n s₁ hget hk
  rw [isVisible, hinfo₁] at hvis
  obtain ⟨j₁, hj₁, hjv₁⟩ := List.any_eq_true.mp hvis
  obtain ⟨-, f₁, p, hf₁, hp, hw⟩ := (hmem₁ j₁).mp hj₁
  obtain ⟨j₂, hjv₂, f₁', f₂, hf₁', hf₂, -, hschema⟩ := htw j₁ (List.contains_iff_mem.mp hjv₁)
  obtain rfl : f₁ = f₁' := Option.some.inj (hf₁.symm.trans hf₁')
  have hdecl₂ : j₂ ∈ order₂ ∧ ∃ f p, files₂[j₂]? = some f ∧ f.schema.package = some p ∧
      WithinPackage p.name.value n := ⟨h₂.built j₂ hjv₂, f₂, p, hf₂, hschema ▸ hp, hw⟩
  -- the twin declares the package, and the first declaration of its name is a package
  obtain ⟨d, hd, hdn, hdk, hdf⟩ := (declaresPackage_buildDecls h₂.named).mpr hdecl₂
  obtain ⟨d₀, h₀, hd₀⟩ := h₂.first_of_seen hd (hdf ▸ hjv₂)
  have hk₀ : d₀.kind = .package := by
    rcases hd₀ with rfl | ⟨hk₀, -⟩
    exacts [hdk, hk₀]
  rw [hdn] at h₀
  obtain ⟨s₂, hget₂, hk₂, -, -⟩ := h₂.recorded.first n d₀ h₀
  obtain ⟨fs₂, hinfo₂, -, hmem₂⟩ := h₂.recorded.packages n s₂ hget₂ (hk₂.trans hk₀)
  refine ⟨s₂, Option.filter_eq_some_iff.mpr ⟨hget₂, ?_⟩,
    ⟨hk.trans (hk₂.trans hk₀).symm, .inr ⟨hk, fs₁, fs₂, hinfo₁, hinfo₂⟩, fun h => absurd hk h⟩⟩
  rw [isVisible, hinfo₂]
  exact List.any_eq_true.mpr ⟨j₂, (hmem₂ j₂).mpr hdecl₂, List.contains_iff_mem.mpr hjv₂⟩

theorem visibleEntry_nonPackage {n : String} {s₁ : Symbol} (hs : t₁.visibleEntry vs₁ n = some s₁)
    (hk : s₁.kind ≠ .package) : ∃ s₂, t₂.visibleEntry vs₂ n = some s₂ ∧ Symbol.Alike files₁ files₂ s₁ s₂ := by
  obtain ⟨hget, hvis⟩ := Option.filter_eq_some_iff.mp hs
  obtain ⟨d₀, h₀, hk₀, hfile₀, hinfo₀⟩ := h₁.recorded.firstOf_of_get hget
  obtain ⟨hd₀, rfl⟩ := firstOf_fullName h₀
  obtain ⟨j₁, -, f₁, hf₁, hdj₁⟩ := mem_buildDecls.mp hd₀
  obtain rfl : d₀.file = j₁ := (SchemaFile.decls_file hdj₁).1
  have hdk : d₀.kind ≠ .package := hk₀ ▸ hk
  -- only packages record files, so the symbol is seen when its file is
  have hnolist : ∀ fs, d₀.info ≠ .package fs := SchemaFile.info_ne_package hdj₁ hdk
  rw [isVisible_of_info (hinfo₀ hdk ▸ hnolist), hfile₀] at hvis
  obtain ⟨j₂, hjv₂, f₁', f₂, hf₁', hf₂, -, hschema⟩ := htw d₀.file (List.contains_iff_mem.mp hvis)
  obtain rfl : f₁ = f₁' := Option.some.inj (hf₁.symm.trans hf₁')
  have hmoved : (d₀.inFile j₂).kind = d₀.kind ∧ (d₀.inFile j₂).info = d₀.info := by
    simp [SymbolDecl.inFile, hdk]
  have hd₂ : d₀.inFile j₂ ∈ buildDecls files₂ order₂ := by
    refine mem_buildDecls.mpr ⟨j₂, h₂.built j₂ hjv₂, f₂, hf₂, ?_⟩
    rw [SchemaFile.decls_inFile (i := d₀.file), ← hschema]
    exact List.mem_map_of_mem hdj₁
  obtain ⟨d₂, hfirst₂, hd₂first⟩ := h₂.first_of_seen hd₂ hjv₂
  obtain rfl : d₂ = d₀.inFile j₂ := hd₂first.resolve_right fun hp => hdk (hmoved.1 ▸ hp.2)
  obtain ⟨s₂, hget₂, hk₂, hfile₂, hinfo₂⟩ := h₂.recorded.first _ _ hfirst₂
  have hinfo₂' : s₂.info = d₀.info := (hinfo₂ (hmoved.1 ▸ hdk)).trans hmoved.2
  refine ⟨s₂, Option.filter_eq_some_iff.mpr ⟨hget₂, ?_⟩, ⟨?_, .inl ?_, fun _ => ?_⟩⟩
  · rw [isVisible_of_info (hinfo₂' ▸ hnolist), hfile₂]
    exact List.contains_iff_mem.mpr hjv₂
  · rw [hk₀, hk₂, hmoved.1]
  · rw [hinfo₀ hdk, hinfo₂']
  · rw [hfile₀, hfile₂, hf₁', show (d₀.inFile j₂).file = j₂ from rfl, hf₂]
    simp [hschema]

/-- A symbol seen in one build is seen in the other, alike. -/
theorem visibleEntry_twin {n : String} {s₁ : Symbol} (hs : t₁.visibleEntry vs₁ n = some s₁) :
    ∃ s₂, t₂.visibleEntry vs₂ n = some s₂ ∧ Symbol.Alike files₁ files₂ s₁ s₂ := by
  by_cases hk : s₁.kind = .package
  · exact visibleEntry_package h₁ h₂ htw hs hk
  · exact visibleEntry_nonPackage h₁ h₂ htw hs hk

end Mirror

/-- Two tables seen from files that are twins of each other, none of them blamed for a
conflict, give every name alike visible entries. -/
theorem seenAlike {files₁ files₂ : Array ParsedFile} {order₁ order₂ : List Nat} {t₁ t₂ : SymbolTable}
    {cs₁ cs₂ : List Conflict} {vs₁ vs₂ : List Nat}
    (h₁ : CleanView files₁ order₁ t₁ cs₁ vs₁) (h₂ : CleanView files₂ order₂ t₂ cs₂ vs₂)
    (htw₁ : ∀ j₁ ∈ vs₁, ∃ j₂ ∈ vs₂, Twins files₁ files₂ j₁ j₂)
    (htw₂ : ∀ j₂ ∈ vs₂, ∃ j₁ ∈ vs₁, Twins files₁ files₂ j₁ j₂) : SeenAlike files₁ files₂ t₁ vs₁ t₂ vs₂ := by
  intro n
  cases he₁ : t₁.visibleEntry vs₁ n with
  | some s₁ =>
    obtain ⟨s₂, he₂, hs⟩ := visibleEntry_twin h₁ h₂ htw₁ he₁
    rw [he₂]
    exact .some hs
  | none =>
    cases he₂ : t₂.visibleEntry vs₂ n with
    | none => exact .none
    | some s₂ =>
      -- seen from the other build, the name would be seen in the first one too
      have htw₂' : ∀ j₂ ∈ vs₂, ∃ j₁ ∈ vs₁, Twins files₂ files₁ j₂ j₁ := fun j₂ hj =>
        (htw₂ j₂ hj).imp fun _ h => ⟨h.1, h.2.symm⟩
      obtain ⟨s₁, he₁', -⟩ := visibleEntry_twin h₂ h₁ htw₂' he₂
      rw [he₁] at he₁'
      cases he₁'

end CleanView

end SymbolTable

end ProtoSchema
