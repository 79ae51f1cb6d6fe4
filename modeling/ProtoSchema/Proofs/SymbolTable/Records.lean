import Mathlib.Data.List.Nodup
import ProtoSchema.Proofs.SymbolTable.Decls

/-!
What the symbol table records. Declaring a list of declarations one after the other keeps the
first declaration of each name; a later declaration of a package already declared as a package
adds its file to the package, and any other later declaration is a conflict blamed on the later
file (`FirstWins`, `FirstWins.declare_all`). So the table holds the first declaration of every
name the visited files declare and nothing else, reports one conflict for each later
declaration, in order, and lists for each package the files that declare it: those whose package
is that package or lies inside it (`SymbolTable.build_first_wins`).
-/

namespace ProtoSchema

/-! ### First declarations win -/

namespace SymbolDecl

def firstOf (P : List SymbolDecl) (n : String) : Option SymbolDecl := P.find? (·.fullName == n)

def Clashes (P : List SymbolDecl) (d : SymbolDecl) : Prop :=
  ∃ d₀, firstOf P d.fullName = some d₀ ∧ ¬(d₀.kind = .package ∧ d.kind = .package)

instance (P : List SymbolDecl) (d : SymbolDecl) : Decidable (Clashes P d) :=
  by unfold Clashes; infer_instance

def redeclarations : List SymbolDecl → List SymbolDecl → List SymbolDecl
  | _, [] => []
  | P, d :: rest => (if Clashes P d then [d] else []) ++ redeclarations (P ++ [d]) rest

theorem redeclarations_append_singleton (P : List SymbolDecl) (D : List SymbolDecl) (d : SymbolDecl) :
    redeclarations P (D ++ [d]) = redeclarations P D ++ (if Clashes (P ++ D) d then [d] else []) := by
  induction D generalizing P with
  | nil => simp [redeclarations]
  | cons d' D ih => simp [redeclarations, ih, List.append_assoc]

theorem firstOf_append_singleton (P : List SymbolDecl) (d : SymbolDecl) (n : String) :
    firstOf (P ++ [d]) n = (firstOf P n).or (if d.fullName = n then some d else none) := by
  simp only [firstOf, List.find?_append, List.find?_cons, List.find?_nil]
  cases h : d.fullName == n
  · have hn : d.fullName ≠ n := by simpa using h
    simp [hn]
  · simp [beq_iff_eq.mp h]

theorem firstOf_append_of_declared {P : List SymbolDecl} {d : SymbolDecl} (h : firstOf P d.fullName ≠ none)
    (n : String) : firstOf (P ++ [d]) n = firstOf P n := by
  rw [firstOf_append_singleton]
  by_cases hn : d.fullName = n
  · subst hn
    obtain ⟨d₀, h₀⟩ := Option.ne_none_iff_exists'.mp h
    simp [h₀]
  · simp [hn]

theorem firstOf_append_of_new {P : List SymbolDecl} {d : SymbolDecl} (h : firstOf P d.fullName = none)
    (n : String) : firstOf (P ++ [d]) n = if d.fullName = n then some d else firstOf P n := by
  rw [firstOf_append_singleton]
  split_ifs with hn
  · subst hn
    simp [h]
  · simp

theorem firstOf_eq_none {P : List SymbolDecl} {n : String} : firstOf P n = none ↔ ∀ d ∈ P, d.fullName ≠ n := by
  simp [firstOf]

theorem firstOf_fullName {P : List SymbolDecl} {n : String} {d₀ : SymbolDecl} (h : firstOf P n = some d₀) :
    d₀ ∈ P ∧ d₀.fullName = n := by
  have := List.find?_some h
  exact ⟨List.mem_of_find?_eq_some h, by simpa using this⟩

theorem forall_append_singleton_ne {P : List SymbolDecl} {d : SymbolDecl} (h : firstOf P d.fullName ≠ none)
    (n : String) : (∀ d' ∈ P ++ [d], d'.fullName ≠ n) ↔ ∀ d' ∈ P, d'.fullName ≠ n := by
  rw [← firstOf_eq_none, ← firstOf_eq_none, firstOf_append_of_declared h]

end SymbolDecl

open SymbolDecl

namespace Collected

/-- After declaring `P` in order, `c` holds the first declaration of every name of `P` and no
other name; a package gained the file of every declaration of its name; and the conflicts are
the declarations that clash with those before them, blamed on their own file and span. -/
structure FirstWins (P : List SymbolDecl) (c : Collected) : Prop where
  absent : ∀ n, c.table.symbols.get? n = none ↔ ∀ d ∈ P, d.fullName ≠ n
  first : ∀ n d₀, firstOf P n = some d₀ → ∃ s, c.table.symbols.get? n = some s ∧ s.kind = d₀.kind ∧
    s.file = d₀.file ∧ (d₀.kind ≠ .package → s.info = d₀.info)
  packages : ∀ n s, c.table.symbols.get? n = some s → s.kind = .package → ∃ fs, s.info = .package fs ∧
    fs.Nodup ∧ ∀ i, i ∈ fs ↔ DeclaresPackage P n i
  conflicts : c.conflicts.toList.map (fun x => (x.file, x.span)) = (redeclarations [] P).map fun d => (d.file, d.span)

theorem firstWins_empty : FirstWins [] ({} : Collected) where
  absent n := by simp
  first n d₀ h := by simp [firstOf] at h
  packages n s h := by simp at h
  conflicts := by simp [redeclarations]

variable {names : Array String} {P : List SymbolDecl} {c : Collected} {d : SymbolDecl}

theorem declare_of_none (h : c.table.symbols.get? d.fullName = none) :
    c.declare names d = { c with table := ⟨c.table.symbols.insert d.fullName d.symbol⟩ } := by
  unfold declare add
  dsimp only
  rw [show qualify d.scope d.name = d.fullName from rfl, h]
  rfl

theorem declare_of_package {existing : Symbol} {fs : List Nat} (h : c.table.symbols.get? d.fullName = some existing)
    (hk : existing.kind = .package) (hd : d.kind = .package) (hinfo : existing.info = .package fs) :
    c.declare names d = if d.file ∈ fs then c else
      { c with table := ⟨c.table.symbols.insert d.fullName { existing with info := .package (fs ++ [d.file]) }⟩ } := by
  unfold declare add
  dsimp only
  rw [show qualify d.scope d.name = d.fullName from rfl, h]
  simp only [hk, hd, decide_true, hinfo, List.contains_iff_mem]
  rfl

theorem declare_of_clash {existing : Symbol} (h : c.table.symbols.get? d.fullName = some existing)
    (hk : ¬(existing.kind = .package ∧ d.kind = .package)) :
    c.declare names d = { c with conflicts := c.conflicts.push ⟨d.file, d.span,
      conflictMessage existing d.kind d.file (names[existing.file]?.getD "") d.scope d.name d.fullName⟩ } := by
  unfold declare add
  dsimp only
  rw [show qualify d.scope d.name = d.fullName from rfl, h]
  simp only [Bool.and_eq_true, decide_eq_true_eq, hk, if_false]

namespace FirstWins

theorem declare_new (hc : FirstWins P c) (hpkg : d.kind = .package → d.info = .package [d.file])
    (hnone : c.table.symbols.get? d.fullName = none) : FirstWins (P ++ [d]) (c.declare names d) := by
  have hfirst : firstOf P d.fullName = none := firstOf_eq_none.mpr ((hc.absent _).mp hnone)
  rw [declare_of_none hnone]
  constructor
  case absent =>
    intro n
    by_cases hn : d.fullName = n
    · subst hn
      simp
    · simpa [Std.HashMap.getElem?_insert, hn, or_imp, forall_and] using hc.absent n
  case first =>
    intro n d₀ h₀
    rw [firstOf_append_of_new hfirst] at h₀
    by_cases hn : d.fullName = n
    · subst hn
      obtain rfl : d = d₀ := by simpa using h₀
      exact ⟨d.symbol, by simp, rfl, rfl, fun _ => rfl⟩
    · rw [if_neg hn] at h₀
      simpa [Std.HashMap.getElem?_insert, hn] using hc.first n d₀ h₀
  case packages =>
    intro n s hs hk
    by_cases hn : d.fullName = n
    · subst hn
      obtain rfl : d.symbol = s := by simpa using hs
      refine ⟨[d.file], hpkg hk, List.nodup_singleton _, fun i => ?_⟩
      have hP : ¬DeclaresPackage P d.fullName i := fun ⟨d', hd', hn', _⟩ => firstOf_eq_none.mp hfirst d' hd' hn'
      rw [declaresPackage_append_singleton]
      simp only [SymbolDecl.symbol] at hk
      simp [hP, hk, eq_comm]
    · obtain ⟨fs, hi, hnd, hmem⟩ := hc.packages n s (by simpa [Std.HashMap.getElem?_insert, hn] using hs) hk
      refine ⟨fs, hi, hnd, fun i => ?_⟩
      rw [declaresPackage_append_singleton, hmem]
      simp [hn]
  case conflicts =>
    have hclash : ¬Clashes P d := fun ⟨d₀, h₀, _⟩ => by simp [hfirst] at h₀
    rw [redeclarations_append_singleton, List.nil_append, if_neg hclash]
    simpa using hc.conflicts

theorem firstOf_of_get (hc : FirstWins P c) {n : String} {s : Symbol} (h : c.table.symbols.get? n = some s) :
    ∃ d₀, firstOf P n = some d₀ ∧ s.kind = d₀.kind ∧ s.file = d₀.file ∧ (d₀.kind ≠ .package → s.info = d₀.info) := by
  have hne : firstOf P n ≠ none := fun hn => by
    rw [(hc.absent n).mpr (firstOf_eq_none.mp hn)] at h
    cases h
  obtain ⟨d₀, h₀⟩ := Option.ne_none_iff_exists'.mp hne
  obtain ⟨s', hs', hk, hf, hi⟩ := hc.first n d₀ h₀
  obtain rfl : s' = s := Option.some.inj (hs'.symm.trans h)
  exact ⟨d₀, h₀, hk, hf, hi⟩

theorem keep (hc : FirstWins P c) (hknown : firstOf P d.fullName ≠ none)
    (hpkg : ∀ s, c.table.symbols.get? d.fullName = some s → s.kind = .package → d.kind = .package →
      DeclaresPackage P d.fullName d.file)
    {c' : Collected} (htable : c'.table = c.table)
    (hconf : c'.conflicts.toList.map (fun x => (x.file, x.span)) =
      (redeclarations [] (P ++ [d])).map fun d => (d.file, d.span)) : FirstWins (P ++ [d]) c' where
  absent n := by rw [htable, forall_append_singleton_ne hknown]; exact hc.absent n
  first n d₀ h₀ := by rw [htable]; exact hc.first n d₀ (by rwa [firstOf_append_of_declared hknown] at h₀)
  packages n s hs hk := by
    rw [htable] at hs
    obtain ⟨fs, hi, hnd, hmem⟩ := hc.packages n s hs hk
    refine ⟨fs, hi, hnd, fun i => ?_⟩
    rw [declaresPackage_append_singleton, hmem]
    -- the repeated package adds no file: its own is listed already
    constructor
    · exact Or.inl
    · rintro (h | ⟨rfl, hd, rfl⟩)
      · exact h
      · exact hpkg s hs hk hd
  conflicts := hconf

theorem declare_clash (hc : FirstWins P c) {existing : Symbol} (hsome : c.table.symbols.get? d.fullName = some existing)
    (hk : ¬(existing.kind = .package ∧ d.kind = .package)) : FirstWins (P ++ [d]) (c.declare names d) := by
  obtain ⟨d₀, h₀, hkind, -, -⟩ := hc.firstOf_of_get hsome
  have hclash : Clashes P d := ⟨d₀, h₀, by rwa [← hkind]⟩
  rw [declare_of_clash hsome hk]
  refine hc.keep (by simp [h₀]) (fun s hs hsk hd => ?_) rfl ?_
  · obtain rfl : existing = s := Option.some.inj (hsome.symm.trans hs)
    exact absurd ⟨hsk, hd⟩ hk
  · rw [redeclarations_append_singleton, List.nil_append, if_pos hclash, Array.toList_push, List.map_append,
      hc.conflicts, List.map_append]
    rfl

theorem declare_merge (hc : FirstWins P c) {existing : Symbol} (hsome : c.table.symbols.get? d.fullName = some existing)
    (hk : existing.kind = .package) (hd : d.kind = .package) : FirstWins (P ++ [d]) (c.declare names d) := by
  obtain ⟨d₀, h₀, hkind, hfile, -⟩ := hc.firstOf_of_get hsome
  have hknown : firstOf P d.fullName ≠ none := by simp [h₀]
  have hclash : ¬Clashes P d := fun ⟨d₀', h₀', hne⟩ => by
    obtain rfl : d₀ = d₀' := Option.some.inj (h₀.symm.trans h₀')
    exact hne ⟨hkind ▸ hk, hd⟩
  have hconf : c.conflicts.toList.map (fun x => (x.file, x.span)) =
      (redeclarations [] (P ++ [d])).map fun d => (d.file, d.span) := by
    rw [redeclarations_append_singleton, List.nil_append, if_neg hclash, List.append_nil]
    exact hc.conflicts
  obtain ⟨fs, hinfo, hnd, hmem⟩ := hc.packages _ existing hsome hk
  rw [declare_of_package hsome hk hd hinfo]
  split
  case isTrue hin =>
    refine hc.keep hknown (fun s hs _ _ => ?_) rfl hconf
    obtain rfl : existing = s := Option.some.inj (hsome.symm.trans hs)
    exact (hmem d.file).mp hin
  case isFalse hnew =>
    constructor
    case absent =>
      intro n
      rw [forall_append_singleton_ne hknown, ← hc.absent n]
      by_cases hn : d.fullName = n
      · subst hn
        have hin : d.fullName ∈ c.table.symbols := by
          rw [Std.HashMap.mem_iff_isSome_getElem?, ← Std.HashMap.get?_eq_getElem?, hsome]
          rfl
        simp [hin]
      · simp [Std.HashMap.getElem?_insert, hn]
    case first =>
      intro n d₁ h₁
      rw [firstOf_append_of_declared hknown] at h₁
      by_cases hn : d.fullName = n
      · subst hn
        obtain rfl : d₀ = d₁ := Option.some.inj (h₀.symm.trans h₁)
        exact ⟨{ existing with info := .package (fs ++ [d.file]) }, by simp, hkind, hfile,
          fun h => absurd (hkind ▸ hk) h⟩
      · simpa [Std.HashMap.getElem?_insert, hn] using hc.first n d₁ h₁
    case packages =>
      intro n s hs hsk
      by_cases hn : d.fullName = n
      · subst hn
        obtain rfl : { existing with info := .package (fs ++ [d.file]) } = s := by simpa using hs
        have hdisj : ∀ a ∈ fs, ∀ b ∈ [d.file], a ≠ b := by
          rintro a ha b hb rfl
          exact hnew (List.mem_singleton.mp hb ▸ ha)
        refine ⟨fs ++ [d.file], rfl, List.nodup_append.mpr ⟨hnd, List.nodup_singleton _, hdisj⟩, fun i => ?_⟩
        rw [declaresPackage_append_singleton, ← hmem]
        simp [hd, eq_comm]
      · obtain ⟨fs', hi, hnd', hmem'⟩ := hc.packages n s (by simpa [Std.HashMap.getElem?_insert, hn] using hs) hsk
        refine ⟨fs', hi, hnd', fun i => ?_⟩
        rw [declaresPackage_append_singleton, hmem']
        simp [hn]
    case conflicts => exact hconf

theorem declare_next (hc : FirstWins P c) (hpkg : d.kind = .package → d.info = .package [d.file]) :
    FirstWins (P ++ [d]) (c.declare names d) := by
  cases hget : c.table.symbols.get? d.fullName with
  | none => exact hc.declare_new hpkg hget
  | some existing =>
    by_cases hk : existing.kind = .package ∧ d.kind = .package
    · exact hc.declare_merge hget hk.1 hk.2
    · exact hc.declare_clash hget hk

/-- Declaring a list in order keeps the invariant, for the declarations so far followed by the
list. -/
theorem declare_all (hc : FirstWins P c) {D : List SymbolDecl}
    (hpkg : ∀ d ∈ D, d.kind = .package → d.info = .package [d.file]) :
    FirstWins (P ++ D) (D.foldl (declare names) c) := by
  induction D generalizing P c with
  | nil => simpa using hc
  | cons d D ih =>
    rw [List.foldl_cons, ← List.singleton_append, ← List.append_assoc]
    exact ih (hc.declare_next (hpkg d List.mem_cons_self)) fun d' hd' => hpkg d' (List.mem_cons_of_mem d hd')

end FirstWins

end Collected

/-! ### The symbol table of a build -/

/-- What the symbol table of the visited files records: the first declaration of every name
they declare and no other name, one conflict for each later declaration that is not a second
package, blamed on its own file and span, in order, and for each package the visited files whose
package is that package or lies inside it, each once. -/
structure Recorded (files : Array ParsedFile) (order : List Nat) (table : SymbolTable)
    (conflicts : List Conflict) : Prop where
  absent : ∀ n, table.symbols.get? n = none ↔ ∀ d ∈ buildDecls files order, d.fullName ≠ n
  first : ∀ n d₀, firstOf (buildDecls files order) n = some d₀ → ∃ s, table.symbols.get? n = some s ∧
    s.kind = d₀.kind ∧ s.file = d₀.file ∧ (d₀.kind ≠ .package → s.info = d₀.info)
  conflicts : conflicts.map (fun x => (x.file, x.span)) =
    (redeclarations [] (buildDecls files order)).map fun d => (d.file, d.span)
  packages : ∀ n s, table.symbols.get? n = some s → s.kind = .package → ∃ fs, s.info = .package fs ∧
    fs.Nodup ∧ ∀ i, i ∈ fs ↔ i ∈ order ∧
      ∃ f p, files[i]? = some f ∧ f.schema.package = some p ∧ WithinPackage p.name.value n

theorem SymbolTable.build_recorded {files : Array ParsedFile} {order : List Nat}
    (hnamed : ∀ i ∈ order, ∀ f, files[i]? = some f → f.schema.PackageNamed) :
    Recorded files order (SymbolTable.build files order).1 (SymbolTable.build files order).2 := by
  have hc : Collected.FirstWins (buildDecls files order)
      ((buildDecls files order).foldl (Collected.declare (files.map (·.name))) {}) := by
    simpa using Collected.firstWins_empty.declare_all fun d hd => buildDecls_packageInfo hd
  rw [SymbolTable.build_eq_foldl hnamed]
  refine ⟨hc.absent, hc.first, hc.conflicts, fun n s hs hk => ?_⟩
  obtain ⟨fs, hinfo, hnd, hmem⟩ := hc.packages n s hs hk
  exact ⟨fs, hinfo, hnd, fun i => (hmem i).trans (declaresPackage_buildDecls hnamed)⟩

theorem SymbolTable.build_recorded_of_named {files : Array ParsedFile}
    (hnamed : ∀ f ∈ files.toList, f.schema.PackageNamed) (order : List Nat) :
    Recorded files order (SymbolTable.build files order).1 (SymbolTable.build files order).2 :=
  SymbolTable.build_recorded fun _ _ f hf => hnamed f (Array.mem_toList_iff.mpr (Array.mem_of_getElem? hf))

theorem Recorded.conflicts_eq_nil {files : Array ParsedFile} {order : List Nat} {table : SymbolTable}
    {conflicts : List Conflict} (h : Recorded files order table conflicts)
    (hr : redeclarations [] (buildDecls files order) = []) : conflicts = [] := by
  have hc := h.conflicts
  rw [hr, List.map_nil] at hc
  exact List.map_eq_nil_iff.mp hc

namespace Recorded

variable {files : Array ParsedFile} {order : List Nat} {table : SymbolTable} {conflicts : List Conflict}

theorem firstOf_of_get (h : Recorded files order table conflicts) {n : String} {s : Symbol}
    (hs : table.symbols.get? n = some s) :
    ∃ d₀, firstOf (buildDecls files order) n = some d₀ ∧ s.kind = d₀.kind ∧ s.file = d₀.file ∧
      (d₀.kind ≠ .package → s.info = d₀.info) := by
  have hne : firstOf (buildDecls files order) n ≠ none := fun hn => by
    rw [(h.absent n).mpr (firstOf_eq_none.mp hn)] at hs
    cases hs
  obtain ⟨d₀, h₀⟩ := Option.ne_none_iff_exists'.mp hne
  obtain ⟨s', hs', hk, hf, hi⟩ := h.first n d₀ h₀
  obtain rfl : s' = s := Option.some.inj (hs'.symm.trans hs)
  exact ⟨d₀, h₀, hk, hf, hi⟩

theorem info_mem (h : Recorded files order table conflicts) {n : String} {s : Symbol}
    (hs : table.symbols.get? n = some s) (hinfo : ∀ fs, s.info ≠ .package fs) :
    ∃ d ∈ buildDecls files order, s.info = d.info := by
  obtain ⟨d₀, h₀, hk, -, hi⟩ := h.firstOf_of_get hs
  have hnp : d₀.kind ≠ .package := fun hp => by
    obtain ⟨fs, hfs, -⟩ := h.packages n s hs (hk.trans hp)
    exact hinfo fs hfs
  exact ⟨d₀, List.mem_of_find?_eq_some h₀, hi hnp⟩

theorem declared_of_get (h : Recorded files order table conflicts) {n : String} {s : Symbol}
    (hs : table.symbols.get? n = some s) (hinfo : ∀ fs, s.info ≠ .package fs) :
    ∃ i ∈ order, ∃ f, files[i]? = some f ∧ ∃ d ∈ f.schema.decls i, s.info = d.info := by
  obtain ⟨d, hd, hi⟩ := h.info_mem hs hinfo
  obtain ⟨i, hi', f, hf, hd'⟩ := mem_buildDecls.mp hd
  exact ⟨i, hi', f, hf, d, hd', hi⟩

end Recorded

/-- The symbol table of a build keeps the first declaration of every name, reports every later
one that is not a second package as a conflict of its own file, and records for each package the
files declaring it or a package inside it. -/
theorem SymbolTable.build_first_wins {files : Array ParsedFile} {order : List Nat}
    (hnamed : ∀ i ∈ order, ∀ f, files[i]? = some f → f.schema.PackageNamed) :
    Recorded files order (SymbolTable.build files order).1 (SymbolTable.build files order).2 :=
  SymbolTable.build_recorded hnamed

def packagedFile : ParsedFile :=
  ⟨"a.proto", "a.proto", { (default : SchemaFile) with package := some ⟨⟨"a.b", default⟩, default⟩ }⟩

theorem build_first_wins_packagedFile :
    (∀ i ∈ [0, 0], ∀ f, #[packagedFile][i]? = some f → f.schema.PackageNamed) ∧
      Recorded #[packagedFile] [0, 0] (SymbolTable.build #[packagedFile] [0, 0]).1
        (SymbolTable.build #[packagedFile] [0, 0]).2 := by
  have hnamed : ∀ i ∈ [0, 0], ∀ f, #[packagedFile][i]? = some f → f.schema.PackageNamed := by
    intro i hi f hf p hp
    obtain rfl : i = 0 := by simpa using hi
    obtain rfl : packagedFile = f := by simpa using hf
    obtain rfl : ⟨⟨"a.b", default⟩, default⟩ = p := by simpa [packagedFile] using hp
    exact ⟨'a', ".b".toList, rfl, rfl⟩
  exact ⟨hnamed, SymbolTable.build_first_wins hnamed⟩

end ProtoSchema
