import Mathlib.Data.List.Basic
import ProtoSchema.Proofs.SymbolTable.Declared

/-!
Name lookup follows the scoping rules of protocol buffers. A name written inside an element is
looked up in the scopes enclosing the element, innermost first: the non-empty prefixes of the
element's full name that end before a dot, longest first (`mem_enclosingScopes`,
`enclosingScopes_longest_first`). The first scope where the name's first part is a visible
aggregate (for a compound name) or a visible symbol of the kind looked for (for a simple name)
decides the lookup; when none does, the name is looked up at the top level (`scopedLookup`).

A symbol that exists but cannot be seen is remembered along the way, and reported as not
imported when the lookup finds nothing visible. The search threads it through its loop; here
it is the first hidden entry among the candidates the lookup tries (`candidates`), so the
lookup reports a candidate as not imported exactly when it finds nothing visible and that
candidate is the first hidden one it tried (`lookup_follows_scoping`).
-/

namespace ProtoSchema

/-! ### The enclosing scopes -/

theorem intercalate_append_of_ne_nil {α : Type} {sep : α} {A B : List (List α)} (hA : A ≠ []) (hB : B ≠ []) :
    [sep].intercalate (A ++ B) = [sep].intercalate A ++ sep :: [sep].intercalate B := by
  obtain ⟨a, A, rfl⟩ := List.exists_cons_of_ne_nil hA
  obtain ⟨b, B, rfl⟩ := List.exists_cons_of_ne_nil hB
  rw [List.cons_append, ← append_flatMap_eq_intercalate, ← append_flatMap_eq_intercalate,
    ← append_flatMap_eq_intercalate]
  simp

theorem length_intercalate_take_lt {α : Type} {sep : α} {L : List (List α)} {i j : Nat} (hi : 0 < i)
    (hij : i < j) (hj : j ≤ L.length) :
    ([sep].intercalate (L.take i)).length < ([sep].intercalate (L.take j)).length := by
  have hsplit : L.take j = L.take i ++ (L.take j).drop i := by
    have h := (List.take_append_drop i (L.take j)).symm
    rwa [List.take_take, Nat.min_eq_left (Nat.le_of_lt hij)] at h
  have hA : L.take i ≠ [] := by
    rw [← List.length_pos_iff, List.length_take]
    omega
  have hB : (L.take j).drop i ≠ [] := by
    rw [← List.length_pos_iff, List.length_drop, List.length_take]
    omega
  rw [hsplit, intercalate_append_of_ne_nil hA hB, List.length_append, List.length_cons]
  omega

theorem enclosingScopes_eq (r : String) :
    enclosingScopes r = ((List.range ((r.toList.splitOn '.').length - 1)).reverse.map fun k =>
      String.ofList (['.'].intercalate ((r.toList.splitOn '.').take (k + 1)))).filter (· ≠ "") := by
  simp only [enclosingScopes, dotParts, List.length_map]
  congr 2
  funext k
  rw [← String.toList_inj, String.toList_intercalate, String.toList_ofList, ← List.map_take, List.map_map]
  simp [Function.comp_def]

/-- The scopes enclosing an element are the non-empty prefixes of its full name that end before
a dot. -/
theorem mem_enclosingScopes {r S : String} :
    S ∈ enclosingScopes r ↔ S ≠ "" ∧ (S ++ ".").toList <+: r.toList := by
  have hr : ['.'].intercalate (r.toList.splitOn '.') = r.toList := List.intercalate_splitOn '.'
  have hpos : 0 < (r.toList.splitOn '.').length := List.length_pos_iff.mpr (List.splitOn_ne_nil _ _)
  rw [enclosingScopes_eq]
  simp only [List.mem_filter, List.mem_map, List.mem_reverse, List.mem_range, decide_eq_true_eq]
  constructor
  · rintro ⟨⟨k, hk, rfl⟩, hne⟩
    refine ⟨hne, ['.'].intercalate ((r.toList.splitOn '.').drop (k + 1)), ?_⟩
    -- the parts up to `k` are followed by a dot and the parts after
    have hA : (r.toList.splitOn '.').take (k + 1) ≠ [] := by
      rw [← List.length_pos_iff, List.length_take]
      omega
    have hB : (r.toList.splitOn '.').drop (k + 1) ≠ [] := by
      rw [← List.length_pos_iff, List.length_drop]
      omega
    conv_rhs => rw [← hr, ← List.take_append_drop (k + 1) (r.toList.splitOn '.'), intercalate_append_of_ne_nil hA hB]
    simp
  · rintro ⟨hne, u, hu⟩
    have hsplit : r.toList.splitOn '.' = S.toList.splitOn '.' ++ u.splitOn '.' := by
      rw [← hu, String.toList_append, List.append_assoc]
      exact List.splitOn_append_cons_self _ _
    have hS : 0 < (S.toList.splitOn '.').length := List.length_pos_iff.mpr (List.splitOn_ne_nil _ _)
    have hu' : 0 < (u.splitOn '.').length := List.length_pos_iff.mpr (List.splitOn_ne_nil _ _)
    refine ⟨⟨(S.toList.splitOn '.').length - 1, ?_, ?_⟩, hne⟩
    · rw [hsplit, List.length_append]
      omega
    · rw [Nat.sub_add_cancel hS, hsplit, List.take_left, List.intercalate_splitOn, String.ofList_toList]

/-- The enclosing scopes come longest first, so innermost first and each once. -/
theorem enclosingScopes_longest_first (r : String) :
    (enclosingScopes r).Pairwise fun S S' => S'.length < S.length := by
  rw [enclosingScopes_eq]
  refine List.Pairwise.sublist List.filter_sublist ?_
  rw [List.pairwise_map, List.pairwise_reverse]
  refine List.Pairwise.imp_of_mem ?_ List.pairwise_lt_range
  intro a b ha hb hab
  rw [List.mem_range] at ha hb
  simp only [String.length_ofList]
  exact length_intercalate_take_lt (Nat.succ_pos a) (Nat.succ_lt_succ hab) (by omega)

namespace SymbolTable

variable (t : SymbolTable) (vs : List Nat)

def visibleEntry (n : String) : Option Symbol := (t.symbols.get? n).filter (isVisible · vs)

def hiddenEntry (n : String) : Option (String × Nat) :=
  ((t.symbols.get? n).filter fun s => !isVisible s vs && s.kind != .package).map fun s => (n, s.file)

def accepted (first : String) (compound typesOnly : Bool) (S : String) : Option Symbol :=
  (t.visibleEntry vs (qualify S first)).filter fun s =>
    if compound then s.kind.isAggregate else !typesOnly || s.kind.isType

def decision (first : String) (compound typesOnly : Bool) (scopes : List String) :
    Option (String × Symbol) :=
  scopes.findSome? fun S => (t.accepted vs first compound typesOnly S).map (S, ·)

def tried (name first : String) (compound typesOnly : Bool) (scopes : List String) : List String :=
  (scopes.takeWhile fun S => (t.accepted vs first compound typesOnly S).isNone).map (qualify · first) ++
    ((t.decision vs first compound typesOnly scopes).map fun d =>
      qualify d.1 first :: if compound then [qualify d.1 name] else []).getD [name]

def atTop (n : String) (hidden : Option (String × Nat)) : Lookup :=
  ((t.visibleEntry vs n).map (.found n)).getD (missing hidden none)

def decidedAt (name first : String) (compound : Bool) (hidden : Option (String × Nat)) (S : String)
    (s : Symbol) : Lookup :=
  if compound then
    ((t.visibleEntry vs (qualify S name)).map (.found (qualify S name))).getD
      (missing hidden (some (qualify S name)))
  else .found (qualify S first) s

def searchOutcome (name first : String) (compound typesOnly : Bool) (met : Option (String × Nat))
    (scopes : List String) : Lookup :=
  let hidden := met.or ((t.tried vs name first compound typesOnly scopes).findSome? (t.hiddenEntry vs))
  ((t.decision vs first compound typesOnly scopes).map fun d =>
    t.decidedAt vs name first compound hidden d.1 d.2).getD (t.atTop vs name hidden)

/-! ### One candidate, then the search -/

theorem find_eq (n : String) (hidden : Option (String × Nat)) :
    t.find n (some vs) hidden = (t.visibleEntry vs n, hidden.or (t.hiddenEntry vs n)) := by
  unfold find visibleEntry hiddenEntry
  cases hn : t.symbols.get? n with
  | none => simp
  | some s =>
    by_cases hv : isVisible s vs = true
    · simp [Option.filter_some, hv]
    · cases hidden <;> by_cases hk : s.kind = .package <;> simp [Option.filter_some, hv, hk]

theorem findSome?_cons_eq_or {α β : Type} (f : α → Option β) (a : α) (l : List α) :
    (a :: l).findSome? f = (f a).or (l.findSome? f) := by
  cases h : f a <;> simp [h]

variable {t vs} {name first : String} {compound typesOnly : Bool}

theorem searchOutcome_nil (met : Option (String × Nat)) :
    t.searchOutcome vs name first compound typesOnly met [] = t.atTop vs name (met.or (t.hiddenEntry vs name)) := by
  simp [searchOutcome, tried, decision]

theorem searchOutcome_cons_of_none {S : String} {rest : List String}
    (h : t.accepted vs first compound typesOnly S = none) (met : Option (String × Nat)) :
    t.searchOutcome vs name first compound typesOnly met (S :: rest) =
      t.searchOutcome vs name first compound typesOnly (met.or (t.hiddenEntry vs (qualify S first))) rest := by
  have hdec : t.decision vs first compound typesOnly (S :: rest) = t.decision vs first compound typesOnly rest := by
    simp [decision, h]
  have htried : t.tried vs name first compound typesOnly (S :: rest) =
      qualify S first :: t.tried vs name first compound typesOnly rest := by
    simp [tried, h, hdec]
  simp only [searchOutcome, hdec, htried, findSome?_cons_eq_or, Option.or_assoc]

theorem searchOutcome_cons_of_some {S : String} {rest : List String} {s : Symbol}
    (h : t.accepted vs first compound typesOnly S = some s) (met : Option (String × Nat)) :
    t.searchOutcome vs name first compound typesOnly met (S :: rest) =
      t.decidedAt vs name first compound (met.or ((t.hiddenEntry vs (qualify S first)).or
        ((if compound then [qualify S name] else []).findSome? (t.hiddenEntry vs)))) S s := by
  have hdec : t.decision vs first compound typesOnly (S :: rest) = some (S, s) := by
    simp [decision, h]
  have htried : t.tried vs name first compound typesOnly (S :: rest) =
      qualify S first :: if compound then [qualify S name] else [] := by
    simp [tried, h, hdec]
  simp only [searchOutcome, hdec, htried, findSome?_cons_eq_or, Option.map_some, Option.getD_some]

theorem qualify_of_ne_empty {S : String} (h : S ≠ "") (n : String) : qualify S n = S ++ "." ++ n := by
  rw [qualify, if_neg (by simpa using h)]

theorem searchScopes_eq (name first : String) (compound typesOnly : Bool) :
    ∀ (scopes : List String) (met : Option (String × Nat)), (∀ S ∈ scopes, S ≠ "") →
      t.searchScopes name first compound typesOnly (some vs) scopes met =
        t.searchOutcome vs name first compound typesOnly met scopes
  | [], met, _ => by
    rw [searchOutcome_nil]
    unfold searchScopes atTop
    rw [find_eq]
    cases t.visibleEntry vs name <;> rfl
  | S :: rest, met, hne => by
    have hS : S ≠ "" := hne S List.mem_cons_self
    have ih := searchScopes_eq name first compound typesOnly rest
    have hrest : ∀ S' ∈ rest, S' ≠ "" := fun S' h => hne S' (List.mem_cons_of_mem S h)
    unfold searchScopes
    dsimp only
    rw [← qualify_of_ne_empty hS, find_eq]
    -- the candidate inside `S` is not seen, is seen but not accepted, or decides the search
    cases hv : t.visibleEntry vs (qualify S first) with
    | none =>
      have hacc : t.accepted vs first compound typesOnly S = none := by simp [accepted, hv]
      rw [searchOutcome_cons_of_none hacc]
      exact ih _ hrest
    | some s =>
      dsimp only
      by_cases hok : (if compound then s.kind.isAggregate else !typesOnly || s.kind.isType) = true
      · have hacc : t.accepted vs first compound typesOnly S = some s := by
          simp only [accepted, hv, Option.filter_some, hok, if_true]
        rw [searchOutcome_cons_of_some hacc]
        cases compound
        · -- a simple name is found in `S`
          simp only [if_false, Bool.false_eq_true] at hok ⊢
          rw [if_pos hok, decidedAt, if_neg Bool.false_ne_true]
        · -- a compound name commits to `S`: the whole name is looked up inside it
          simp only [if_true] at hok ⊢
          rw [if_pos hok, ← qualify_of_ne_empty hS, find_eq, decidedAt, if_pos rfl]
          cases t.visibleEntry vs (qualify S name) <;> simp [Option.or_assoc]
      · have hacc : t.accepted vs first compound typesOnly S = none := by
          simp only [accepted, hv, Option.filter_some, hok]
          rfl
        rw [searchOutcome_cons_of_none hacc]
        cases compound <;> simp only [if_true, if_false, Bool.false_eq_true] at hok ⊢
        · rw [if_neg hok]
          exact ih _ hrest
        · rw [if_neg hok]
          exact ih _ hrest

/-! ### The lookup -/

def absoluteName (name : String) : String := (name.drop 1).toString

def firstPart (name : String) : String := ((dotParts name).head?).getD name

variable (t vs) in
/-- The outcome the scoping rules give to looking `name` up inside the element of full name
`relativeTo`, among the files `vs`: an absolute name at the top level, any other through the
enclosing scopes, a compound one when its first part is shorter than it. -/
def scopedLookup (name relativeTo : String) (typesOnly : Bool) : Lookup :=
  if name.startsWith "." then t.atTop vs (absoluteName name) (t.hiddenEntry vs (absoluteName name))
  else t.searchOutcome vs name (firstPart name) (decide ((firstPart name).length < name.length)) typesOnly none
    (enclosingScopes relativeTo)

variable (t vs) in
/-- The candidates such a lookup tries, in order. -/
def candidates (name relativeTo : String) (typesOnly : Bool) : List String :=
  if name.startsWith "." then [absoluteName name]
  else t.tried vs name (firstPart name) (decide ((firstPart name).length < name.length)) typesOnly
    (enclosingScopes relativeTo)

theorem lookup_eq_scopedLookup (name relativeTo : String) (typesOnly : Bool) :
    t.lookup name relativeTo typesOnly (some vs) = t.scopedLookup vs name relativeTo typesOnly := by
  unfold lookup scopedLookup
  split
  · dsimp only
    rw [find_eq, Option.none_or]
    unfold atTop absoluteName
    cases t.visibleEntry vs (name.drop 1).toString <;> rfl
  · exact searchScopes_eq _ _ _ _ _ _ fun S hS => (mem_enclosingScopes.mp hS).1

theorem missing_eq_notImported {hidden : Option (String × Nat)} {hint : Option String} {n : String} {f : Nat} :
    missing hidden hint = .notImported n f ↔ hidden = some (n, f) := by
  rcases hidden with _ | ⟨n', f'⟩ <;> simp [missing]

theorem scopedLookup_found_or_missing (name relativeTo : String) (typesOnly : Bool) :
    (∃ full s, t.scopedLookup vs name relativeTo typesOnly = .found full s) ∨
      ∃ hint, t.scopedLookup vs name relativeTo typesOnly =
        missing ((t.candidates vs name relativeTo typesOnly).findSome? (t.hiddenEntry vs)) hint := by
  unfold scopedLookup candidates
  split
  · -- an absolute name, at the top level
    unfold atTop
    cases t.visibleEntry vs (absoluteName name) with
    | none => exact Or.inr ⟨none, by simp⟩
    | some s => exact Or.inl ⟨_, s, rfl⟩
  · unfold searchOutcome
    cases hd : t.decision vs (firstPart name) (decide ((firstPart name).length < name.length)) typesOnly
      (enclosingScopes relativeTo) with
    | none =>
      -- no scope decides: the name at the top level
      unfold atTop
      cases t.visibleEntry vs name with
      | none => exact Or.inr ⟨none, by simp⟩
      | some s => exact Or.inl ⟨_, s, rfl⟩
    | some d =>
      simp only [Option.map_some, Option.getD_some, Option.none_or]
      unfold decidedAt
      split
      · cases t.visibleEntry vs (qualify d.1 name) with
        | none => exact Or.inr ⟨some (qualify d.1 name), rfl⟩
        | some s => exact Or.inl ⟨qualify d.1 name, s, rfl⟩
      · exact Or.inl ⟨_, d.2, rfl⟩

/-- How a lookup among visible files follows the scoping rules: it finds only visible entries
of the table; the scopes it searches are the non-empty prefixes of the enclosing full name that
end before a dot, longest first; its outcome is the one the rules give; and it reports a
candidate as not imported exactly when it finds nothing visible and that candidate is the first
hidden one it tried. -/
structure FollowsScoping (t : SymbolTable) (vs : List Nat) (name relativeTo : String) (typesOnly : Bool)
    (result : Lookup) : Prop where
  found_visible : ∀ full s, result = .found full s → t.symbols.get? full = some s ∧ isVisible s vs = true
  scopes : ∀ S, S ∈ enclosingScopes relativeTo ↔ S ≠ "" ∧ (S ++ ".").toList <+: relativeTo.toList
  longest_first : (enclosingScopes relativeTo).Pairwise fun S S' => S'.length < S.length
  outcome : result = t.scopedLookup vs name relativeTo typesOnly
  notImported : ∀ n f, result = .notImported n f ↔ (∀ full s, result ≠ .found full s) ∧
    (t.candidates vs name relativeTo typesOnly).findSome? (t.hiddenEntry vs) = some (n, f)

theorem lookup_follows_scoping (t : SymbolTable) (vs : List Nat) (name relativeTo : String) (typesOnly : Bool) :
    FollowsScoping t vs name relativeTo typesOnly (t.lookup name relativeTo typesOnly (some vs)) where
  found_visible _ _ h := lookup_found h
  scopes _ := mem_enclosingScopes
  longest_first := enclosingScopes_longest_first relativeTo
  outcome := lookup_eq_scopedLookup name relativeTo typesOnly
  notImported n f := by
    rw [lookup_eq_scopedLookup]
    rcases scopedLookup_found_or_missing name relativeTo typesOnly with ⟨full, s, h⟩ | ⟨hint, h⟩
    · rw [h]
      simp only [reduceCtorEq, false_iff, not_and]
      exact fun hnot => absurd rfl (hnot full s)
    · rw [h, missing_eq_notImported]
      exact ⟨fun hh => ⟨fun full s => missing_ne_found _ _ _ _, hh⟩, fun hh => hh.2⟩

theorem lookup_of_enclosingScopes_nil {t : SymbolTable} {name relativeTo : String} {typesOnly : Bool}
    {s : Symbol} (hdot : name.startsWith "." = false) (hscopes : enclosingScopes relativeTo = [])
    (hget : t.symbols.get? name = some s) : t.lookup name relativeTo typesOnly none = .found name s := by
  unfold lookup
  rw [hdot, hscopes]
  simp only [Bool.false_eq_true, if_false, searchScopes, find, hget]

end SymbolTable

end ProtoSchema
