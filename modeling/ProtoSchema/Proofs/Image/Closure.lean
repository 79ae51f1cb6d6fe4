import Mathlib
import ProtoSchema.Image.Transform
import ProtoSchema.Proofs.Image

/-!
The import closure of chosen names. `Image.withNames` looks each requested name up
(normalized where it can be), walks the imports from the names it found with a stack
and a list of names already seen, and keeps, in image order, the files whose names the
walk reached; a requested file stays requested and every other becomes an import.

The walk is stated here once, as the set it keeps: the names seen together with
everything reachable from the stack never changes, and every seen name has its
imports seen or on the stack. Its fuel, the number of names and imports it may
still push, runs out only once the stack is empty. What it computes is then the
reflexive-transitive closure of the import edges, whatever the shape of the graph.

Main statements: `mem_closure`, `withNames_eq_selection`, and for the invariant of
images `Valid.selection` (the kept files are a valid image again).
-/

namespace ProtoSchema

namespace Image

open Relation

variable {img : Image}

/-! ### Looking names up

In an image whose names are distinct, the list search of `position?` and `file?`
finds the one file of a name. -/

theorem position?_isSome_iff {name : String} : (img.position? name).isSome ↔ name ∈ img.names :=
  List.isSome_idxOf?

theorem position?_eq_some_iff (hn : img.names.Nodup) {name : String} {i : Nat} :
    img.position? name = some i ↔ ∃ h : i < img.files.length, img.files[i].name = name := by
  unfold position?
  rw [List.idxOf?_eq_some_iff]
  constructor
  · rintro ⟨hi, hget, -⟩
    exact ⟨by simpa [names] using hi, by simpa [names] using hget⟩
  · rintro ⟨hi, hget⟩
    have hi' : i < img.names.length := by simpa [names] using hi
    refine ⟨hi', by simpa [names] using hget, fun j hj hjn => ?_⟩
    have : img.names[j] = img.names[i] := by simp only [names, List.getElem_map] at hjn ⊢; rw [hjn, hget]
    exact absurd ((List.Nodup.getElem_inj_iff hn).mp this) (by omega)

theorem file?_eq_some_iff (hn : img.names.Nodup) {name : String} {f : ImageFile} :
    img.file? name = some f ↔ f ∈ img.files ∧ f.name = name := by
  unfold file?
  rw [List.find?_eq_some_iff_append]
  constructor
  · rintro ⟨hf, as, bs, hsplit, -⟩
    exact ⟨hsplit ▸ List.mem_append_right as List.mem_cons_self, by simpa using hf⟩
  · rintro ⟨hf, rfl⟩
    obtain ⟨as, bs, hsplit⟩ := List.append_of_mem hf
    refine ⟨by simp, as, bs, hsplit, fun g hg => ?_⟩
    -- an earlier file of the same name would repeat it among the names
    have hnd : (as.map ImageFile.name ++ f.name :: bs.map ImageFile.name).Nodup := by
      simpa [names, hsplit] using hn
    have hne : g.name ≠ f.name := fun h =>
      (List.nodup_append.mp hnd).2.2 _ (List.mem_map_of_mem hg) _ List.mem_cons_self h
    simpa using hne

/-! ### The walk

`reach` pops a name; a name already seen is dropped, any other is marked seen and the
imports of its file are pushed. -/

def importsOf (img : Image) (name : String) : List String := (img.file? name).elim [] ImageFile.imports

def Follows (img : Image) (a b : String) : Prop := b ∈ img.importsOf a

def WalkClosed (img : Image) (stack seen : List String) : Prop :=
  ∀ n ∈ seen, ∀ d, img.Follows n d → d ∈ seen ∨ d ∈ stack

def unseenImports (seen : List String) (f : ImageFile) : Nat :=
  if f.name ∈ seen then 0 else f.imports.length

def walkWeight (img : Image) (stack seen : List String) : Nat :=
  stack.length + (img.files.map (unseenImports seen)).sum

theorem unseenImports_cons_le (name : String) (seen : List String) (f : ImageFile) :
    unseenImports (name :: seen) f ≤ unseenImports seen f := by
  unfold unseenImports
  split_ifs <;> simp_all

@[simp] theorem unseenImports_nil : unseenImports [] = fun f => f.imports.length := by
  funext f
  simp [unseenImports]

theorem sum_unseenImports_cons {name : String} {seen : List String} (h : name ∉ seen)
    {files : List ImageFile} {f₀ : ImageFile} (hf₀ : f₀ ∈ files) (hname : f₀.name = name) :
    (files.map (unseenImports (name :: seen))).sum + f₀.imports.length ≤
      (files.map (unseenImports seen)).sum := by
  induction files with
  | nil => cases hf₀
  | cons g files ih =>
    simp only [List.map_cons, List.sum_cons]
    have hrest := List.sum_le_sum fun f (_ : f ∈ files) => unseenImports_cons_le name seen f
    rcases List.mem_cons.mp hf₀ with rfl | hf₀
    · have h0 : unseenImports (name :: seen) f₀ = 0 := by simp [unseenImports, hname]
      have h1 : unseenImports seen f₀ = f₀.imports.length := by simp [unseenImports, hname, h]
      omega
    · have := ih hf₀
      have := unseenImports_cons_le name seen g
      omega

theorem reach_seen {fuel : Nat} {name : String} {stack seen : List String} (h : name ∈ seen) :
    img.reach (fuel + 1) (name :: stack) seen = img.reach fuel stack seen := by
  simp [reach, h]

theorem reach_fresh {fuel : Nat} {name : String} {stack seen : List String} (h : name ∉ seen) :
    img.reach (fuel + 1) (name :: stack) seen =
      img.reach fuel (img.importsOf name ++ stack) (name :: seen) := by
  simp [reach, h, importsOf]

theorem WalkClosed.pop {name : String} {stack seen : List String}
    (hc : img.WalkClosed (name :: stack) seen) (h : name ∈ seen) : img.WalkClosed stack seen := by
  intro n hn d hd
  rcases hc n hn d hd with hs | hs
  · exact .inl hs
  · rcases List.mem_cons.mp hs with rfl | hs
    · exact .inl h
    · exact .inr hs

theorem WalkClosed.push {name : String} {stack seen : List String}
    (hc : img.WalkClosed (name :: stack) seen) :
    img.WalkClosed (img.importsOf name ++ stack) (name :: seen) := by
  intro n hn d hd
  rcases List.mem_cons.mp hn with rfl | hn
  · exact .inr (List.mem_append_left _ hd)
  · rcases hc n hn d hd with hs | hs
    · exact .inl (List.mem_cons_of_mem _ hs)
    · rcases List.mem_cons.mp hs with rfl | hs
      · exact .inl List.mem_cons_self
      · exact .inr (List.mem_append_right _ hs)

/-- From a seen name the walk reaches nothing beyond what is seen or reachable from the stack. -/
theorem WalkClosed.reach {stack seen : List String} (hc : img.WalkClosed stack seen) {n x : String}
    (hn : n ∈ seen) (hr : ReflTransGen img.Follows n x) :
    x ∈ seen ∨ ∃ s ∈ stack, ReflTransGen img.Follows s x := by
  induction hr with
  | refl => exact .inl hn
  | tail _ hyx ih =>
    rcases ih with hy | ⟨s, hs, hsy⟩
    · rcases hc _ hy _ hyx with hx | hx
      · exact .inl hx
      · exact .inr ⟨_, hx, .refl⟩
    · exact .inr ⟨s, hs, hsy.tail hyx⟩

theorem walkWeight_fresh {name : String} {stack seen : List String} (h : name ∉ seen) :
    img.walkWeight (img.importsOf name ++ stack) (name :: seen) < img.walkWeight (name :: stack) seen := by
  have hsum : (img.files.map (unseenImports (name :: seen))).sum + (img.importsOf name).length ≤
      (img.files.map (unseenImports seen)).sum := by
    cases hf : img.file? name with
    | none =>
      simpa [importsOf, hf] using List.sum_le_sum fun f (_ : f ∈ img.files) => unseenImports_cons_le name seen f
    | some f₀ =>
      have hname : f₀.name = name := by simpa using List.find?_some hf
      simpa [importsOf, hf] using sum_unseenImports_cons h (List.mem_of_find?_eq_some hf) hname
  simp only [walkWeight, List.length_append, List.length_cons]
  omega

theorem mem_reach : ∀ (fuel : Nat) (stack seen : List String), img.walkWeight stack seen ≤ fuel →
    img.WalkClosed stack seen → ∀ x, x ∈ img.reach fuel stack seen ↔
      x ∈ seen ∨ ∃ s ∈ stack, ReflTransGen img.Follows s x
  | 0, stack, seen, hw, _, x => by
    -- no fuel is left only when nothing is left to push
    have : stack = [] := List.eq_nil_of_length_eq_zero (by simp only [walkWeight] at hw; omega)
    subst this
    simp [reach]
  | fuel + 1, [], seen, _, _, x => by simp [reach]
  | fuel + 1, name :: stack, seen, hw, hc, x => by
    by_cases hs : name ∈ seen
    · have hw' : img.walkWeight stack seen ≤ fuel := by
        simp only [walkWeight, List.length_cons] at hw ⊢
        omega
      rw [reach_seen hs, mem_reach fuel stack seen hw' (hc.pop hs)]
      constructor
      · rintro (hx | ⟨s, hs', hr⟩)
        · exact .inl hx
        · exact .inr ⟨s, List.mem_cons_of_mem _ hs', hr⟩
      · rintro (hx | ⟨s, hs', hr⟩)
        · exact .inl hx
        · rcases List.mem_cons.mp hs' with rfl | hs'
          · exact (hc.pop hs).reach hs hr
          · exact .inr ⟨s, hs', hr⟩
    · have hw' : img.walkWeight (img.importsOf name ++ stack) (name :: seen) ≤ fuel := by
        have hlt : img.walkWeight (img.importsOf name ++ stack) (name :: seen) <
            img.walkWeight (name :: stack) seen := walkWeight_fresh hs
        omega
      rw [reach_fresh hs, mem_reach fuel _ _ hw' hc.push]
      constructor
      · rintro (hx | ⟨s, hs', hr⟩)
        · rcases List.mem_cons.mp hx with rfl | hx
          · exact .inr ⟨_, List.mem_cons_self, .refl⟩
          · exact .inl hx
        · rcases List.mem_append.mp hs' with hs' | hs'
          · exact .inr ⟨name, List.mem_cons_self, .head hs' hr⟩
          · exact .inr ⟨s, List.mem_cons_of_mem _ hs', hr⟩
      · rintro (hx | ⟨s, hs', hr⟩)
        · exact .inl (List.mem_cons_of_mem _ hx)
        · rcases List.mem_cons.mp hs' with rfl | hs'
          · -- a path from the visited name is the name itself or goes through an import
            rcases hr.cases_head with rfl | ⟨d, hd, hr⟩
            · exact .inl List.mem_cons_self
            · exact .inr ⟨d, List.mem_append_left _ hd, hr⟩
          · exact .inr ⟨s, List.mem_append_right _ hs', hr⟩

theorem foldl_add_imports (files : List ImageFile) (k : Nat) :
    files.foldl (fun n f => n + f.imports.length) k = k + (files.map fun f => f.imports.length).sum := by
  induction files generalizing k with
  | nil => simp
  | cons f files ih =>
    rw [List.foldl_cons, ih]
    simp only [List.map_cons, List.sum_cons]
    omega

/-- The closure of the targets is everything reachable from them. -/
theorem mem_closure {targets : List String} {x : String} :
    x ∈ img.closure targets ↔ ∃ t ∈ targets, ReflTransGen img.Follows t x := by
  have hw : img.walkWeight targets [] ≤ targets.length + img.files.foldl (fun n f => n + f.imports.length) 0 + 1 := by
    simp [walkWeight, foldl_add_imports]
  have hc : img.WalkClosed targets [] := fun n hn => by cases hn
  rw [closure, mem_reach _ targets [] hw hc]
  simp

/-! ### Import edges

In an image whose names are distinct the walk follows exactly the import edges: the
file `file?` finds for a name is the only file of that name. -/

def ImportEdge (img : Image) (a b : String) : Prop := ∃ f ∈ img.files, f.name = a ∧ b ∈ f.imports

theorem follows_iff_importEdge (hn : img.names.Nodup) {a b : String} :
    img.Follows a b ↔ img.ImportEdge a b := by
  unfold Follows importsOf ImportEdge
  cases hf : img.file? a with
  | none =>
    -- no file is named `a`, or `find?` would have met it
    have hnone := List.find?_eq_none.mp hf
    simp only [Option.elim_none, List.not_mem_nil, false_iff, not_exists, not_and]
    intro f hf' hname _
    exact hnone f hf' (by simp [hname])
  | some f =>
    obtain ⟨hf', hname⟩ := (file?_eq_some_iff hn).mp hf
    simp only [Option.elim_some]
    constructor
    · exact fun hb => ⟨f, hf', hname, hb⟩
    · rintro ⟨g, hg, rfl, hb⟩
      have : img.file? g.name = some g := (file?_eq_some_iff hn).mpr ⟨hg, rfl⟩
      rw [hf] at this
      cases this
      exact hb

theorem follows_eq_importEdge (hn : img.names.Nodup) : img.Follows = img.ImportEdge := by
  funext a b
  exact propext (follows_iff_importEdge hn)

/-! ### The requested names -/

def requestKey (raw : String) : String := (Path.normalize raw).toOption.getD raw

def Requested (img : Image) (names : List String) (t : String) : Prop :=
  t ∈ img.names ∧ ∃ n ∈ names, requestKey n = t

theorem mem_insertName {x name : String} : ∀ {l : List String}, x ∈ insertName name l ↔ x = name ∨ x ∈ l
  | [] => by simp [insertName]
  | n :: rest => by
    unfold insertName
    split_ifs with hlt heq
    · simp
    · subst heq
      simp
    · simp only [List.mem_cons, mem_insertName]
      tauto

theorem targetsOf_cons (allowNotFound : Bool) (raw : String) (rest : List String) :
    img.targetsOf allowNotFound (raw :: rest) =
      if requestKey raw ∈ img.names then (img.targetsOf allowNotFound rest).map (insertName (requestKey raw))
      else if allowNotFound then img.targetsOf allowNotFound rest
      else .error (.notPresent (requestKey raw)) := by
  rw [targetsOf]
  cases hn : Path.normalize raw <;>
    simp only [requestKey, hn, Except.toOption, Option.getD_some, Option.getD_none,
      ← position?_isSome_iff] <;>
    cases img.targetsOf allowNotFound rest <;> rfl

theorem targetsOf_ok {allowNotFound : Bool} :
    ∀ {names : List String}, (allowNotFound = true ∨ ∀ n ∈ names, requestKey n ∈ img.names) →
      ∃ ts, img.targetsOf allowNotFound names = .ok ts ∧ ∀ t, t ∈ ts ↔ img.Requested names t
  | [], _ => ⟨[], rfl, fun t => by simp [Requested]⟩
  | raw :: rest, h => by
    have hrest : allowNotFound = true ∨ ∀ n ∈ rest, requestKey n ∈ img.names :=
      h.imp_right fun h n hn => h n (List.mem_cons_of_mem _ hn)
    obtain ⟨ts, hts, hmem⟩ := targetsOf_ok hrest
    rw [targetsOf_cons]
    by_cases hk : requestKey raw ∈ img.names
    · refine ⟨insertName (requestKey raw) ts, by simp [hk, hts, Except.map], fun t => ?_⟩
      rw [mem_insertName, hmem]
      constructor
      · rintro (rfl | ⟨ht, n, hn, rfl⟩)
        · exact ⟨hk, raw, List.mem_cons_self, rfl⟩
        · exact ⟨ht, n, List.mem_cons_of_mem _ hn, rfl⟩
      · rintro ⟨ht, n, hn, rfl⟩
        rcases List.mem_cons.mp hn with rfl | hn
        · exact .inl rfl
        · exact .inr ⟨ht, n, hn, rfl⟩
    · -- a missing name is skipped, which only an allowing request does
      have ha : allowNotFound = true := h.resolve_right fun h' => hk (h' raw List.mem_cons_self)
      subst ha
      refine ⟨ts, by simp [hk, hts], fun t => ?_⟩
      rw [hmem]
      constructor
      · rintro ⟨ht, n, hn, rfl⟩
        exact ⟨ht, n, List.mem_cons_of_mem _ hn, rfl⟩
      · rintro ⟨ht, n, hn, rfl⟩
        rcases List.mem_cons.mp hn with rfl | hn
        · exact absurd ht hk
        · exact ⟨ht, n, hn, rfl⟩

theorem targetsOf_first_missing {raw : String} (hraw : requestKey raw ∉ img.names) (post : List String) :
    ∀ {pre : List String}, (∀ n ∈ pre, requestKey n ∈ img.names) →
      img.targetsOf false (pre ++ raw :: post) = .error (.notPresent (requestKey raw))
  | [], _ => by simp [targetsOf_cons, hraw]
  | n :: pre, hpre => by
    have hn : requestKey n ∈ img.names := hpre n List.mem_cons_self
    rw [List.cons_append, targetsOf_cons, if_pos hn,
      targetsOf_first_missing hraw post fun m hm => hpre m (List.mem_cons_of_mem _ hm)]
    rfl

theorem targetsOf_error {allowNotFound : Bool} {e : ImageError} :
    ∀ {names : List String}, img.targetsOf allowNotFound names = .error e → ∃ n, e = .notPresent n
  | [], h => by cases h
  | raw :: rest, h => by
    rw [targetsOf_cons] at h
    split_ifs at h with hk ha
    · cases hr : img.targetsOf allowNotFound rest with
      | error e' =>
        rw [hr] at h
        cases h
        exact targetsOf_error hr
      | ok ts =>
        rw [hr] at h
        cases h
    · exact targetsOf_error h
    · cases h
      exact ⟨_, rfl⟩

/-! ### The kept files form a valid image

`Valid` asks of each import to name an earlier file or, in an open image, no file.
Dropping files whose names no kept file imports keeps this, and so does changing
the marks. -/

theorem valid_iff_split {closed : Bool} {files : List ImageFile} :
    Valid closed files ↔ (∀ f ∈ files, Path.isNormalized f.name = true) ∧
      (files.map ImageFile.name).Nodup ∧
      ∀ l₁ f l₂, files = l₁ ++ f :: l₂ → ∀ dep ∈ f.imports,
        dep ∈ l₁.map ImageFile.name ∨ (dep ∉ files.map ImageFile.name ∧ closed = false) := by
  refine ⟨fun ⟨hn, hd, hi⟩ => ⟨hn, hd, fun l₁ f l₂ hs dep hdep => ?_⟩,
    fun ⟨hn, hd, hs⟩ => ⟨hn, hd, fun k hk dep hdep => ?_⟩⟩
  · have hk : l₁.length < files.length := by simp [hs]
    have hget : files[l₁.length] = f := by simp [hs]
    have htake : (files.map ImageFile.name).take l₁.length = l₁.map ImageFile.name := by simp [hs]
    rw [← htake]
    exact hi _ hk dep (hget ▸ hdep)
  · have hsplit : files = files.take k ++ files[k] :: files.drop (k + 1) := by
      rw [← List.drop_eq_getElem_cons hk, List.take_append_drop]
    rw [← List.map_take]
    exact hs _ _ _ hsplit dep hdep

theorem Valid.map_marks {closed : Bool} {files : List ImageFile} {m : ImageFile → ImageFile}
    (hm : ∀ f, (m f).descriptor = f.descriptor) (hv : Valid closed files) : Valid closed (files.map m) := by
  have hname : ∀ f, (m f).name = f.name := fun f => by simp [ImageFile.name, hm]
  have himports : ∀ f, (m f).imports = f.imports := fun f => by simp [ImageFile.imports, hm]
  have hnames : (files.map m).map ImageFile.name = files.map ImageFile.name := by
    simp [List.map_map, Function.comp_def, hname]
  obtain ⟨hn, hd, hi⟩ := hv
  refine ⟨fun g hg => ?_, hnames ▸ hd, fun k hk dep hdep => ?_⟩
  · obtain ⟨f, hf, rfl⟩ := List.mem_map.mp hg
    exact hname f ▸ hn f hf
  · rw [hnames]
    have hk' : k < files.length := by simpa using hk
    simp only [List.getElem_map, himports] at hdep
    exact hi k hk' dep hdep

theorem Valid.filter {closed : Bool} {files : List ImageFile} {p : ImageFile → Bool}
    (hv : Valid closed files)
    (hp : ∀ f ∈ files, p f = true → ∀ dep ∈ f.imports, ∀ g ∈ files, g.name = dep → p g = true) :
    Valid closed (files.filter p) := by
  obtain ⟨hn, hd, hs⟩ := valid_iff_split.mp hv
  refine valid_iff_split.mpr ⟨fun f hf => hn f (List.mem_filter.mp hf).1,
    hd.sublist ((List.filter_sublist).map _), fun l₁ f l₂ hsplit dep hdep => ?_⟩
  -- place the kept file back among all the files: dropped ones stand between the kept ones
  obtain ⟨L₁, L₂, rfl, hL₁, hL₂⟩ := List.filter_eq_append_iff.mp hsplit
  obtain ⟨M₁, M₂, rfl, hM₁, hf, -⟩ := List.filter_eq_cons_iff.mp hL₂
  have hall : L₁ ++ (M₁ ++ f :: M₂) = L₁ ++ M₁ ++ f :: M₂ := by simp
  rcases hs (L₁ ++ M₁) f M₂ hall dep hdep with hin | ⟨hout, hopen⟩
  · left
    obtain ⟨g, hg, rfl⟩ := List.mem_map.mp hin
    have hgall : g ∈ L₁ ++ (M₁ ++ f :: M₂) := by
      rcases List.mem_append.mp hg with hg | hg <;> simp [hg]
    have hgp : p g = true := hp f (by simp) hf _ hdep g hgall rfl
    have hgL₁ : g ∈ L₁ := by
      rcases List.mem_append.mp hg with hg | hg
      · exact hg
      · exact absurd hgp (hM₁ g hg)
    rw [← hL₁]
    exact List.mem_map_of_mem (List.mem_filter.mpr ⟨hgL₁, hgp⟩)
  · right
    refine ⟨fun hin => hout ?_, hopen⟩
    obtain ⟨g, hg, rfl⟩ := List.mem_map.mp hin
    exact List.mem_map_of_mem (List.mem_filter.mp hg).1

theorem Valid.closed_of_isClosed {files : List ImageFile} (hv : Valid false files)
    (hc : (⟨files⟩ : Image).isClosed = true) : Valid true files := by
  obtain ⟨hn, hd, hi⟩ := hv
  refine ⟨hn, hd, fun k hk dep hdep => ?_⟩
  rcases hi k hk dep hdep with hin | ⟨hout, -⟩
  · exact .inl hin
  · exfalso
    unfold Image.isClosed at hc
    have := List.all_eq_true.mp (List.all_eq_true.mp hc _ (List.getElem_mem hk)) dep hdep
    exact hout (position?_isSome_iff.mp this)

theorem Valid.isClosed_flag {files : List ImageFile} (hv : Valid false files) :
    Valid (⟨files⟩ : Image).isClosed files := by
  cases hc : (⟨files⟩ : Image).isClosed
  · exact hv
  · exact hv.closed_of_isClosed hc

/-! ### Selecting names -/

def Selected (img : Image) (names : List String) (x : String) : Prop :=
  ∃ t, img.Requested names t ∧ ReflTransGen img.ImportEdge t x

open Classical in
/-- What selecting `names` gives: the selected files in image order, each an import unless it
was requested, with descriptors and version marks as they were. -/
noncomputable def selection (img : Image) (names : List String) : Image :=
  ⟨(img.files.filter fun f => img.Selected names f.name).map fun f =>
    { f with isImport := ¬ img.Requested names f.name }⟩

def keep (img : Image) (ts : List String) : List ImageFile :=
  (img.files.filter fun f => (img.closure ts).contains f.name).map fun f =>
    { f with isImport := !ts.contains f.name }

theorem withNames_of_targetsOf {allowNotFound : Bool} {names ts : List String}
    (h : img.targetsOf allowNotFound names = .ok ts) :
    img.withNames allowNotFound names = validate img.isClosed (img.keep ts) := by
  rw [withNames, h]
  rfl

theorem valid_keep (hI : Valid false img.files) (ts : List String) : Valid img.isClosed (img.keep ts) := by
  refine Valid.map_marks (fun f => rfl) (hI.isClosed_flag.filter fun f hf hp dep hdep g _ hname => ?_)
  obtain ⟨t, ht, hr⟩ := mem_closure.mp (List.contains_iff_mem.mp hp)
  have hedge : img.Follows f.name dep := (follows_iff_importEdge hI.2.1).mpr ⟨f, hf, rfl, hdep⟩
  rw [hname]
  exact List.contains_iff_mem.mpr (mem_closure.mpr ⟨t, ht, hr.tail hedge⟩)

theorem keep_eq_selection (hn : img.names.Nodup) {names ts : List String}
    (hts : ∀ t, t ∈ ts ↔ img.Requested names t) : img.keep ts = (img.selection names).files := by
  classical
  have hsel : ∀ f ∈ img.files, (img.closure ts).contains f.name = decide (img.Selected names f.name) := by
    intro f _
    rw [Bool.eq_iff_iff, List.contains_iff_mem, decide_eq_true_iff, mem_closure,
      follows_eq_importEdge hn]
    constructor
    · rintro ⟨t, ht, hr⟩
      exact ⟨t, (hts t).mp ht, hr⟩
    · rintro ⟨t, ht, hr⟩
      exact ⟨t, (hts t).mpr ht, hr⟩
  have hreq : ∀ f : ImageFile, (!ts.contains f.name) = decide ¬ img.Requested names f.name := by
    intro f
    rw [Bool.eq_iff_iff, Bool.not_eq_true', decide_eq_true_iff, Bool.eq_false_iff, ne_eq,
      List.contains_iff_mem, hts]
  unfold keep selection
  rw [List.filter_congr hsel]
  exact List.map_congr_left fun f _ => by rw [hreq]

/-- Selecting names from a valid image. A strict request fails at its first name, in
request order, that is not in the image once normalized, and reports that name. Any other
request gives the files reached by imports from the requested files, in image order and
otherwise unchanged, marked as imports exactly when not requested. -/
theorem withNames_eq_selection (hI : Valid false img.files) (names : List String) :
    (∀ pre raw post, names = pre ++ raw :: post → (∀ n ∈ pre, requestKey n ∈ img.names) →
        requestKey raw ∉ img.names → img.withNames false names = .error (.notPresent (requestKey raw))) ∧
      ∀ allowNotFound : Bool, (allowNotFound = true ∨ ∀ n ∈ names, requestKey n ∈ img.names) →
        img.withNames allowNotFound names = .ok (img.selection names) := by
  refine ⟨fun pre raw post hsplit hpre hraw => ?_, fun allowNotFound h => ?_⟩
  · rw [withNames, hsplit, targetsOf_first_missing hraw post hpre]
    rfl
  · obtain ⟨ts, hts, hmem⟩ := targetsOf_ok h
    rw [withNames_of_targetsOf hts, validate_eq_ok.mpr ⟨valid_keep hI ts, rfl⟩,
      keep_eq_selection hI.2.1 hmem]

def sampleImage : Image := ⟨[
  ⟨{ name := some "google/protobuf/any.proto" }, true, false⟩,
  ⟨{ name := some "pkg/a.proto", dependency := ["google/protobuf/any.proto"] }, false, false⟩,
  ⟨{ name := some "pkg/b.proto", dependency := ["pkg/a.proto"] }, false, false⟩,
  ⟨{ name := some "pkg/c.proto" }, false, false⟩,
  ⟨{ name := some "pkg/d.proto", dependency := ["pkg/b.proto", "pkg/c.proto"] }, false, false⟩]⟩

theorem sampleImage_valid : Valid false sampleImage.files := by
  refine ⟨?_, by decide, by decide⟩
  simp [sampleImage, ImageFile.name, Path.isNormalized_iff, Path.Normal, Path.splitSlash,
    Path.ProperSegment]

theorem withNames_sampleImage_selection :
    Valid false sampleImage.files ∧
      sampleImage.withNames true ["pkg/b.proto", "pkg/../pkg/c.proto", "pkg/missing.proto"] =
        .ok (sampleImage.selection ["pkg/b.proto", "pkg/../pkg/c.proto", "pkg/missing.proto"]) :=
  ⟨sampleImage_valid, (withNames_eq_selection sampleImage_valid _).2 true (.inl rfl)⟩

end Image

end ProtoSchema
