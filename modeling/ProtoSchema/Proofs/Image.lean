import ProtoSchema.Image.Basic
import ProtoSchema.Build.Graph
import ProtoSchema.Proofs.Path
import ProtoSchema.Proofs.Monad

/-!
When files make an image. `Valid` says what the image check asks of a list of
files: normalized names, none twice, and every import naming a file before it
(or, in an open image, no file of the image); `validate_eq_ok` shows that the
check passes exactly then. In a valid closed image every import is present.
-/

namespace ProtoSchema

namespace Image

theorem checkName_eq_ok {seen : List String} {name : String} :
    checkName seen name = .ok () ↔ Path.isNormalized name = true ∧ name ∉ seen := by
  have hnorm : Path.isNormalized name = true ↔ Path.normalize name = .ok name := by
    unfold Path.isNormalized
    cases Path.normalize name <;> simp
  rw [hnorm]
  unfold checkName
  by_cases he : name.isEmpty = true
  · -- the empty name is never normalized
    have hempty : Path.normalize name ≠ .ok name := fun h =>
      Path.ne_empty_of_isNormalized (hnorm.mpr h) (String.isEmpty_iff.mp he)
    simp [he, hempty, throw, throwThe, MonadExceptOf.throw, bind, Except.bind]
  · cases hn : Path.normalize name with
    | error e => simp [he, throw, throwThe, MonadExceptOf.throw, bind, Except.bind]
    | ok n =>
      by_cases hnn : n = name
      · subst hnn
        by_cases hs : n ∈ seen
        · simp [he, hs, throw, throwThe, MonadExceptOf.throw]
        · simp [he, hs, pure, Except.pure]
      · simp [he, hnn, throw, throwThe, MonadExceptOf.throw, bind, Except.bind]

theorem checkNames_eq_ok : ∀ {seen names : List String},
    checkNames seen names = .ok () ↔
      (∀ n ∈ names, Path.isNormalized n = true) ∧ names.Nodup ∧ ∀ n ∈ names, n ∉ seen
  | _, [] => by simp [checkNames]
  | seen, name :: rest => by
    rw [checkNames, Except.bind_unit_eq_ok, checkName_eq_ok, checkNames_eq_ok]
    simp only [List.mem_cons, forall_eq_or_imp, List.nodup_cons, List.mem_append,
      List.mem_nil_iff, or_false, not_or]
    constructor
    · rintro ⟨⟨hn, hs⟩, hrn, hnd, hrs⟩
      exact ⟨⟨hn, hrn⟩, ⟨fun h => (hrs name h).2 rfl, hnd⟩, hs, fun m hm => (hrs m hm).1⟩
    · rintro ⟨⟨hn, hrn⟩, ⟨hnr, hnd⟩, hs, hrs⟩
      exact ⟨⟨hn, hs⟩, hrn, hnd, fun m hm => ⟨hrs m hm, fun h => hnr (h ▸ hm)⟩⟩

theorem idxOf?_lt_iff {l : List String} {a : String} {j : Nat} (h : l.idxOf? a = some j) (k : Nat) :
    j < k ↔ a ∈ l.take k := by
  obtain ⟨hj, hget, hfirst⟩ := List.idxOf?_eq_some_iff.mp h
  rw [List.mem_take_iff_getElem]
  constructor
  · intro hjk
    exact ⟨j, by omega, hget⟩
  · rintro ⟨j', hj', hget'⟩
    have : ¬ j' < j := fun hlt => hfirst j' hlt hget'
    omega

theorem checkImports_eq_ok {names : List String} {closed : Bool} {i : Nat} {f : ImageFile} :
    checkImports names closed i f = .ok () ↔
      ∀ dep ∈ f.imports, dep ∈ names.take i ∨ (dep ∉ names ∧ closed = false) := by
  unfold checkImports
  rw [List.forM_eq_forM, Except.forM_eq_ok]
  refine forall₂_congr fun dep _ => ?_
  cases h : names.idxOf? dep with
  | some j =>
    have hmem : dep ∈ names := List.isSome_idxOf?.mp (by simp [h])
    rw [← idxOf?_lt_iff h i]
    by_cases hj : j < i <;> simp [hj, hmem]
  | none =>
    have hmem : dep ∉ names := List.idxOf?_eq_none_iff.mp h
    have htake : dep ∉ names.take i := fun hm => hmem (List.mem_of_mem_take hm)
    cases closed <;> simp [hmem, htake]

/-- What `validate` asks of a list of files: normalized names, no name twice, and
every import naming a file before it or, in an open image, no file of the image. -/
def Valid (closed : Bool) (files : List ImageFile) : Prop :=
  (∀ f ∈ files, Path.isNormalized f.name = true) ∧ (files.map ImageFile.name).Nodup ∧
    ∀ k (hk : k < files.length), ∀ dep ∈ files[k].imports,
      dep ∈ (files.map ImageFile.name).take k ∨ (dep ∉ files.map ImageFile.name ∧ closed = false)

theorem validate_eq_ok {closed : Bool} {files : List ImageFile} {img : Image} :
    validate closed files = .ok img ↔ Valid closed files ∧ img = ⟨files⟩ := by
  unfold validate
  rw [Except.bind_unit_eq_ok, checkNames_eq_ok, Except.bind_unit_eq_ok, List.forM_eq_forM,
    Except.forM_eq_ok]
  simp only [Prod.forall, List.mem_zipIdx_iff_getElem?, checkImports_eq_ok]
  have hidx {P : ImageFile → Nat → Prop} :
      (∀ a b, files[b]? = some a → P a b) ↔ ∀ b (hb : b < files.length), P files[b] b :=
    ⟨fun h b hb => h _ b (List.getElem?_eq_getElem hb), fun h a b hab => by
      obtain ⟨hb, rfl⟩ := List.getElem?_eq_some_iff.mp hab
      exact h b hb⟩
  have hpure : (pure ⟨files⟩ : Except ImageError Image) = .ok img ↔ img = ⟨files⟩ :=
    ⟨fun h => (Except.ok.inj h).symm, fun h => h ▸ rfl⟩
  rw [hidx, hpure]
  simp only [Valid, List.forall_mem_map, List.not_mem_nil, not_false_eq_true, implies_true, and_true,
    and_assoc]

theorem valid_of_before {files : List ImageFile}
    (hnorm : ∀ f ∈ files, Path.isNormalized f.name = true) (hnodup : (files.map ImageFile.name).Nodup)
    (hbefore : ∀ l₁ f l₂, files = l₁ ++ f :: l₂ → ∀ dep ∈ f.imports, dep ∈ l₁.map ImageFile.name) :
    Valid true files := by
  refine ⟨hnorm, hnodup, fun k hk dep hdep => Or.inl ?_⟩
  have hsplit : files = files.take k ++ files[k] :: files.drop (k + 1) := by
    rw [← List.drop_eq_getElem_cons hk, List.take_append_drop]
  rw [← List.map_take]
  exact hbefore _ _ _ hsplit dep hdep

theorem Valid.import_lt {files : List ImageFile} (h : Valid true files) {k : Nat}
    (hk : k < files.length) {dep : String} (hdep : dep ∈ files[k].imports) :
    ∃ j < k, (files.map ImageFile.name)[j]? = some dep := by
  rcases h.2.2 k hk dep hdep with hin | ⟨-, hopen⟩
  · obtain ⟨j, hj, hget⟩ := List.mem_take_iff_getElem.mp hin
    have hjl : j < (files.map ImageFile.name).length := by omega
    exact ⟨j, by omega, by rw [List.getElem?_eq_getElem hjl, hget]⟩
  · cases hopen

theorem Valid.isClosed {files : List ImageFile} (h : Valid true files) :
    (⟨files⟩ : Image).isClosed = true := by
  unfold Image.isClosed position? names
  simp only [List.all_eq_true, List.isSome_idxOf?]
  intro f hf dep hdep
  obtain ⟨k, hk, rfl⟩ := List.getElem_of_mem hf
  obtain ⟨j, -, hj⟩ := h.import_lt hk hdep
  exact List.mem_of_getElem? hj

end Image

end ProtoSchema
