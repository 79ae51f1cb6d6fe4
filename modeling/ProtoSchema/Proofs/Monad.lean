import Mathlib.Data.List.Forall2

/-!
The reasoning kit for the model's `Except` computations. A successful
computation is taken apart one bind at a time, and each list traversal gets
one lemma saying what a successful run of it produced, so that the proofs
about the build never unfold a `do` block by hand.
-/

namespace ProtoSchema

namespace Except

variable {ε α β : Type}

theorem bind_eq_ok {x : Except ε α} {f : α → Except ε β} {b : β} :
    x >>= f = .ok b ↔ ∃ a, x = .ok a ∧ f a = .ok b := by
  cases x <;> simp [bind, Except.bind]

theorem eq_ok_iff_toOption {x : Except ε α} {a : α} : x = .ok a ↔ x.toOption = some a := by
  cases x <;> simp [Except.toOption]

theorem mapError_eq_ok {ε' : Type} {x : Except ε α} {f : ε → ε'} {a : α} :
    x.mapError f = .ok a ↔ x = .ok a := by
  cases x <;> simp [Except.mapError]

theorem bind_eq_error {x : Except ε α} {f : α → Except ε β} {e : ε} :
    x >>= f = .error e ↔ x = .error e ∨ ∃ a, x = .ok a ∧ f a = .error e := by
  cases x <;> simp [bind, Except.bind]

theorem bind_unit_eq_ok {x : Except ε Unit} {f : Unit → Except ε β} {b : β} :
    x >>= f = .ok b ↔ x = .ok () ∧ f () = .ok b := by
  rw [bind_eq_ok]
  exact ⟨fun ⟨(), h⟩ => h, fun h => ⟨(), h⟩⟩

theorem mem_flatMapM {f : α → Except ε (List β)} :
    ∀ {xs : List α} {ys : List β}, xs.flatMapM f = .ok ys →
      ∀ {y : β}, y ∈ ys → ∃ x ∈ xs, ∃ zs, f x = .ok zs ∧ y ∈ zs
  | [], ys, h, y, hy => by
      simp only [List.flatMapM_nil] at h
      cases h
      simp at hy
  | x :: rest, ys, h, y, hy => by
      simp only [List.flatMapM_cons, bind_eq_ok] at h
      obtain ⟨zs, hzs, rs, hrs, h⟩ := h
      cases h
      rcases List.mem_append.mp hy with hy | hy
      · exact ⟨x, List.mem_cons_self, zs, hzs, hy⟩
      · obtain ⟨x', hx', zs', h', hy'⟩ := mem_flatMapM hrs hy
        exact ⟨x', List.mem_cons_of_mem _ hx', zs', h', hy'⟩

theorem flatMapM_mem_ok {f : α → Except ε (List β)} :
    ∀ {xs : List α} {ys : List β}, xs.flatMapM f = .ok ys →
      ∀ {x : α}, x ∈ xs → ∃ zs, f x = .ok zs ∧ ∀ y ∈ zs, y ∈ ys
  | [], _, _, _, hx => absurd hx List.not_mem_nil
  | x' :: rest, ys, h, x, hx => by
      simp only [List.flatMapM_cons, bind_eq_ok] at h
      obtain ⟨zs, hzs, rs, hrs, h⟩ := h
      cases h
      rcases List.mem_cons.mp hx with rfl | hx
      · exact ⟨zs, hzs, fun y hy => List.mem_append_left _ hy⟩
      · obtain ⟨zs', hzs', hsub⟩ := flatMapM_mem_ok hrs hx
        exact ⟨zs', hzs', fun y hy => List.mem_append_right _ (hsub y hy)⟩

theorem mapM_mem_ok {f : α → Except ε β} :
    ∀ {xs : List α} {ys : List β}, xs.mapM f = .ok ys → ∀ {y : β}, y ∈ ys → ∃ x ∈ xs, f x = .ok y
  | [], ys, h, y, hy => by
      simp only [List.mapM_nil] at h
      cases h
      cases hy
  | x :: rest, ys, h, y, hy => by
      simp only [List.mapM_cons, bind_eq_ok] at h
      obtain ⟨y', hy', ys', hys', h⟩ := h
      cases h
      rcases List.mem_cons.mp hy with rfl | hy
      · exact ⟨x, List.mem_cons_self, hy'⟩
      · obtain ⟨x', hx', h'⟩ := mapM_mem_ok hys' hy
        exact ⟨x', List.mem_cons_of_mem _ hx', h'⟩

theorem mapM_forall₂ {f : α → Except ε β} :
    ∀ {xs : List α} {ys : List β}, xs.mapM f = .ok ys → List.Forall₂ (fun x y => f x = .ok y) xs ys
  | [], ys, h => by
      simp only [List.mapM_nil] at h
      cases h
      exact .nil
  | x :: rest, ys, h => by
      simp only [List.mapM_cons, bind_eq_ok] at h
      obtain ⟨y, hy, ys', hys', h⟩ := h
      cases h
      exact .cons hy (mapM_forall₂ hys')

theorem mapM_of_forall₂ {f : α → Except ε β} {xs : List α} {ys : List β}
    (h : List.Forall₂ (fun x y => f x = .ok y) xs ys) : xs.mapM f = .ok ys := by
  induction h with
  | nil => rfl
  | cons hxy _ ih =>
    simp only [List.mapM_cons, hxy, ih]
    rfl

theorem mapM_eq_error {f : α → Except ε β} :
    ∀ {xs : List α} {e : ε}, xs.mapM f = .error e → ∃ x ∈ xs, f x = .error e
  | [], e, h => by simp [pure, Except.pure] at h
  | x :: rest, e, h => by
    simp only [List.mapM_cons, bind_eq_error] at h
    rcases h with h | ⟨y, -, h | ⟨ys, -, h⟩⟩
    · exact ⟨x, List.mem_cons_self, h⟩
    · obtain ⟨x', hx', h'⟩ := mapM_eq_error h
      exact ⟨x', List.mem_cons_of_mem _ hx', h'⟩
    · simp [pure, Except.pure] at h

theorem forM_eq_ok {f : α → Except ε Unit} :
    ∀ {xs : List α}, forM xs f = .ok () ↔ ∀ x ∈ xs, f x = .ok ()
  | [] => by simp [pure, Except.pure]
  | x :: rest => by
    rw [List.forM_cons, bind_unit_eq_ok, forM_eq_ok]
    simp

end Except

end ProtoSchema
