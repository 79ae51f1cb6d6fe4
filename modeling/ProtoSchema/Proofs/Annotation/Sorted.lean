import Mathlib
import ProtoSchema.Annotation

/-!
The order of reported annotations. `sortAndDedup` sorts stably with `cmp` and then drops
each annotation equal to the one before it. `cmp` is the lexicographic comparison of a key,
`sortKey`: path, start line, start column, message, end line, end column and kind
(`compares_sortKey`). So the result is sorted by that key, holds exactly the annotations it
was given, and has no two equal neighbours.

The key leaves out the severity. Two annotations that differ in severity alone compare
equal and keep the order they came in, and a repeat separated from its twin by such an
annotation is no neighbour of it and stays (`sortAndDedup_keeps_repeat`). Where annotations
of one key have one severity, the key determines the annotation, neighbours have strictly
increasing keys, and no annotation is left twice (`sortAndDedup_sorted_distinct`).
-/

namespace ProtoSchema

namespace Annotation

/-! ### The comparison is the order of the key -/

theorem compares_compare_nat (a b : Nat) : (compare a b).Compares a b := by
  cases h : compare a b
  · exact Nat.compare_eq_lt.mp h
  · exact Nat.compare_eq_eq.mp h
  · exact Nat.compare_eq_gt.mp h

theorem compares_then {α β : Type} [LinearOrder α] [LinearOrder β] {o₁ o₂ : Ordering}
    {a₁ a₂ : α} {b₁ b₂ : β} (h₁ : o₁.Compares a₁ a₂) (h₂ : o₂.Compares b₁ b₂) :
    (o₁.then o₂).Compares (toLex (a₁, b₁)) (toLex (a₂, b₂)) := by
  cases o₁ <;> cases o₂ <;> simp_all [Ordering.Compares, Prod.Lex.toLex_lt_toLex]

theorem compares_cmpChars (xs : List Char) : ∀ ys : List Char, (cmpChars xs ys).Compares xs ys := by
  induction xs with
  | nil =>
    intro ys
    cases ys with
    | nil => exact rfl
    | cons d ds => exact List.nil_lt_cons d ds
  | cons c cs ih =>
    intro ys
    cases ys with
    | nil => exact List.nil_lt_cons c cs
    | cons d ds =>
      have hlt {x y : Char} (h : x.toNat < y.toNat) : x < y := by
        rw [Char.lt_def, UInt32.lt_iff_toNat_lt]
        exact h
      unfold cmpChars
      have hc := compares_compare_nat c.toNat d.toNat
      cases hcd : compare c.toNat d.toNat <;> rw [hcd] at hc
      · exact List.cons_lt_cons_iff.mpr (.inl (hlt hc))
      · -- equal first characters: the rest decides
        obtain rfl := Char.toNat_inj.mp hc
        have hrest := ih ds
        cases hr : cmpChars cs ds <;> rw [hr] at hrest
        · exact List.cons_lt_cons_iff.mpr (.inr ⟨rfl, hrest⟩)
        · exact congrArg (c :: ·) hrest
        · exact List.cons_lt_cons_iff.mpr (.inr ⟨rfl, hrest⟩)
      · exact List.cons_lt_cons_iff.mpr (.inl (hlt hc))

theorem compares_cmpStr (a b : String) : (cmpStr a b).Compares a b := by
  have h := compares_cmpChars a.toList b.toList
  unfold cmpStr
  cases hc : cmpChars a.toList b.toList <;> rw [hc] at h
  · exact String.lt_iff_toList_lt.mpr h
  · exact String.toList_inj.mp h
  · exact String.lt_iff_toList_lt.mpr h

/-- The key annotations are sorted by: path, start line, start column, message, end line,
end column and kind, compared in that order. -/
def sortKey (a : Annotation) : String ×ₗ Nat ×ₗ Nat ×ₗ String ×ₗ Nat ×ₗ Nat ×ₗ Nat :=
  toLex (a.path, toLex (a.startLine, toLex (a.startColumn, toLex (a.message,
    toLex (a.endLine, toLex (a.endColumn, a.kind.rank))))))

/-- `cmp` compares the keys of two annotations. -/
theorem compares_sortKey (a b : Annotation) : (cmp a b).Compares a.sortKey b.sortKey :=
  compares_then (compares_cmpStr _ _) <| compares_then (compares_compare_nat _ _) <|
    compares_then (compares_compare_nat _ _) <| compares_then (compares_cmpStr _ _) <|
    compares_then (compares_compare_nat _ _) <|
    compares_then (compares_compare_nat _ _) (compares_compare_nat _ _)

theorem eq_of_sortKey_eq {a b : Annotation} (hk : a.sortKey = b.sortKey)
    (hs : a.severity = b.severity) : a = b := by
  obtain ⟨hp, hl, hc, hm, hel, hec, hr⟩ :
      a.path = b.path ∧ a.startLine = b.startLine ∧ a.startColumn = b.startColumn ∧
        a.message = b.message ∧ a.endLine = b.endLine ∧ a.endColumn = b.endColumn ∧
        a.kind.rank = b.kind.rank := by
    simpa [sortKey] using hk
  have hkind : a.kind = b.kind := by
    cases ha : a.kind <;> cases hb : b.kind <;> simp_all [AnnotationKind.rank]
  cases a
  cases b
  simp_all

/-! ### Sorting -/

theorem cmp_ne_gt_iff {a b : Annotation} : (cmp a b != .gt) = true ↔ a.sortKey ≤ b.sortKey := by
  simpa using (compares_sortKey a b).ne_gt

theorem pairwise_mergeSort_cmp (xs : List Annotation) :
    (xs.mergeSort fun a b => cmp a b != .gt).Pairwise fun a b => a.sortKey ≤ b.sortKey := by
  have htrans : ∀ a b c : Annotation, (cmp a b != .gt) = true → (cmp b c != .gt) = true →
      (cmp a c != .gt) = true := fun a b c hab hbc =>
    cmp_ne_gt_iff.mpr (le_trans (cmp_ne_gt_iff.mp hab) (cmp_ne_gt_iff.mp hbc))
  have htotal : ∀ a b : Annotation, ((cmp a b != .gt) || (cmp b a != .gt)) = true := by
    intro a b
    rw [Bool.or_eq_true]
    exact (le_total a.sortKey b.sortKey).imp cmp_ne_gt_iff.mpr cmp_ne_gt_iff.mpr
  exact (List.pairwise_mergeSort htrans htotal xs).imp cmp_ne_gt_iff.mp

/-! ### Dropping repeats -/

theorem sublist_dedupAdjacent (l : List Annotation) : (dedupAdjacent l).Sublist l := by
  fun_induction dedupAdjacent l with
  | case1 => exact List.Sublist.slnil
  | case2 a => exact List.Sublist.refl _
  | case3 b rest ih => exact ih.cons b
  | case4 a b rest hab ih => exact ih.cons_cons a

theorem mem_dedupAdjacent {a : Annotation} {l : List Annotation} : a ∈ dedupAdjacent l ↔ a ∈ l := by
  fun_induction dedupAdjacent l with
  | case1 => rfl
  | case2 b => rfl
  | case3 b rest ih =>
    rw [ih]
    simp
  | case4 b c rest hbc ih => simp only [List.mem_cons, ih]

@[simp]
theorem mem_sortAndDedup {a : Annotation} {l : List Annotation} : a ∈ sortAndDedup l ↔ a ∈ l := by
  simp [sortAndDedup, mem_dedupAdjacent, List.mem_mergeSort]

theorem dedupAdjacent_cons (a : Annotation) (rest : List Annotation) :
    ∃ t, dedupAdjacent (a :: rest) = a :: t := by
  induction rest generalizing a with
  | nil => exact ⟨[], rfl⟩
  | cons b rest ih =>
    by_cases hab : a = b
    · subst hab
      obtain ⟨t, ht⟩ := ih a
      exact ⟨t, by rw [dedupAdjacent, if_pos rfl, ht]⟩
    · exact ⟨_, by rw [dedupAdjacent, if_neg hab]⟩

theorem isChain_dedupAdjacent (l : List Annotation) : (dedupAdjacent l).IsChain (· ≠ ·) := by
  fun_induction dedupAdjacent l with
  | case1 => exact .nil
  | case2 a => exact .singleton a
  | case3 b rest ih => exact ih
  | case4 a b rest hab ih =>
    obtain ⟨t, ht⟩ := dedupAdjacent_cons b rest
    rw [ht] at ih ⊢
    exact .cons_cons hab ih

theorem pairwise_lt_of_sorted {ys : List Annotation}
    (hs : ys.Pairwise fun a b => a.sortKey ≤ b.sortKey) (hc : ys.IsChain (· ≠ ·))
    (hsev : ∀ a ∈ ys, ∀ b ∈ ys, a.sortKey = b.sortKey → a.severity = b.severity) :
    ys.Pairwise fun a b => a.sortKey < b.sortKey := by
  induction ys with
  | nil => exact List.Pairwise.nil
  | cons a rest ih =>
    obtain ⟨hle, hrest⟩ := List.pairwise_cons.mp hs
    refine List.pairwise_cons.mpr ⟨fun b hb => ?_, ih hrest hc.tail fun x hx y hy =>
      hsev x (List.mem_cons_of_mem a hx) y (List.mem_cons_of_mem a hy)⟩
    cases rest with
    | nil => exact absurd hb List.not_mem_nil
    | cons c rest =>
      have hac : a ≠ c := (List.isChain_cons_cons.mp hc).1
      refine lt_of_le_of_ne (hle b hb) fun hab => hac ?_
      -- `b` is `c` or after it, so `a`, `c` and `b` share one key
      have hcb : c.sortKey ≤ b.sortKey := by
        rcases List.mem_cons.mp hb with rfl | hb
        · exact le_rfl
        · exact (List.pairwise_cons.mp hrest).1 b hb
      have hkey : a.sortKey = c.sortKey := le_antisymm (hle c List.mem_cons_self) (hab ▸ hcb)
      exact eq_of_sortKey_eq hkey (hsev a List.mem_cons_self c
        (List.mem_cons_of_mem a List.mem_cons_self) hkey)

/-- `sortAndDedup` sorts by the key, keeps exactly the annotations it is given, leaves no two
equal neighbours, and leaves no annotation twice when annotations of one key have one
severity. -/
theorem sortAndDedup_sorted_distinct (xs : List Annotation) :
    let ys := sortAndDedup xs
    (ys.Pairwise fun a b => a.sortKey ≤ b.sortKey) ∧ (∀ a, a ∈ ys ↔ a ∈ xs) ∧
      ys.IsChain (· ≠ ·) ∧
      ((∀ a ∈ xs, ∀ b ∈ xs, a.sortKey = b.sortKey → a.severity = b.severity) → ys.Nodup) := by
  intro ys
  have hsorted : ys.Pairwise fun a b => a.sortKey ≤ b.sortKey :=
    (pairwise_mergeSort_cmp xs).sublist (sublist_dedupAdjacent _)
  have hchain : ys.IsChain (· ≠ ·) := isChain_dedupAdjacent _
  refine ⟨hsorted, fun a => mem_sortAndDedup, hchain, fun hsev => ?_⟩
  have hlt := pairwise_lt_of_sorted hsorted hchain fun a ha b hb =>
    hsev a (mem_sortAndDedup.mp ha) b (mem_sortAndDedup.mp hb)
  exact hlt.imp fun h hab => ne_of_lt h (congrArg sortKey hab)

def testSample : List Annotation :=
  [atSpan "b.proto" .compile "x" ⟨1, 0, 1, 3⟩, atSpan "a.proto" .compile "y" ⟨9, 0, 9, 3⟩,
    atSpan "a.proto" .compile "z" ⟨2, 5, 2, 8⟩, atSpan "a.proto" .compile "z" ⟨2, 5, 2, 8⟩,
    atSpan "a.proto" .compile "w" ⟨2, 1, 2, 4⟩]

theorem sortAndDedup_sorted_distinct_testSample :
    (∀ a ∈ testSample, ∀ b ∈ testSample, a.sortKey = b.sortKey → a.severity = b.severity) ∧
      (sortAndDedup testSample).Nodup :=
  have herr : ∀ a ∈ testSample, a.severity = .error := by decide
  have hsev : ∀ a ∈ testSample, ∀ b ∈ testSample, a.sortKey = b.sortKey → a.severity = b.severity :=
    fun a ha b hb _ => (herr a ha).trans (herr b hb).symm
  ⟨hsev, (sortAndDedup_sorted_distinct testSample).2.2.2 hsev⟩

def severitySample : List Annotation :=
  let e : Annotation :=
    { path := "a.proto", startLine := 1, startColumn := 1, endLine := 1, endColumn := 2,
      kind := .compile, message := "m" }
  [e, { e with severity := .warning }, e]

/-- The error stays twice: all three compare equal, so the sort keeps their order, and the
two errors are not neighbours. -/
theorem sortAndDedup_keeps_repeat :
    sortAndDedup severitySample = severitySample ∧ ¬ (sortAndDedup severitySample).Nodup := by
  have hsort : sortAndDedup severitySample = dedupAdjacent severitySample := by
    rw [sortAndDedup, List.mergeSort_of_pairwise (by decide +kernel)]
  rw [hsort]
  decide +kernel

end Annotation

end ProtoSchema
