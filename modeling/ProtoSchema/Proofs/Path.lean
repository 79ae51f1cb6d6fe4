import ProtoSchema.Bucket
import ProtoSchema.Build.Graph

/-!
Normal bucket paths. A text is its own normal form exactly when it is the
root `"."` or when every piece between its slashes is a proper segment:
non-empty and neither `.` nor `..`. Everything here is read off that one
description, which is stated on the characters of the text so that cutting
a path at a slash is list surgery and nothing else.

Main statements: `Path.isNormalized_iff`, `Path.normalize_isNormalized`,
`Path.isNormalized_relativeTo` and `Bucket.ofFiles_isNormalized`.
-/

namespace ProtoSchema

namespace Path

def ProperSegment (seg : List Char) : Prop := seg ≠ [] ∧ seg ≠ ['.'] ∧ seg ≠ ['.', '.']

def Normal (s : String) : Prop := s = "." ∨ ∀ seg ∈ splitSlash s.toList, ProperSegment seg

/-! ### Cutting at slashes -/

theorem splitSlash_ne_nil (cs : List Char) : splitSlash cs ≠ [] := by
  cases cs with
  | nil => simp [splitSlash]
  | cons c rest =>
      unfold splitSlash
      split
      · simp
      · split <;> simp

theorem splitSlash_append_slash (a b : List Char) :
    splitSlash (a ++ '/' :: b) = splitSlash a ++ splitSlash b := by
  induction a with
  | nil => simp [splitSlash]
  | cons c rest ih =>
      by_cases hc : c = '/'
      · simp [splitSlash, hc, ih]
      · obtain ⟨seg, segs, hsplit⟩ := List.exists_cons_of_ne_nil (splitSlash_ne_nil rest)
        simp [splitSlash, hc, ih, hsplit]

theorem splitSlash_of_slash_not_mem {cs : List Char} (h : '/' ∉ cs) : splitSlash cs = [cs] := by
  induction cs with
  | nil => rfl
  | cons c rest ih =>
      have hc : c ≠ '/' := fun hc => h (hc ▸ List.mem_cons_self)
      have hrest : '/' ∉ rest := fun hr => h (List.mem_cons_of_mem c hr)
      simp [splitSlash, hc, ih hrest]

theorem slash_not_mem_of_mem_splitSlash {cs seg : List Char} (h : seg ∈ splitSlash cs) :
    '/' ∉ seg := by
  induction cs generalizing seg with
  | nil => simp_all [splitSlash]
  | cons c rest ih =>
      by_cases hc : c = '/'
      · simp only [splitSlash, hc, if_true, List.mem_cons] at h
        rcases h with rfl | h
        · simp
        · exact ih h
      · obtain ⟨s, segs, hsplit⟩ := List.exists_cons_of_ne_nil (splitSlash_ne_nil rest)
        simp only [splitSlash, hc, if_false, hsplit, List.mem_cons] at h
        rcases h with rfl | h
        · have : '/' ∉ s := ih (by simp [hsplit])
          simp [Ne.symm hc, this]
        · exact ih (by simp [hsplit, h])

theorem intercalate_splitSlash (cs : List Char) : ['/'].intercalate (splitSlash cs) = cs := by
  induction cs with
  | nil => rfl
  | cons c rest ih =>
      by_cases hc : c = '/'
      · subst hc
        simp [splitSlash, List.intercalate_cons_of_ne_nil (splitSlash_ne_nil rest), ih]
      · obtain ⟨seg, segs, hsplit⟩ := List.exists_cons_of_ne_nil (splitSlash_ne_nil rest)
        simp only [splitSlash, hc, if_false, hsplit, List.intercalate_cons_cons_left]
        rw [← hsplit, ih]

theorem splitSlash_intercalate :
    ∀ {segs : List (List Char)}, segs ≠ [] → (∀ seg ∈ segs, '/' ∉ seg) →
      splitSlash (['/'].intercalate segs) = segs
  | [], h, _ => absurd rfl h
  | [s], _, hs => by simpa using splitSlash_of_slash_not_mem (hs s (by simp))
  | s :: t :: u, _, hs => by
      rw [List.intercalate_cons_cons, List.append_assoc, List.singleton_append,
        splitSlash_append_slash, splitSlash_of_slash_not_mem (hs s (by simp)),
        splitSlash_intercalate (by simp) (fun seg hseg => hs seg (List.mem_cons_of_mem s hseg))]
      rfl

/-! ### The normal form -/

def Kept (seg : String) : Prop := '/' ∉ seg.toList ∧ ProperSegment seg.toList

theorem properSegment_iff (seg : String) :
    ProperSegment seg.toList ↔ ¬(seg = "" ∨ seg = ".") ∧ seg ≠ ".." := by
  constructor
  · rintro ⟨h1, h2, h3⟩
    refine ⟨?_, ?_⟩
    · rintro (rfl | rfl) <;> simp_all
    · rintro rfl; simp_all
  · rintro ⟨h1, h2⟩
    refine ⟨?_, ?_, ?_⟩
    · intro h; exact h1 (Or.inl (String.toList_inj.mp (by simpa using h)))
    · intro h; exact h1 (Or.inr (String.toList_inj.mp (by simpa using h)))
    · intro h; exact h2 (String.toList_inj.mp (by simpa using h))

theorem resolveSegments_kept :
    ∀ {acc segs r : List String}, resolveSegments acc segs = some r →
      (∀ x ∈ acc, Kept x) → (∀ x ∈ segs, '/' ∉ x.toList) → ∀ x ∈ r, Kept x
  | acc, [], r, h, hacc, _ => by
      simp only [resolveSegments, Option.some.injEq] at h
      exact h ▸ hacc
  | acc, seg :: rest, r, h, hacc, hsegs => by
      have hrest : ∀ x ∈ rest, '/' ∉ x.toList := fun x hx => hsegs x (List.mem_cons_of_mem _ hx)
      unfold resolveSegments at h
      by_cases hskip : seg = "" ∨ seg = "."
      · rw [if_pos hskip] at h
        exact resolveSegments_kept h hacc hrest
      · rw [if_neg hskip] at h
        by_cases hup : seg = ".."
        · rw [if_pos hup] at h
          cases acc with
          | nil => cases h
          | cons _ acc' => exact resolveSegments_kept h (fun x hx => hacc x (by simp [hx])) hrest
        · rw [if_neg hup] at h
          refine resolveSegments_kept h ?_ hrest
          intro x hx
          rcases List.mem_cons.mp hx with rfl | hx
          · exact ⟨hsegs x (by simp), (properSegment_iff x).mpr ⟨hskip, hup⟩⟩
          · exact hacc x hx

theorem resolveSegments_of_proper :
    ∀ (acc : List String) {segs : List String}, (∀ x ∈ segs, ProperSegment x.toList) →
      resolveSegments acc segs = some (segs.reverse ++ acc)
  | acc, [], _ => rfl
  | acc, seg :: rest, h => by
      obtain ⟨h1, h2⟩ := (properSegment_iff seg).mp (h seg (by simp))
      unfold resolveSegments
      rw [if_neg h1, if_neg h2,
        resolveSegments_of_proper _ (fun x hx => h x (List.mem_cons_of_mem _ hx))]
      simp

theorem toList_ofSegments {segs : List String} (h : segs ≠ []) :
    (ofSegments segs).toList = ['/'].intercalate (segs.map String.toList) := by
  cases segs with
  | nil => exact absurd rfl h
  | cons s rest => simp [ofSegments]

theorem normalize_normal {s t : String} (h : normalize s = .ok t) : Normal t := by
  unfold normalize at h
  split at h
  · cases h
  · split at h
    · cases h
    · rename_i acc hres
      cases h
      have hkept := resolveSegments_kept hres (by simp) (fun x hx => by
        obtain ⟨seg, hseg, rfl⟩ := List.mem_map.mp hx
        simpa using slash_not_mem_of_mem_splitSlash hseg)
      by_cases hnil : acc = []
      · subst hnil
        exact Or.inl rfl
      · right
        have hne : acc.reverse ≠ [] := by simpa using hnil
        rw [toList_ofSegments hne, splitSlash_intercalate (by simpa using hnil) (by
          intro seg hseg
          obtain ⟨y, hy, rfl⟩ := List.mem_map.mp hseg
          exact (hkept y (List.mem_reverse.mp hy)).1)]
        intro seg hseg
        obtain ⟨y, hy, rfl⟩ := List.mem_map.mp hseg
        exact (hkept y (List.mem_reverse.mp hy)).2

theorem normalize_of_normal {s : String} (h : Normal s) : normalize s = .ok s := by
  rcases h with rfl | h
  · simp [normalize, segments, splitSlash, resolveSegments, ofSegments]
  · have hslash : s.startsWith "/" = false := by
      rw [String.startsWith_string_eq_false_iff]
      rintro ⟨t, ht⟩
      have hfirst : [] ∈ splitSlash s.toList := by
        rw [← ht]; simp [splitSlash]
      exact (h [] hfirst).1 rfl
    have hproper : ∀ x ∈ segments s, ProperSegment x.toList := by
      intro x hx
      obtain ⟨seg, hseg, rfl⟩ := List.mem_map.mp hx
      simpa using h seg hseg
    have hne : segments s ≠ [] := by simpa [segments] using splitSlash_ne_nil s.toList
    rw [normalize, hslash, resolveSegments_of_proper [] hproper]
    simp only [Bool.false_eq_true, if_false, List.append_nil, List.reverse_reverse]
    congr 1
    apply String.toList_inj.mp
    rw [toList_ofSegments hne]
    simp [segments, Function.comp_def, intercalate_splitSlash]

theorem isNormalized_iff {s : String} : Path.isNormalized s = true ↔ Normal s := by
  constructor
  · intro h
    unfold Path.isNormalized at h
    split at h
    · rename_i n hn
      have hs : n = s := by simpa using h
      exact hs ▸ normalize_normal hn
    · cases h
  · intro h
    simp [Path.isNormalized, normalize_of_normal h]

/-- Normalization is idempotent: its result is normalized. -/
theorem normalize_isNormalized {s t : String} (h : normalize s = .ok t) :
    Path.isNormalized t = true :=
  isNormalized_iff.mpr (normalize_normal h)

theorem ne_empty_of_isNormalized {s : String} (h : Path.isNormalized s = true) : s ≠ "" := by
  rintro rfl
  revert h
  decide

/-- The part of a normal path below a directory is a normal path. -/
theorem isNormalized_relativeTo {path dir name : String}
    (hpath : Path.isNormalized path = true) (h : relativeTo path dir = some name) :
    Path.isNormalized name = true := by
  unfold relativeTo at h
  split at h
  · split at h
    · cases h
    · cases h; exact hpath
  · split at h
    · rename_i _ hpre
      cases h
      obtain ⟨t, ht⟩ := String.startsWith_string_iff.mp hpre
      have hsplit : path.toList = dir.toList ++ '/' :: t := by simpa using ht.symm
      have hdrop : path.toList.drop (dir.length + 1) = t := by
        rw [hsplit, ← String.length_toList]; simp
      rcases isNormalized_iff.mp hpath with hdot | hall
      · have hmem : '/' ∈ path.toList := by simp [hsplit]
        simp [hdot] at hmem
      · apply isNormalized_iff.mpr
        right
        rw [hdrop, String.toList_ofList]
        intro seg hseg
        exact hall seg (by rw [hsplit, splitSlash_append_slash]; exact List.mem_append_right _ hseg)
    · cases h

end Path

namespace Bucket

def Normalized (bucket : Bucket) : Prop := ∀ e ∈ bucket.entries, Path.isNormalized e.1 = true

theorem mem_insertSorted {p : String} {bytes : List UInt8} :
    ∀ {es : List (String × List UInt8)} {e : String × List UInt8},
      e ∈ insertSorted p bytes es → e.1 = p ∨ e ∈ es
  | [], e, h => by simp_all [insertSorted]
  | (q, b) :: rest, e, h => by
      unfold insertSorted at h
      split at h
      · rcases List.mem_cons.mp h with rfl | h
        · exact Or.inl rfl
        · exact Or.inr h
      · split at h
        · simp only [List.mem_cons] at h
          rcases h with rfl | h
          · exact Or.inl rfl
          · exact Or.inr (List.mem_cons_of_mem _ h)
        · simp only [List.mem_cons] at h
          rcases h with rfl | h
          · exact Or.inr List.mem_cons_self
          · rcases mem_insertSorted h with h | h
            · exact Or.inl h
            · exact Or.inr (List.mem_cons_of_mem _ h)

theorem insert_normalized {bucket bucket' : Bucket} {path : String} {bytes : List UInt8}
    (hb : bucket.Normalized) (h : bucket.insert path bytes = .ok bucket') : bucket'.Normalized := by
  unfold insert at h
  cases hn : Path.normalize path with
  | error e => simp [hn, bind, Except.bind] at h
  | ok p =>
      simp only [hn] at h
      cases h
      intro e he
      rcases mem_insertSorted he with heq | he
      · exact heq ▸ Path.normalize_isNormalized hn
      · exact hb e he

theorem foldlM_insert_normalized :
    ∀ {files : List (String × List UInt8)} {start bucket : Bucket}, start.Normalized →
      files.foldlM (fun b (p, bytes) => b.insert p bytes) start = .ok bucket → bucket.Normalized
  | [], _, _, hs, h => by cases h; exact hs
  | (p, bytes) :: rest, start, _, hs, h => by
      simp only [List.foldlM_cons] at h
      cases hi : start.insert p bytes with
      | error e => simp [hi, bind, Except.bind] at h
      | ok b =>
          simp only [hi] at h
          exact foldlM_insert_normalized (insert_normalized hs hi) h

theorem ofFiles_normalized {files : List (String × List UInt8)} {bucket : Bucket}
    (h : Bucket.ofFiles files = .ok bucket) : bucket.Normalized :=
  foldlM_insert_normalized (by simp [Normalized]) h

theorem mem_of_list {bucket : Bucket} {pfx : String} {ps : List String}
    (h : bucket.list pfx = .ok ps) {q : String} (hq : q ∈ ps) : q ∈ bucket.entries.map (·.1) := by
  unfold list at h
  split at h
  · cases h
  · cases h
    exact (List.mem_filter.mp hq).1

end Bucket

end ProtoSchema
