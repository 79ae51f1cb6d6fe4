import ProtoSchema.Proofs.FileSet.Locate

/-!
The algebra of bucket paths, read on their segments. Normalizing walks the slash-separated
segments of a text with a stack: empty and `.` segments vanish, `..` takes back the last
segment kept, and every other segment is kept. It refuses an absolute text, and a text
where some `..` finds nothing to take back; counted, that is a text with a prefix of its
segments holding more `..` than segments kept (`Path.Escapes`). Otherwise its result is its
own normal form: the root `.`, or kept segments joined by slashes.

On normal paths the string tests agree with the segments: `isUnder p d` holds exactly when
the segments of `d` begin those of `p` (the root having none), although it compares
characters, and `relativeTo p d` succeeds exactly when `p` lies strictly below `d`, with the
name that `join` puts back together.

Main statement: `Path.normalize_isUnder_relativeTo_laws`.
-/

namespace ProtoSchema

namespace Path

def keeps (seg : String) : Bool := !(seg == "" || seg == ".") && seg != ".."

/-- Some prefix of the segments holds more `..` than segments kept: the walk climbs above
the root. -/
def Escapes (segs : List String) : Prop :=
  ∃ n, (segs.take n).countP keeps < (segs.take n).countP (· == "..")

def parts (s : String) : List String := if s = "." then [] else segments s

theorem segments_ne_nil (s : String) : segments s ≠ [] := by
  simpa [segments] using splitSlash_ne_nil s.toList

theorem map_toList_segments (s : String) : (segments s).map String.toList = splitSlash s.toList := by
  simp [segments, Function.comp_def]

theorem segments_prefix_iff {a b : String} :
    segments a <+: segments b ↔ splitSlash a.toList <+: splitSlash b.toList := by
  constructor
  · intro h
    simpa [map_toList_segments] using h.map String.toList
  · intro h
    simpa [segments] using h.map String.ofList

/-! ### Where the walk fails -/

theorem exists_take_cons {α : Type} {f g : List α → Nat} {a : Nat} {x : α} {xs : List α} :
    (∃ n, a + f ((x :: xs).take n) < g ((x :: xs).take n)) ↔
      a + f [] < g [] ∨ ∃ n, a + f (x :: xs.take n) < g (x :: xs.take n) := by
  constructor
  · rintro ⟨_ | n, h⟩
    · exact .inl h
    · exact .inr ⟨n, h⟩
  · rintro (h | ⟨n, h⟩)
    · exact ⟨0, h⟩
    · exact ⟨n + 1, h⟩

theorem resolveSegments_eq_none_iff (segs : List String) :
    ∀ acc : List String, resolveSegments acc segs = none ↔
      ∃ n, acc.length + (segs.take n).countP keeps < (segs.take n).countP (· == "..") := by
  induction segs with
  | nil => simp [resolveSegments]
  | cons seg rest ih =>
    intro acc
    rw [exists_take_cons]
    unfold resolveSegments
    by_cases hskip : seg = "" ∨ seg = "."
    · -- a vanishing segment counts on neither side
      have hk : keeps seg = false := by rcases hskip with rfl | rfl <;> rfl
      have hd : (seg == "..") = false := by rcases hskip with rfl | rfl <;> rfl
      rw [if_pos hskip, ih acc]
      simp [hk, hd]
    · rw [if_neg hskip]
      by_cases hup : seg = ".."
      · subst hup
        rw [if_pos rfl]
        cases acc with
        | nil => exact iff_of_true rfl (.inr ⟨0, by simp [keeps]⟩)
        | cons top acc =>
          rw [ih acc]
          simp only [List.countP_cons, List.countP_nil, List.length_cons]
          simp only [keeps, beq_self_eq_true, Bool.not_or, bne_self_eq_false, Bool.and_false,
            Bool.false_eq_true, if_false, if_true]
          constructor
          · rintro ⟨n, hn⟩
            exact .inr ⟨n, by omega⟩
          · rintro (h | ⟨n, hn⟩)
            · omega
            · exact ⟨n, by omega⟩
      · -- a kept segment raises the stack by one
        have hk : keeps seg = true := by simp_all [keeps]
        have hd : (seg == "..") = false := by simpa using hup
        rw [if_neg hup, ih (seg :: acc)]
        simp only [List.countP_cons, List.countP_nil, List.length_cons, hk, hd, if_true,
          Bool.false_eq_true, if_false]
        constructor
        · rintro ⟨n, hn⟩
          exact .inr ⟨n, by omega⟩
        · rintro (h | ⟨n, hn⟩)
          · omega
          · exact ⟨n, by omega⟩

theorem resolveSegments_nil_eq_none_iff (segs : List String) :
    resolveSegments [] segs = none ↔ Escapes segs := by
  simp [resolveSegments_eq_none_iff, Escapes]

theorem normalize_eq_error_iff {s : String} {e : PathError} :
    normalize s = .error e ↔
      (s.startsWith "/" = true ∧ e = .absolute s) ∨
        (s.startsWith "/" = false ∧ Escapes (segments s) ∧ e = .outsideRoot s) := by
  unfold normalize
  by_cases hs : s.startsWith "/" = true
  · simp [hs, eq_comm]
  · have hs' : s.startsWith "/" = false := by simpa using hs
    rw [if_neg hs]
    cases hres : resolveSegments [] (segments s) with
    | none =>
      have hesc := (resolveSegments_nil_eq_none_iff (segments s)).mp hres
      simp [hs', hesc, eq_comm]
    | some acc =>
      have hesc : ¬ Escapes (segments s) := by
        rw [← resolveSegments_nil_eq_none_iff, hres]
        simp
      simp [hs', hesc]

/-! ### The normal form -/

theorem joined_of_normal {t : String} (h : Normal t) :
    t = "." ∨ ∃ segs : List String, segs ≠ [] ∧ (∀ seg ∈ segs, Kept seg) ∧ t = "/".intercalate segs := by
  rcases h with rfl | h
  · exact .inl rfl
  refine .inr ⟨segments t, segments_ne_nil t, ?_, ?_⟩
  · intro seg hseg
    obtain ⟨cs, hcs, rfl⟩ := List.mem_map.mp hseg
    exact ⟨by simpa using slash_not_mem_of_mem_splitSlash hcs, by simpa using h cs hcs⟩
  · apply String.toList_inj.mp
    rw [String.toList_intercalate, map_toList_segments]
    exact (intercalate_splitSlash t.toList).symm

/-! ### Directories on segments -/

theorem not_slash_prefix_dot {d : String} (hd : Normal d) : ¬ d.toList ++ ['/'] <+: ['.'] := by
  intro h
  have hlen := h.length_le
  have hne : d ≠ "" := ne_empty_of_isNormalized (isNormalized_iff.mpr hd)
  have hpos : 0 < d.toList.length := by
    rw [List.length_pos_iff]
    intro hnil
    exact hne (String.toList_inj.mp (by simpa using hnil))
  simp only [List.length_append, List.length_singleton] at hlen
  omega

theorem eq_or_slash_prefix_of_splitSlash_prefix {a b : List Char}
    (h : splitSlash a <+: splitSlash b) : a = b ∨ a ++ ['/'] <+: b := by
  obtain ⟨rest, hrest⟩ := h
  cases rest with
  | nil =>
    left
    rw [← intercalate_splitSlash a, ← intercalate_splitSlash b, ← hrest, List.append_nil]
  | cons r rs =>
    right
    -- the pieces after those of `a` join to a text that cuts back into them
    have hfree : ∀ seg ∈ r :: rs, '/' ∉ seg := fun seg hseg =>
      slash_not_mem_of_mem_splitSlash (hrest ▸ List.mem_append_right _ hseg)
    have hcut : splitSlash (['/'].intercalate (r :: rs)) = r :: rs :=
      splitSlash_intercalate (List.cons_ne_nil r rs) hfree
    refine ⟨['/'].intercalate (r :: rs), ?_⟩
    calc a ++ ['/'] ++ ['/'].intercalate (r :: rs)
        = ['/'].intercalate (splitSlash (a ++ '/' :: ['/'].intercalate (r :: rs))) := by
          rw [intercalate_splitSlash]
          simp
      _ = ['/'].intercalate (splitSlash b) := by rw [splitSlash_append_slash, hcut, hrest]
      _ = b := intercalate_splitSlash b

theorem isUnder_iff_prefix_parts {p d : String} (hp : Normal p) (hd : Normal d) :
    isUnder p d = true ↔ parts d <+: parts p := by
  by_cases hdot : d = "."
  · simp [isUnder, parts, hdot]
  have hpd : parts d = segments d := if_neg hdot
  by_cases hpdot : p = "."
  · subst hpdot
    rw [hpd, parts, if_pos rfl, isUnder_iff]
    constructor
    · rintro (h | h | h)
      · exact absurd h hdot
      · exact absurd h.symm hdot
      · exact absurd h (not_slash_prefix_dot hd)
    · intro h
      exact absurd (List.eq_nil_of_prefix_nil h) (segments_ne_nil d)
  rw [hpd, parts, if_neg hpdot, isUnder_iff, segments_prefix_iff]
  simp only [hdot, false_or]
  constructor
  · rintro (rfl | ⟨t, ht⟩)
    · exact List.prefix_refl _
    · rw [← ht, List.append_assoc, List.singleton_append, splitSlash_append_slash]
      exact List.prefix_append _ _
  · intro h
    rcases eq_or_slash_prefix_of_splitSlash_prefix h with h | h
    · exact .inl (String.toList_inj.mp h).symm
    · exact .inr h

theorem relativeTo_isSome_iff {p d : String} (hd : Normal d) :
    (∃ r, relativeTo p d = some r) ↔ isUnder p d = true ∧ p ≠ d := by
  constructor
  · rintro ⟨r, hr⟩
    exact isUnder_of_relativeTo hr
  · rintro ⟨hunder, hne⟩
    by_cases hdot : d = "."
    · subst hdot
      exact ⟨p, by simp [relativeTo, hne]⟩
    · rcases isUnder_iff.mp hunder with h | h | h
      · exact absurd h hdot
      · exact absurd h hne
      · have hstart : p.startsWith (d ++ "/") = true := by
          rw [String.startsWith_string_iff]
          simpa using h
        exact ⟨String.ofList (p.toList.drop (d.length + 1)), by simp [relativeTo, hdot, hstart]⟩

/-- The laws of normal paths: normalizing gives a fixpoint in normal form, fails exactly on
absolute texts and on texts climbing above the root, and on normal paths `isUnder`,
`relativeTo` and `join` agree with the segments. -/
theorem normalize_isUnder_relativeTo_laws :
    (∀ s t : String, normalize s = .ok t →
      normalize t = .ok t ∧
        (t = "." ∨ ∃ segs : List String, segs ≠ [] ∧ (∀ seg ∈ segs, Kept seg) ∧ t = "/".intercalate segs)) ∧
    (∀ s : String, (∃ p, normalize s = .error (.absolute p)) ↔ s.startsWith "/" = true) ∧
    (∀ s : String, s.startsWith "/" = false →
      ((∃ p, normalize s = .error (.outsideRoot p)) ↔ Escapes (segments s))) ∧
    ∀ p d : String, isNormalized p = true → isNormalized d = true →
      (isUnder p d = true ↔ parts d <+: parts p) ∧
        ((∃ r, relativeTo p d = some r) ↔ isUnder p d = true ∧ p ≠ d) ∧
        ∀ r, relativeTo p d = some r → join d r = .ok p := by
  refine ⟨fun s t h => ⟨normalize_of_normal (normalize_normal h), joined_of_normal (normalize_normal h)⟩,
    fun s => ?_, fun s hs => ?_, fun p d hp hd => ?_⟩
  · constructor
    · rintro ⟨q, hq⟩
      rcases normalize_eq_error_iff.mp hq with ⟨h, -⟩ | ⟨-, -, hq'⟩
      · exact h
      · cases hq'
    · intro h
      exact ⟨s, normalize_eq_error_iff.mpr (.inl ⟨h, rfl⟩)⟩
  · constructor
    · rintro ⟨q, hq⟩
      rcases normalize_eq_error_iff.mp hq with ⟨h, -⟩ | ⟨-, hesc, -⟩
      · rw [hs] at h
        cases h
      · exact hesc
    · intro hesc
      exact ⟨s, normalize_eq_error_iff.mpr (.inr ⟨hs, hesc, rfl⟩)⟩
  · have hp' := isNormalized_iff.mp hp
    have hd' := isNormalized_iff.mp hd
    exact ⟨isUnder_iff_prefix_parts hp' hd', relativeTo_isSome_iff hd',
      fun r hr => join_of_relativeTo hp' hd' hr⟩

/-- The laws at a directory and a file below it. -/
theorem normalize_isUnder_relativeTo_laws_protoDir :
    isNormalized "proto/a.proto" = true ∧ isNormalized "proto" = true ∧
      join "proto" "a.proto" = .ok "proto/a.proto" :=
  have hp : isNormalized "proto/a.proto" = true := by decide +kernel
  have hd : isNormalized "proto" = true := by decide +kernel
  ⟨hp, hd, (normalize_isUnder_relativeTo_laws.2.2.2 _ _ hp hd).2.2 "a.proto" (by decide +kernel)⟩

end Path

end ProtoSchema
