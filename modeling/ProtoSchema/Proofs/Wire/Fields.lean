import Mathlib
import ProtoSchema.Descriptor.Decode
import ProtoSchema.Descriptor.Encode
import ProtoSchema.Proofs.Wire.Codec

/-!
Reading a stream of fields. A message is read by `mergeFields`, one key and one
value per turn, each turn folding the field into an accumulator. `Reads step acc bs
acc'` says that the fields `bs` take the accumulator from `acc` to `acc'` in at most
one turn per byte, whatever follows them; it composes along `++`, so the reading of a
whole encoding is assembled from the reading of each of its fields.

A field is described once by `Layout`: its bytes are a key and a value that a
reader reads back. There is one `Layout` per kind of writer, and three ways a field
can sit in a message: once, optionally (`Wire.opt`), or repeated (`Wire.many`). The
accumulator after an optional or repeated field is given by the setter of that
field, so a whole message reads back as the message itself.

Main statements: `Reads.append`, `Reads.opt`, `Reads.many` and `mergeAll_of_reads`.
-/

namespace ProtoSchema

open Wire

variable {α β : Type}

/-- `bytes` is one field of number `tag` and wire type `wt`, whose value `read` reads
back as `v`, the bytes after it untouched, as long as the field is shorter than
`2 ^ 64` bytes. -/
def Layout (tag : Nat) (wt : WireType) (read : WireType → Input → Except WireError (β × Input))
    (bytes : List UInt8) (v : β) : Prop :=
  ∃ value, bytes = key tag wt ++ value ∧
    (bytes.length < 2 ^ 64 → ∀ rest, read wt (value ++ rest) = .ok (v, rest))

def Skips (tag : Nat) (bytes : List UInt8) : Prop :=
  ∃ wt value, bytes = key tag wt ++ value ∧
    (bytes.length < 2 ^ 64 → ∀ budget rest, 0 < budget →
      skip budget tag wt (value ++ rest) = .ok rest)

namespace Layout

variable {tag : Nat}

theorem length_lt {payload : List UInt8} (h : (fieldBytes tag payload).length < 2 ^ 64) :
    payload.length < 2 ^ 64 := by
  simp only [fieldBytes, List.length_append] at h
  omega

theorem string (s : String) : Layout tag .len readString (fieldString tag s) s :=
  ⟨_, List.append_assoc _ _ _, fun h rest => readString_append (length_lt h) rest⟩

theorem bytes (b : List UInt8) : Layout tag .len readBytes (fieldBytes tag b) b :=
  ⟨_, List.append_assoc _ _ _, fun h rest => readBytes_append (length_lt h) rest⟩

theorem bool (b : Bool) : Layout tag .varint readBool (fieldBool tag b) b :=
  ⟨_, rfl, fun _ rest => readBool_append b rest⟩

theorem int32 {v : Int} (hv : -2 ^ 31 ≤ v ∧ v < 2 ^ 31) :
    Layout tag .varint readInt32 (fieldInt tag v) v :=
  ⟨_, rfl, fun _ rest => readInt32_append hv rest⟩

theorem int64 {v : Int} (hv : -2 ^ 63 ≤ v ∧ v < 2 ^ 63) :
    Layout tag .varint readInt64 (fieldInt tag v) v :=
  ⟨_, rfl, fun _ rest => readInt64_append hv rest⟩

theorem uint64 {n : Nat} (hn : n < 2 ^ 64) : Layout tag .varint readUInt64 (fieldVarint tag n) n :=
  ⟨_, rfl, fun _ rest => readVarint_append hn rest⟩

theorem double (x : Binary64) : Layout tag .fixed64 readDouble (fieldDouble tag x) x :=
  ⟨_, rfl, fun _ rest => readDouble_append x rest⟩

theorem int32s {v : Int} (hv : -2 ^ 31 ≤ v ∧ v < 2 ^ 31) :
    Layout tag .varint readRepeatedInt32 (fieldInt tag v) [v] :=
  ⟨_, rfl, fun _ rest => readRepeatedInt32_varint hv rest⟩

theorem packed {vs : List Int} (hne : vs ≠ []) (hv : ∀ v ∈ vs, -2 ^ 31 ≤ v ∧ v < 2 ^ 31) :
    Layout tag .len readRepeatedInt32 (fieldPacked tag vs) vs := by
  have hpacked : fieldPacked tag vs = fieldBytes tag ((vs.map ofSigned).flatMap Varint.encode) := by
    rw [fieldPacked, if_neg (by simpa using hne), List.flatMap_map]
  rw [hpacked]
  exact ⟨_, List.append_assoc _ _ _, fun h rest => readRepeatedInt32_packed hv (length_lt h) rest⟩

theorem merged {budget : Nat} {merge : Nat → β → Input → Except WireError β} {init : β}
    {payload : List UInt8} {x : β} (hb : budget ≠ 0)
    (hx : payload.length < 2 ^ 64 → merge (budget - 1) init payload = .ok x) :
    Layout tag .len (embedded budget merge init) (fieldBytes tag payload) x := by
  refine ⟨_, List.append_assoc _ _ _, fun h rest => ?_⟩
  have hlen := length_lt h
  simp only [embedded, expect, if_neg hb, bind, Except.bind, readLen_append hlen, hx hlen]
  rfl

theorem message {budget : Nat} {merge : Nat → β → Input → Except WireError β} {init : β}
    {enc : β → List UInt8} {x : β} (hb : budget ≠ 0)
    (hx : (enc x).length < 2 ^ 64 → merge (budget - 1) init (enc x) = .ok x) :
    Layout tag .len (embedded budget merge init) (fieldMessage tag enc x) x :=
  merged hb hx

end Layout

namespace Skips

variable {tag : Nat}

theorem bytes (payload : List UInt8) : Skips tag (fieldBytes tag payload) :=
  ⟨.len, _, List.append_assoc _ _ _, fun h _ rest hb => skip_len hb tag (Layout.length_lt h) rest⟩

theorem varint {n : Nat} (hn : n < 2 ^ 64) : Skips tag (fieldVarint tag n) :=
  ⟨.varint, _, rfl, fun _ _ rest hb => skip_varint hb tag hn rest⟩

theorem int (v : Int) : Skips tag (fieldInt tag v) := varint (ofSigned_lt v)

end Skips

/-- Reading the fields `bs` with `step` takes the accumulator from `acc` to `acc'`: as
long as `bs` is shorter than `2 ^ 64` bytes, some number of turns, at most its length,
reads exactly `bs`, whatever follows. -/
structure Reads (step : α → Nat → WireType → Input → Except WireError (α × Input)) (acc : α)
    (bs : List UInt8) (acc' : α) : Prop where
  run : bs.length < 2 ^ 64 → ∃ k ≤ bs.length, ∀ n rest,
    mergeFields step (n + k) acc (bs ++ rest) = mergeFields step n acc' rest

namespace Reads

variable {step : α → Nat → WireType → Input → Except WireError (α × Input)} {tag : Nat}
  {wt : WireType}

theorem nil (acc : α) : Reads step acc [] acc :=
  ⟨fun _ => ⟨0, le_refl _, fun _ _ => rfl⟩⟩

theorem append {a b c : α} {bs cs : List UInt8} (h₁ : Reads step a bs b) (h₂ : Reads step b cs c) :
    Reads step a (bs ++ cs) c := by
  refine ⟨fun hlen => ?_⟩
  rw [List.length_append] at hlen
  obtain ⟨k₁, hk₁, e₁⟩ := h₁.run (by omega)
  obtain ⟨k₂, hk₂, e₂⟩ := h₂.run (by omega)
  refine ⟨k₂ + k₁, by simp; omega, fun n rest => ?_⟩
  rw [← Nat.add_assoc, List.append_assoc, e₁, e₂]

theorem mergeFields_key_append (htag : 0 < tag ∧ tag < 2 ^ 29) (n : Nat) (acc : α)
    (value : List UInt8) :
    mergeFields step (n + 1) acc (key tag wt ++ value) =
      (do let (acc', rest) ← step acc tag wt value; mergeFields step n acc' rest) := by
  obtain ⟨b, bs, hkey⟩ := List.exists_cons_of_ne_nil (key_ne_nil tag wt)
  have hne : (key tag wt ++ value).isEmpty = false := by simp [hkey]
  rw [mergeFields, hne]
  simp only [Bool.false_eq_true, if_false, readKey_key_append htag.1 htag.2, bind, Except.bind]

theorem field {acc acc' : α} {value : List UInt8} (htag : 0 < tag ∧ tag < 2 ^ 29)
    (hv : (key tag wt ++ value).length < 2 ^ 64 → ∀ rest,
      step acc tag wt (value ++ rest) = .ok (acc', rest)) :
    Reads step acc (key tag wt ++ value) acc' := by
  obtain ⟨b, bs, hkey⟩ := List.exists_cons_of_ne_nil (key_ne_nil tag wt)
  refine ⟨fun hlen => ⟨1, by simp [hkey], fun n rest => ?_⟩⟩
  rw [List.append_assoc, mergeFields_key_append htag, hv hlen rest]
  rfl

theorem one {read : WireType → Input → Except WireError (β × Input)} {bytes : List UInt8} {v : β}
    {acc : α} (upd : β → α) (hl : Layout tag wt read bytes v) (htag : 0 < tag ∧ tag < 2 ^ 29)
    (hstep : ∀ r, step acc tag wt r = (do let (w, r') ← read wt r; return (upd w, r'))) :
    Reads step acc bytes (upd v) := by
  obtain ⟨value, rfl, hread⟩ := hl
  refine field htag fun hlen rest => ?_
  rw [hstep, hread hlen rest]
  rfl

theorem skip {bytes : List UInt8} {acc : α} {budget : Nat} (hs : Skips tag bytes)
    (htag : 0 < tag ∧ tag < 2 ^ 29) (hb : 0 < budget)
    (hstep : ∀ wt r, step acc tag wt r = skipping budget acc tag wt r) :
    Reads step acc bytes acc := by
  obtain ⟨wt, value, rfl, hskip⟩ := hs
  refine field htag fun hlen rest => ?_
  rw [hstep]
  simp only [skipping, bind, Except.bind, hskip hlen budget rest hb]
  rfl

theorem optOf {f : β → List UInt8} {acc : α} (x : Option β) (set : α → Option β → α)
    (hnone : set acc none = acc) (hsome : ∀ v ∈ x, Reads step acc (f v) (set acc (some v))) :
    Reads step acc (Wire.opt f x) (set acc x) := by
  cases x with
  | none =>
    rw [hnone]
    exact nil acc
  | some v => exact hsome v rfl

theorem manyOf {f : β → List UInt8} {acc : α} (xs : List β) (set : α → List β → α)
    (hnil : set acc [] = acc)
    (hone : ∀ l, ∀ v ∈ xs, Reads step (set acc l) (f v) (set acc (l ++ [v]))) :
    Reads step acc (Wire.many f xs) (set acc xs) := by
  -- the values are read from left to right, each appended to those before it
  have hrun : ∀ ys l, (∀ v ∈ ys, v ∈ xs) →
      Reads step (set acc l) (Wire.many f ys) (set acc (l ++ ys)) := by
    intro ys
    induction ys with
    | nil =>
      intro l _
      rw [List.append_nil]
      exact nil _
    | cons y ys ih =>
      intro l hys
      have hstep := (hone l y (hys y List.mem_cons_self)).append
        (ih (l ++ [y]) fun v hv => hys v (List.mem_cons_of_mem _ hv))
      rwa [List.append_assoc, List.singleton_append] at hstep
  have := hrun xs [] fun _ hv => hv
  rwa [hnil, List.nil_append] at this

/-- An optional field that the step reads and records through `set`. -/
theorem opt {read : WireType → Input → Except WireError (β × Input)} {f : β → List UInt8} {acc : α}
    (x : Option β) (set : α → Option β → α) (hl : ∀ v ∈ x, Layout tag wt read (f v) v)
    (htag : 0 < tag ∧ tag < 2 ^ 29) (hnone : set acc none = acc)
    (hstep : ∀ r, step acc tag wt r = (do let (w, r') ← read wt r; return (set acc (some w), r'))) :
    Reads step acc (Wire.opt f x) (set acc x) :=
  optOf x set hnone fun v hv => one (fun w => set acc (some w)) (hl v hv) htag hstep

/-- A repeated field that the step reads and appends through `set`. -/
theorem many {read : WireType → Input → Except WireError (β × Input)} {f : β → List UInt8} {acc : α}
    (xs : List β) (set : α → List β → α) (hl : ∀ v ∈ xs, Layout tag wt read (f v) v)
    (htag : 0 < tag ∧ tag < 2 ^ 29) (hnil : set acc [] = acc)
    (hstep : ∀ l r, step (set acc l) tag wt r =
      (do let (w, r') ← read wt r; return (set acc (l ++ [w]), r'))) :
    Reads step acc (Wire.many f xs) (set acc xs) :=
  manyOf xs set hnil fun l v hv => one (fun w => set acc (l ++ [w])) (hl v hv) htag (hstep l)

theorem skipOpt {f : β → List UInt8} {acc : α} {budget : Nat} (x : Option β)
    (hs : ∀ v, Skips tag (f v)) (htag : 0 < tag ∧ tag < 2 ^ 29) (hb : 0 < budget)
    (hstep : ∀ wt r, step acc tag wt r = skipping budget acc tag wt r) :
    Reads step acc (Wire.opt f x) acc :=
  optOf x (fun a _ => a) rfl fun v _ => skip (hs v) htag hb hstep

theorem skipMany {f : β → List UInt8} {acc : α} {budget : Nat} (xs : List β)
    (hs : ∀ v, Skips tag (f v)) (htag : 0 < tag ∧ tag < 2 ^ 29) (hb : 0 < budget)
    (hstep : ∀ wt r, step acc tag wt r = skipping budget acc tag wt r) :
    Reads step acc (Wire.many f xs) acc :=
  manyOf xs (fun a _ => a) rfl fun _ v _ => skip (hs v) htag hb hstep

theorem packed {acc : α} (vs : List Int) (set : α → List Int → α)
    (hv : ∀ v ∈ vs, -2 ^ 31 ≤ v ∧ v < 2 ^ 31) (htag : 0 < tag ∧ tag < 2 ^ 29)
    (hnil : set acc [] = acc)
    (hstep : ∀ r, step acc tag .len r =
      (do let (w, r') ← readRepeatedInt32 .len r; return (set acc w, r'))) :
    Reads step acc (fieldPacked tag vs) (set acc vs) := by
  by_cases hne : vs = []
  · subst hne
    rw [hnil]
    exact nil acc
  · exact one (set acc) (Layout.packed hne hv) htag hstep

theorem int32s {acc : α} (vs : List Int) (set : α → List Int → α)
    (hv : ∀ v ∈ vs, -2 ^ 31 ≤ v ∧ v < 2 ^ 31) (htag : 0 < tag ∧ tag < 2 ^ 29)
    (hnil : set acc [] = acc)
    (hstep : ∀ l r, step (set acc l) tag .varint r =
      (do let (w, r') ← readRepeatedInt32 .varint r; return (set acc (l ++ w), r'))) :
    Reads step acc (Wire.many (fieldInt tag) vs) (set acc vs) :=
  manyOf vs set hnil fun l v hv' =>
    one (fun w => set acc (l ++ w)) (Layout.int32s (hv v hv')) htag (hstep l)

end Reads

/-- Fields that read from `init` to `out` are the whole of a payload: reading it gives `out`. -/
theorem mergeAll_of_reads {step : α → Nat → WireType → Input → Except WireError (α × Input)}
    {init out : α} {bs : List UInt8} (h : Reads step init bs out) (hlen : bs.length < 2 ^ 64) :
    mergeAll step init bs = .ok out := by
  obtain ⟨k, hk, e⟩ := h.run hlen
  have hrun := e (bs.length + 1 - k) []
  rw [List.append_nil, show bs.length + 1 - k + k = bs.length + 1 by omega] at hrun
  unfold mergeAll
  rw [hrun]
  cases bs.length + 1 - k <;> rfl

end ProtoSchema
