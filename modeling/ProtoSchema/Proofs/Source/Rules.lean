import Mathlib
import ProtoSchema.Proofs.Source.Throughout
import ProtoSchema.SymbolTable.Collect

/-!
Two consequences of the parser's checks for the files it returns, at any nesting depth.

The rules of the language versions (`versionRules`): no member of a oneof has a label; a proto3
file has no `required` field, no field with an option named `default`, no group and no
`extensions` statement; a proto2 file labels every field and group outside a oneof. Map fields are
read by a step of their own that makes none of these checks, so a proto3 map field may carry an
option named `default` (`parseSchema_proto3_mapDefault`).

The bounds of the ranges of messages (`rangeRules`): both ends are written as numbers from zero to
the largest signed 64-bit integer, and the exclusive end that `NumberRange.bounds` computes is one
past the last number in signed 64-bit arithmetic. It is exact except at the largest number, where
it wraps around to the smallest, and the range then reads as empty
(`extensionRange_int64Max_wraps`).
-/

namespace ProtoSchema

/-! ### The rules of the language versions -/

/-- The rules of the language versions on the syntax of a file of version `d`: those on every field
and group, and `extensions` statements in proto2 only. Map fields are left free. -/
def versionRules (d : Dialect) : NodeChecks where
  field site f := f.Admitted d site
  group site g := g.Admitted d site
  mapField _ := True
  extensions _ := d = .proto2
  reserved _ := True

theorem parsedChecks_le_versionRules (d : Dialect) : (parsedChecks d).Le (versionRules d) where
  field _ _ h := h
  group _ _ h := h
  mapField _ h := h
  extensions _ h := h.1
  reserved _ _ := trivial

/-- Every file the parser returns keeps the rules of its version at any depth, in messages,
groups, oneofs and extend blocks: no member of a oneof has a label; in proto3 no field is
`required` or carries an option named `default`, and there is no group and no `extensions`
statement; in proto2 every field and group outside a oneof has a label. -/
theorem parseSchema_versionRules {text : String} {s : SchemaFile} (h : parseSchema text = .ok s) :
    s.Throughout (versionRules s.dialect) :=
  parseSchema_throughout h (parsedChecks_le_versionRules s.dialect)

def oneofGroupText : String :=
  "syntax = \"proto2\";\nmessage M \x7b\n  optional int32 a = 1;\n" ++
    "  oneof o \x7b int32 b = 2; group G = 3 \x7b required int32 c = 1; \x7d \x7d\n  extensions 100 to max;\n\x7d\n"

theorem parseSchema_versionRules_oneofGroup :
    ∃ s, parseSchema oneofGroupText = .ok s ∧ s.Throughout (versionRules s.dialect) := by
  have h : (parseSchema oneofGroupText).toOption.isSome = true := by decide +kernel
  obtain ⟨s, hs⟩ := Option.isSome_iff_exists.mp h
  exact ⟨s, Except.eq_ok_iff_toOption.mpr hs, parseSchema_versionRules (Except.eq_ok_iff_toOption.mpr hs)⟩

def MessageElement.mapField? : MessageElement → Option MapField
  | .map m => some m
  | _ => none

def mapDefaultText : String :=
  "syntax = \"proto3\";\nmessage A \x7b map<int32, int32> m = 1 [default = 5]; \x7d"

/-- A proto3 file whose map field carries an option named `default` is read without error. -/
theorem parseSchema_proto3_mapDefault :
    ∃ s, parseSchema mapDefaultText = .ok s ∧ s.dialect = .proto3 ∧
      ∃ m ∈ s.messages, ∃ e ∈ m.body, ∃ mf ∈ e.mapField?, ∃ o ∈ mf.options, o.simpleName? = some "default" := by
  have h : (parseSchema mapDefaultText).toOption.any (fun s => decide (s.dialect = .proto3 ∧
      ∃ m ∈ s.messages, ∃ e ∈ m.body, ∃ mf ∈ e.mapField?, ∃ o ∈ mf.options, o.simpleName? = some "default")) =
        true := by
    decide +kernel
  obtain ⟨s, hs, hP⟩ := (Option.any_eq_true _ _).mp h
  exact ⟨s, Except.eq_ok_iff_toOption.mpr hs, of_decide_eq_true hP⟩

/-! ### The bounds of ranges -/

theorem wrapInt64_succ {n : Int} (h0 : 0 ≤ n) (h1 : n ≤ 2 ^ 63 - 1) :
    wrapInt64 (n + 1) = if n + 1 = 2 ^ 63 then -2 ^ 63 else n + 1 := by
  show (n + 1 + 2 ^ 63) % 2 ^ 64 - 2 ^ 63 = _
  split <;> omega

def NumberRange.exactEnd (r : NumberRange) : Int :=
  match r.stop with
  | none => r.start.value + 1
  | some ⟨none, _⟩ => extensionRangeEnd
  | some ⟨some stop, _⟩ => stop + 1

/-- How the bounds of a range of a message come out: its numbers lie between zero and the largest
signed 64-bit integer, and its exclusive end is the exact one, except that an exact end of `2 ^ 63`
wraps around to `-2 ^ 63`. -/
structure NumberRange.Bounded (r : NumberRange) : Prop where
  within : r.Within
  bounds_eq : r.bounds = (r.start.value, if r.exactEnd = 2 ^ 63 then -2 ^ 63 else r.exactEnd)

theorem NumberRange.bounded_of_within {r : NumberRange} (h : r.Within) : r.Bounded := by
  refine ⟨h, ?_⟩
  obtain ⟨⟨h0, h1⟩, hstop⟩ := h
  have hmax : (Parser.int64Max : Int) = 2 ^ 63 - 1 := by decide
  obtain ⟨⟨start, sspan⟩, stop, span⟩ := r
  simp only at h0 h1 hstop ⊢
  unfold NumberRange.bounds NumberRange.exactEnd
  rcases stop with _ | ⟨_ | v, vspan⟩
  · -- one number: the end is one past it
    simp only [wrapInt64_succ h0 (hmax ▸ h1)]
  · -- `to max`: the end of the extension numbers, far below the wrap
    simp [extensionRangeEnd]
  · -- `a to b`: the end is one past `b`
    obtain ⟨hv0, hv1⟩ := hstop _ rfl v rfl
    simp only [wrapInt64_succ hv0 (hmax ▸ hv1)]

/-- The bounds of every range of an `extensions` or `reserved` statement of a message. -/
def rangeRules : NodeChecks where
  field _ _ := True
  group _ _ := True
  mapField _ := True
  extensions r := ∀ x ∈ r.ranges, x.Bounded
  reserved r := ∀ x ∈ r.kind.numberRanges, x.Bounded

theorem parsedChecks_le_rangeRules (d : Dialect) : (parsedChecks d).Le rangeRules where
  field _ _ _ := trivial
  group _ _ _ := trivial
  mapField _ _ := trivial
  extensions _ h x hx := NumberRange.bounded_of_within (h.2 x hx)
  reserved _ h x hx := NumberRange.bounded_of_within (h x hx)

/-- In every file the parser returns, every range of an `extensions` or `reserved` statement of a
message, at any depth, has bounds from zero to the largest signed 64-bit integer, and the exclusive
end computed for it is exact unless it is `2 ^ 63`, which wraps around to `-2 ^ 63`. -/
theorem parseSchema_rangeBounds {text : String} {s : SchemaFile} (h : parseSchema text = .ok s) :
    s.Throughout rangeRules :=
  parseSchema_throughout h (parsedChecks_le_rangeRules s.dialect)

def int64MaxRangeText : String :=
  "syntax = \"proto2\";\nmessage M \x7b\n  extensions 9223372036854775807;\n\x7d\n"

theorem parseSchema_rangeBounds_int64Max :
    ∃ s, parseSchema int64MaxRangeText = .ok s ∧ s.Throughout rangeRules := by
  have h : (parseSchema int64MaxRangeText).toOption.isSome = true := by decide +kernel
  obtain ⟨s, hs⟩ := Option.isSome_iff_exists.mp h
  exact ⟨s, Except.eq_ok_iff_toOption.mpr hs, parseSchema_rangeBounds (Except.eq_ok_iff_toOption.mpr hs)⟩

/-- The extension range of the largest signed 64-bit integer is recorded with an exclusive end that
has wrapped around to the smallest, below its start. -/
theorem extensionRange_int64Max_wraps :
    ((parseSchema int64MaxRangeText).toOption.map fun s => s.messages.flatMap fun m => extensionRangesOf m.body) =
      some [(9223372036854775807, -9223372036854775808)] := by
  decide +kernel

end ProtoSchema
