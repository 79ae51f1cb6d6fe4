import Mathlib
import ProtoSchema.Source.Lexer
import ProtoSchema.Compile.DefaultValue
import ProtoSchema.Proofs.Text.Utf8

/-!
Default values as descriptors write them. An integer default is checked against the range of its
field's type by comparing magnitudes, which is exact at both limits of every type, negative zero
included (`defaultValueText_int_exact`). A bytes default is written with C escapes, and the token
reader reads such text back between quotes of either kind: each escape gives back its byte, an
octal escape takes exactly its three digits whatever follows it, and the literal ends at the
closing quote (`Lexer.lexToken_quoted_cEscape`).
-/

namespace ProtoSchema

/-! ### Integer defaults -/

def literalValue (negative : Bool) (magnitude : Nat) : Int :=
  if negative then -(magnitude : Int) else magnitude

def FieldType.signedRange? : FieldType → Option (Int × Int)
  | .int32 | .sint32 | .sfixed32 => some (-2 ^ 31, 2 ^ 31 - 1)
  | .int64 | .sint64 | .sfixed64 => some (-2 ^ 63, 2 ^ 63 - 1)
  | _ => none

def FieldType.unsignedMax? : FieldType → Option Nat
  | .uint32 | .fixed32 => some (2 ^ 32 - 1)
  | .uint64 | .fixed64 => some (2 ^ 64 - 1)
  | _ => none

theorem wrapInt64_of_le {v : Int} (hlo : -2 ^ 63 ≤ v) (hhi : v ≤ 2 ^ 63 - 1) : wrapInt64 v = v := by
  show (v + 2 ^ 63) % 2 ^ 64 - 2 ^ 63 = v
  omega

theorem signedDefault_int {bits : Nat} (hbits : bits ≤ 64) (negative : Bool) (m : Nat) :
    signedDefault bits (.int negative m) =
      if -(2 ^ (bits - 1) : Int) ≤ literalValue negative m ∧ literalValue negative m ≤ 2 ^ (bits - 1) - 1
      then .ok (toString (literalValue negative m)) else .error "Integer out of range." := by
  unfold signedDefault literalValue
  -- the code compares magnitudes with the natural number `2 ^ (bits - 1)`, at most `2 ^ 63`
  obtain ⟨p, hp⟩ : ∃ p, Nat.pow 2 (bits - 1) = p := ⟨_, rfl⟩
  have hpos : 0 < p := hp ▸ Nat.two_pow_pos _
  have hle : p ≤ 2 ^ 63 := hp ▸ Nat.pow_le_pow_right (by decide) (by omega)
  have hcast : (2 : Int) ^ (bits - 1) = p := by rw [← hp]; simp
  rw [hp, hcast]
  cases negative with
  | false => simp only [↓reduceIte, Bool.false_eq_true]; split_ifs <;> first | rfl | omega
  | true =>
    simp only [↓reduceIte]
    split_ifs with hgt hin hin
    · omega
    · rfl
    · rw [wrapInt64_of_le (by omega) (by omega)]
    · omega

theorem unsignedDefault_int (bits : Nat) (negative : Bool) (m : Nat) :
    unsignedDefault bits (.int negative m) =
      if negative then .error "Unsigned field can\x27t have negative default value."
      else if m ≤ 2 ^ bits - 1 then .ok (toString m) else .error "Integer out of range." := by
  cases negative <;> simp only [unsignedDefault, Nat.pow_eq, ↓reduceIte, Bool.false_eq_true]
  split_ifs <;> first | rfl | omega

/-- Integer defaults are exact at the limits of every integer field type: a signed default is the
literal's value exactly when it lies in the type's range, and an unsigned default is the literal's
magnitude exactly when the literal has no minus sign and the magnitude is at most the type's
maximum. -/
theorem defaultValueText_int_exact (ty : FieldType) (negative : Bool) (m : Nat)
    (enumValues : Option (List String)) :
    (∀ lo hi, ty.signedRange? = some (lo, hi) →
      defaultValueText ty (.int negative m) enumValues =
        if lo ≤ literalValue negative m ∧ literalValue negative m ≤ hi then
          .ok (toString (literalValue negative m))
        else .error "Integer out of range.") ∧
    (∀ hi, ty.unsignedMax? = some hi →
      defaultValueText ty (.int negative m) enumValues =
        if negative then .error "Unsigned field can\x27t have negative default value."
        else if m ≤ hi then .ok (toString m) else .error "Integer out of range.") := by
  constructor
  · intro lo hi h
    cases ty <;> simp only [FieldType.signedRange?, reduceCtorEq, Option.some.injEq, Prod.mk.injEq] at h <;>
      obtain ⟨rfl, rfl⟩ := h <;>
      simp only [defaultValueText, signedDefault_int (by decide : 32 ≤ 64), signedDefault_int (le_refl 64)]
  · intro hi h
    cases ty <;> simp only [FieldType.unsignedMax?, reduceCtorEq, Option.some.injEq] at h <;>
      subst h <;> simp only [defaultValueText, unsignedDefault_int]

/-- The least 64-bit value, written `-9223372036854775808`, is a valid `int64` default. -/
theorem defaultValueText_int64_min :
    FieldType.int64.signedRange? = some (-2 ^ 63, 2 ^ 63 - 1) ∧
      defaultValueText .int64 (.int true (2 ^ 63)) none = .ok "-9223372036854775808" :=
  ⟨rfl, by rw [(defaultValueText_int_exact .int64 true (2 ^ 63) none).1 _ _ rfl]; decide⟩

/-! ### Bytes defaults read back -/

def IsQuote (q : Char) : Prop := q = '"' ∨ q = '\x27'

theorem toUInt8_eq_of_toNat {b : UInt8} {n : Nat} (h : b.toNat = n) : n.toUInt8 = b := by
  subst h
  exact UInt8.ofNat_toNat

theorem toNat_ofNat_ascii {n : Nat} (h : n < 0x80) : (Char.ofNat n).toNat = n := by
  simp [Char.toNat_ofNat, Nat.isValidChar]
  omega

theorem char_le_iff_toNat {a b : Char} : a ≤ b ↔ a.toNat ≤ b.toNat := by
  rw [Char.le_def, UInt32.le_iff_toNat_le, Char.toNat_val, Char.toNat_val]

namespace Lexer

theorem octalDigit (k : Nat) (hk : k < 8) :
    ('0' ≤ Char.ofNat (48 + k) ∧ Char.ofNat (48 + k) ≤ '7') ∧ hexValue (Char.ofNat (48 + k)) = k := by
  have hc := toNat_ofNat_ascii (show 48 + k < 0x80 by omega)
  simp [char_le_iff_toNat, hexValue, Char.isDigit_iff_toNat, hc]
  omega

theorem stringBody_octal {q : Char} (hq : IsQuote q) {e : Char} (he : 48 ≤ e.toNat ∧ e.toNat ≤ 55)
    (fuel : Nat) (more : List Char) (acc : List UInt8) :
    stringBody q (fuel + 1) ('\\' :: e :: more) acc =
      stringBody q fuel (more.drop (takeDigits (fun d => '0' ≤ d && d ≤ '7') 2 more).length)
        ((digitsValue 8 (e :: takeDigits (fun d => '0' ≤ d && d ≤ '7') 2 more) % 256).toUInt8 :: acc) := by
  have hq1 : '\\' ≠ q := by rcases hq with rfl | rfl <;> decide
  have hne : ∀ c : Char, c.toNat < 48 ∨ 55 < c.toNat → e ≠ c := fun c hc h => by subst h; omega
  have hoct : '0' ≤ e ∧ e ≤ '7' := by simp [char_le_iff_toNat]; omega
  rw [stringBody]
  simp [hq1, hne 'a' (by decide), hne 'b' (by decide), hne 'f' (by decide), hne 'n' (by decide),
    hne 'r' (by decide), hne 't' (by decide), hne 'v' (by decide), hne '\\' (by decide),
    hne '\x27' (by decide), hne '"' (by decide), hne '?' (by decide), hoct]

theorem stringBody_octalEscape {q : Char} (hq : IsQuote q) {n : Nat} (hn : n < 256) (fuel : Nat)
    (rest : List Char) (acc : List UInt8) :
    stringBody q (fuel + 1) (octalEscape n ++ rest) acc = stringBody q fuel rest (n.toUInt8 :: acc) := by
  obtain ⟨-, v1⟩ := octalDigit (n / 64 % 8) (Nat.mod_lt _ (by omega))
  obtain ⟨⟨h2, h2'⟩, v2⟩ := octalDigit (n / 8 % 8) (Nat.mod_lt _ (by omega))
  obtain ⟨⟨h3, h3'⟩, v3⟩ := octalDigit (n % 8) (Nat.mod_lt _ (by omega))
  have he := toNat_ofNat_ascii (show 48 + n / 64 % 8 < 0x80 by omega)
  simp only [octalEscape, List.cons_append, List.nil_append]
  rw [stringBody_octal hq (by omega)]
  have htake : takeDigits (fun d => '0' ≤ d && d ≤ '7') 2
      (Char.ofNat (48 + n / 8 % 8) :: Char.ofNat (48 + n % 8) :: rest) =
        [Char.ofNat (48 + n / 8 % 8), Char.ofNat (48 + n % 8)] := by
    simp [takeDigits, h2, h2', h3, h3']
  rw [htake]
  simp only [digitsValue, List.foldl_cons, List.foldl_nil, v1, v2, v3, List.length_cons,
    List.length_nil, List.drop_succ_cons, List.drop_zero]
  congr 3
  omega

theorem stringBody_plain {q c : Char} (hc : c.toNat < 0x80) (hnl : c ≠ '\n') (hcq : c ≠ q)
    (hbs : c ≠ '\\') (fuel : Nat) (rest : List Char) (acc : List UInt8) :
    stringBody q (fuel + 1) (c :: rest) acc = stringBody q fuel rest (c.toNat.toUInt8 :: acc) := by
  rw [stringBody.eq_def]
  simp [hnl, hcq, hbs, Utf8.encodeChar, hc]

theorem stringBody_cEscapeByte {q : Char} (hq : IsQuote q) (fuel : Nat) (b : UInt8)
    (rest : List Char) (acc : List UInt8) :
    stringBody q (fuel + 1) (cEscapeByte b ++ rest) acc = stringBody q fuel rest (b :: acc) := by
  have hb := b.toNat_lt
  have hq1 : '\\' ≠ q := by rcases hq with rfl | rfl <;> decide
  unfold cEscapeByte
  split
  case h_1 h | h_2 h | h_3 h | h_4 h | h_5 h | h_6 h =>
    simp [stringBody, hq1, toUInt8_eq_of_toNat h]
  case h_7 n h10 h13 h9 h34 h39 h92 =>
    split
    · -- printable ASCII other than the quotes and the backslash stands for itself
      rename_i hp
      have hc := toNat_ofNat_ascii (show b.toNat < 0x80 by omega)
      have hcq : Char.ofNat b.toNat ≠ q := by
        rintro rfl
        rcases hq with h | h
        · exact h34 (hc ▸ congrArg Char.toNat h)
        · exact h39 (hc ▸ congrArg Char.toNat h)
      rw [List.singleton_append, stringBody_plain (by omega) (by rw [Ne, ← Char.toNat_inj, hc]; exact h10)
        hcq (by rw [Ne, ← Char.toNat_inj, hc]; exact h92), hc, toUInt8_eq_of_toNat rfl]
    · rw [stringBody_octalEscape hq hb fuel rest acc, toUInt8_eq_of_toNat rfl]

theorem length_le_escaped (bs : List UInt8) : bs.length ≤ (bs.flatMap cEscapeByte).length := by
  induction bs with
  | nil => simp
  | cons b bs ih =>
    have hb : 1 ≤ (cEscapeByte b).length := by
      unfold cEscapeByte octalEscape
      split <;> (try split) <;> simp
    simp only [List.flatMap_cons, List.length_append, List.length_cons]
    omega

theorem stringBody_escaped {q : Char} (hq : IsQuote q) (suffix : List Char) :
    ∀ (bs : List UInt8) (fuel : Nat) (acc : List UInt8), bs.length < fuel →
      stringBody q fuel (bs.flatMap cEscapeByte ++ q :: suffix) acc = .ok (acc.reverse ++ bs, suffix)
  | [], fuel + 1, acc, _ => by
    have hnl : q ≠ '\n' := by rcases hq with rfl | rfl <;> decide
    rw [stringBody.eq_def]
    simp [hnl]
  | b :: bs, fuel + 1, acc, hlen => by
    rw [List.flatMap_cons, List.append_assoc, stringBody_cEscapeByte hq,
      stringBody_escaped hq suffix bs fuel (b :: acc) (by simp at hlen; omega)]
    simp

theorem lexToken_quote {q : Char} (hq : IsQuote q) {rest after : List Char} {bytes : List UInt8}
    (h : stringBody q (rest.length + 1) rest [] = .ok (bytes, after)) :
    lexToken (q :: rest) = .ok (.str bytes, consumedBefore (q :: rest) after) := by
  rcases hq with rfl | rfl <;> simp [lexToken, isIdentStart, floatPrefix, h]

theorem consumedBefore_append (consumed after : List Char) :
    consumedBefore (consumed ++ after) after = consumed := by
  simp [consumedBefore]

/-- C escapes are undone by the token reader: between quotes of either kind, followed by any
text, the escaped bytes read as one string token of exactly those bytes, spanning the quoted
text and nothing after it. -/
theorem lexToken_quoted_cEscape {q : Char} (hq : IsQuote q) (bs : List UInt8) (suffix : List Char) :
    lexToken (q :: (cEscape bs).toList ++ q :: suffix) = .ok (.str bs, q :: (cEscape bs).toList ++ [q]) := by
  have hbody := stringBody_escaped hq suffix bs ((bs.flatMap cEscapeByte ++ q :: suffix).length + 1) []
    (by have := length_le_escaped bs; simp only [List.length_append, List.length_cons]; omega)
  rw [List.reverse_nil, List.nil_append] at hbody
  simp only [cEscape, String.toList_ofList, List.cons_append]
  rw [lexToken_quote hq hbody]
  have hsplit : q :: (bs.flatMap cEscapeByte ++ q :: suffix) = (q :: (bs.flatMap cEscapeByte ++ [q])) ++ suffix := by
    simp
  rw [hsplit, consumedBefore_append]

/-- The byte `0xff` is written `\377`, and the digit `8` after it is not taken into the escape. -/
theorem lexToken_quoted_cEscape_octalBeforeDigit :
    IsQuote '\x27' ∧
      lexToken ('\x27' :: (cEscape [0xff, 0x38]).toList ++ '\x27' :: ['1']) =
        .ok (.str [0xff, 0x38], '\x27' :: (cEscape [0xff, 0x38]).toList ++ ['\x27']) :=
  ⟨Or.inr rfl, lexToken_quoted_cEscape (Or.inr rfl) [0xff, 0x38] ['1']⟩

end Lexer

end ProtoSchema
