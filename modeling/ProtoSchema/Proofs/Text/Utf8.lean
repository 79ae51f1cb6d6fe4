import Mathlib
import ProtoSchema.Text.Utf8

/-!
Strings read back from their UTF-8 bytes. The bytes of one character are cut
back into that character, whatever follows them: the lead byte announces the
width, the second byte passes the range check that excludes overlong forms,
surrogates and values beyond U+10FFFF, because the character is a valid code
point, and the bits put back together are its code point.

Main statement: `decode?_encode`.
-/

namespace ProtoSchema

theorem toNat_toUInt8_of_lt {n : Nat} (h : n < 256) : n.toUInt8.toNat = n :=
  UInt8.toNat_ofNat_of_lt' h

namespace Utf8

/-! ### The cutter on well-formed sequences, one equation per width -/

theorem pieces_one {b : UInt8} (hw : leadWidth b.toNat = 1) (rest : List UInt8) :
    pieces (b :: rest) = .char (Char.ofNat b.toNat) :: pieces rest := by
  rw [pieces.eq_def]
  simp [hw]

theorem pieces_two {b c1 : UInt8} (hw : leadWidth b.toNat = 2)
    (hs : secondOk b.toNat c1.toNat = true) (rest : List UInt8) :
    pieces (b :: c1 :: rest) =
      .char (Char.ofNat (b.toNat % 32 * 64 + c1.toNat % 64)) :: pieces rest := by
  rw [pieces.eq_def]
  simp [hw, hs]

theorem pieces_three {b c1 c2 : UInt8} (hw : leadWidth b.toNat = 3)
    (hs : secondOk b.toNat c1.toNat = true) (h2 : isCont c2 = true) (rest : List UInt8) :
    pieces (b :: c1 :: c2 :: rest) =
      .char (Char.ofNat (b.toNat % 16 * 4096 + c1.toNat % 64 * 64 + c2.toNat % 64)) ::
        pieces rest := by
  rw [pieces.eq_def]
  simp [hw, hs, h2]

theorem pieces_four {b c1 c2 c3 : UInt8} (hw : leadWidth b.toNat = 4)
    (hs : secondOk b.toNat c1.toNat = true) (h2 : isCont c2 = true) (h3 : isCont c3 = true)
    (rest : List UInt8) :
    pieces (b :: c1 :: c2 :: c3 :: rest) =
      .char (Char.ofNat (b.toNat % 8 * 262144 + c1.toNat % 64 * 4096 + c2.toNat % 64 * 64 +
        c3.toNat % 64)) :: pieces rest := by
  rw [pieces.eq_def]
  simp [hw, hs, h2, h3]

/-! ### Characters and strings -/

theorem pieces_encodeChar_append (c : Char) (rest : List UInt8) :
    pieces (encodeChar c ++ rest) = .char c :: pieces rest := by
  have hc : c.toNat < 0xd800 ∨ (0xdfff < c.toNat ∧ c.toNat < 0x110000) := c.valid
  -- in each of the four widths the bits put back together are the code point
  conv_rhs => rw [← Char.ofNat_toNat c]
  by_cases h1 : c.toNat < 0x80
  · have hb : c.toNat.toUInt8.toNat = c.toNat := toNat_toUInt8_of_lt (by omega)
    rw [encodeChar, if_pos h1, List.singleton_append,
      pieces_one (by rw [hb]; unfold leadWidth; rw [if_pos h1]), hb]
  by_cases h2 : c.toNat < 0x800
  · have hb0 : (0xc0 + c.toNat / 64).toUInt8.toNat = 0xc0 + c.toNat / 64 :=
      toNat_toUInt8_of_lt (by omega)
    have hb1 : (0x80 + c.toNat % 64).toUInt8.toNat = 0x80 + c.toNat % 64 :=
      toNat_toUInt8_of_lt (by omega)
    rw [encodeChar, if_neg h1, if_pos h2, List.cons_append, List.cons_append, List.nil_append,
      pieces_two (by rw [hb0]; unfold leadWidth; split_ifs <;> omega)
        (by rw [hb0, hb1]; unfold secondOk; split_ifs <;> simp <;> omega), hb0, hb1]
    congr 3
    omega
  by_cases h3 : c.toNat < 0x10000
  · have hb0 : (0xe0 + c.toNat / 4096).toUInt8.toNat = 0xe0 + c.toNat / 4096 :=
      toNat_toUInt8_of_lt (by omega)
    have hb1 : (0x80 + c.toNat / 64 % 64).toUInt8.toNat = 0x80 + c.toNat / 64 % 64 :=
      toNat_toUInt8_of_lt (by omega)
    have hb2 : (0x80 + c.toNat % 64).toUInt8.toNat = 0x80 + c.toNat % 64 :=
      toNat_toUInt8_of_lt (by omega)
    rw [encodeChar, if_neg h1, if_neg h2, if_pos h3, List.cons_append, List.cons_append,
      List.cons_append, List.nil_append,
      pieces_three (by rw [hb0]; unfold leadWidth; split_ifs <;> omega)
        (by rw [hb0, hb1]; unfold secondOk; split_ifs <;> simp <;> omega)
        (by rw [isCont, hb2]; simp; omega), hb0, hb1, hb2]
    congr 3
    omega
  · have hb0 : (0xf0 + c.toNat / 262144).toUInt8.toNat = 0xf0 + c.toNat / 262144 :=
      toNat_toUInt8_of_lt (by omega)
    have hb1 : (0x80 + c.toNat / 4096 % 64).toUInt8.toNat = 0x80 + c.toNat / 4096 % 64 :=
      toNat_toUInt8_of_lt (by omega)
    have hb2 : (0x80 + c.toNat / 64 % 64).toUInt8.toNat = 0x80 + c.toNat / 64 % 64 :=
      toNat_toUInt8_of_lt (by omega)
    have hb3 : (0x80 + c.toNat % 64).toUInt8.toNat = 0x80 + c.toNat % 64 :=
      toNat_toUInt8_of_lt (by omega)
    rw [encodeChar, if_neg h1, if_neg h2, if_neg h3, List.cons_append, List.cons_append,
      List.cons_append, List.cons_append, List.nil_append,
      pieces_four (by rw [hb0]; unfold leadWidth; split_ifs <;> omega)
        (by rw [hb0, hb1]; unfold secondOk; split_ifs <;> simp <;> omega)
        (by rw [isCont, hb2]; simp; omega) (by rw [isCont, hb3]; simp; omega), hb0, hb1, hb2, hb3]
    congr 3
    omega

theorem pieces_encode (cs : List Char) : pieces (cs.flatMap encodeChar) = cs.map .char := by
  induction cs with
  | nil => simp [pieces.eq_def]
  | cons c cs ih => rw [List.flatMap_cons, pieces_encodeChar_append, ih, List.map_cons]

/-- Strings read back from their UTF-8 bytes. -/
theorem decode?_encode (s : String) : decode? (encode s) = some s := by
  rw [decode?, decodeChars?, encode, pieces_encode, List.mapM_map]
  show Option.map String.ofList (s.toList.mapM (pure : Char → Option Char)) = some s
  rw [List.mapM_pure]
  simp

end Utf8

end ProtoSchema
