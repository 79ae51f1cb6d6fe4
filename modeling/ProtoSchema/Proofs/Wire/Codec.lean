import Mathlib
import ProtoSchema.Wire.Field
import ProtoSchema.Proofs.Text.Utf8

/-!
Every value the writers put on the wire reads back, with the bytes after it
untouched: varints below `2 ^ 64`, keys of field numbers from 1 to `2 ^ 29 - 1`,
length-delimited payloads shorter than `2 ^ 64` bytes, strings, booleans,
integers in the range of their width, doubles bit for bit, and packed runs of
`int32` values. A field of unknown number written the same way is skipped.

These are the leaf facts of the descriptor codec; `Proofs/Wire/Fields` puts
them together field by field.
-/

namespace ProtoSchema

/-! ### Varints -/

namespace Varint

theorem encode_of_lt {n : Nat} (h : n < 128) : encode n = [n.toUInt8] := by
  rw [encode, if_pos h]

theorem encode_of_le {n : Nat} (h : 128 ≤ n) :
    encode n = (n % 128 + 128).toUInt8 :: encode (n / 128) := by
  rw [encode, if_neg (by omega)]

theorem encode_ne_nil (n : Nat) : encode n ≠ [] := by
  rw [encode]
  split <;> simp

theorem decodeFrom_encode_append (n : Nat) :
    ∀ (count acc : Nat) (rest : List UInt8), count ≤ 9 → n < 2 ^ (64 - 7 * count) →
      decodeFrom count acc (encode n ++ rest) = .ok (acc + n * 2 ^ (7 * count), rest) := by
  induction n using Nat.strongRecOn with
  | ind n ih =>
    intro count acc rest hc hn
    by_cases hsmall : n < 128
    · -- one byte; on the tenth it carries the top bit only
      have hb : n.toUInt8.toNat = n := toNat_toUInt8_of_lt (by omega)
      have hlast : ¬(count = 9 ∧ n ≥ 2) := by
        rintro ⟨rfl, h2⟩
        norm_num at hn
        omega
      rw [encode_of_lt hsmall]
      simp only [List.singleton_append, decodeFrom, hb, if_pos hsmall, if_neg hlast,
        Nat.mod_eq_of_lt hsmall, Nat.pow_eq]
    · -- a continued byte, never the tenth
      have hb : (n % 128 + 128).toUInt8.toNat = n % 128 + 128 :=
        toNat_toUInt8_of_lt (by omega)
      have hc9 : count ≠ 9 := by
        rintro rfl
        norm_num at hn
        omega
      have hpow : 2 ^ (64 - 7 * count) = 2 ^ (64 - 7 * (count + 1)) * 128 := by
        rw [show 64 - 7 * count = 64 - 7 * (count + 1) + 7 by omega, pow_add]
        norm_num
      have hnext := ih (n / 128) (by omega) (count + 1) (acc + n % 128 * 2 ^ (7 * count)) rest
        (by omega) (by omega)
      rw [encode_of_le (by omega), List.cons_append, decodeFrom, hb]
      simp only [show ¬(n % 128 + 128 < 128) by omega, if_false, if_neg hc9, Nat.pow_eq,
        Nat.add_mod_right, Nat.mod_mod, hnext]
      have hsplit : n = n % 128 + 128 * (n / 128) := (Nat.mod_add_div n 128).symm
      congr 2
      conv_rhs => rw [hsplit]
      rw [show 7 * (count + 1) = 7 * count + 7 by omega, pow_add]
      ring

theorem decode_encode_append {n : Nat} (h : n < 2 ^ 64) (rest : List UInt8) :
    decode (encode n ++ rest) = .ok (n, rest) := by
  have := decodeFrom_encode_append n 0 0 rest (by omega) (by simpa using h)
  simpa [decode] using this

end Varint

namespace WireType

theorem ofCode?_code (wt : WireType) : ofCode? wt.code = some wt := by
  cases wt <;> rfl

theorem code_lt (wt : WireType) : wt.code < 8 := by
  cases wt <;> decide

end WireType

namespace Wire

/-! ### Keys and length-delimited payloads -/

theorem key_ne_nil (tag : Nat) (wt : WireType) : key tag wt ≠ [] := Varint.encode_ne_nil _

theorem readKey_key_append {tag : Nat} (h0 : 0 < tag) (h1 : tag < 2 ^ 29) (wt : WireType)
    (rest : List UInt8) : readKey (key tag wt ++ rest) = .ok ((tag, wt), rest) := by
  have hc := wt.code_lt
  have hk : tag * 8 + wt.code < 2 ^ 64 := by omega
  have hmod : (tag * 8 + wt.code) % 8 = wt.code := by omega
  have hdiv : (tag * 8 + wt.code) / 8 = tag := by omega
  simp only [readKey, key, Varint.decode_encode_append hk, bind, Except.bind, hmod,
    WireType.ofCode?_code, hdiv, Nat.pow_eq]
  rw [if_neg (by omega), if_neg (by omega)]
  rfl

theorem take_append (b rest : List UInt8) : take b.length (b ++ rest) = .ok (b, rest) := by
  simp [take]

theorem readLen_append {b : List UInt8} (h : b.length < 2 ^ 64) (rest : List UInt8) :
    readLen (Varint.encode b.length ++ b ++ rest) = .ok (b, rest) := by
  simp only [readLen, List.append_assoc, Varint.decode_encode_append h, bind, Except.bind,
    take_append]

/-! ### Signed integers and little-endian words -/

theorem int_pow_two_64 : Int.pow 2 64 = 2 ^ 64 := rfl

theorem toSigned_ofSigned_32 {v : Int} (h : -2 ^ 31 ≤ v ∧ v < 2 ^ 31) :
    toSigned 32 (ofSigned v) = v := by
  simp only [toSigned, ofSigned, Nat.pow_eq, int_pow_two_64]
  split_ifs <;> omega

theorem toSigned_ofSigned_64 {v : Int} (h : -2 ^ 63 ≤ v ∧ v < 2 ^ 63) :
    toSigned 64 (ofSigned v) = v := by
  simp only [toSigned, ofSigned, Nat.pow_eq, int_pow_two_64]
  split_ifs <;> omega

theorem ofSigned_lt (v : Int) : ofSigned v < 2 ^ 64 := by
  simp only [ofSigned, int_pow_two_64]
  omega

theorem littleEndian_bytes (x n : Nat) :
    littleEndian ((List.range n).map fun i => ((x / Nat.pow 256 i) % 256).toUInt8) =
      x % 256 ^ n := by
  induction n generalizing x with
  | zero => simp [littleEndian, Nat.mod_one]
  | succ n ih =>
    have hhigh : ((List.range n).map ((fun i => ((x / Nat.pow 256 i) % 256).toUInt8) ∘ Nat.succ)) =
        (List.range n).map fun i => ((x / 256 / Nat.pow 256 i) % 256).toUInt8 := by
      refine List.map_congr_left fun i _ => ?_
      simp only [Function.comp, Nat.pow_eq, Nat.div_div_eq_div_mul, pow_succ']
    have hlow : (((x / Nat.pow 256 0) % 256).toUInt8).toNat = x % 256 := by
      simp
    rw [List.range_succ_eq_map, List.map_cons, List.map_map, hhigh]
    simp only [littleEndian, List.foldr_cons] at ih ⊢
    rw [hlow, ih, pow_succ', Nat.mod_mul]


/-! ### Reading back each kind of value -/

theorem readVarint_append {n : Nat} (h : n < 2 ^ 64) (rest : List UInt8) :
    readVarint .varint (Varint.encode n ++ rest) = .ok (n, rest) := by
  simp only [readVarint, expect]
  exact Varint.decode_encode_append h rest

theorem readBool_append (b : Bool) (rest : List UInt8) :
    readBool .varint (Varint.encode (if b then 1 else 0) ++ rest) = .ok (b, rest) := by
  cases b <;> simp [readBool, readVarint_append, bind, Except.bind, pure, Except.pure]

theorem readInt32_append {v : Int} (h : -2 ^ 31 ≤ v ∧ v < 2 ^ 31) (rest : List UInt8) :
    readInt32 .varint (Varint.encode (ofSigned v) ++ rest) = .ok (v, rest) := by
  simp [readInt32, readVarint_append (ofSigned_lt v), bind, Except.bind, pure, Except.pure,
    toSigned_ofSigned_32 h]

theorem readInt64_append {v : Int} (h : -2 ^ 63 ≤ v ∧ v < 2 ^ 63) (rest : List UInt8) :
    readInt64 .varint (Varint.encode (ofSigned v) ++ rest) = .ok (v, rest) := by
  simp [readInt64, readVarint_append (ofSigned_lt v), bind, Except.bind, pure, Except.pure,
    toSigned_ofSigned_64 h]

theorem readBytes_append {b : List UInt8} (h : b.length < 2 ^ 64) (rest : List UInt8) :
    readBytes .len (Varint.encode b.length ++ b ++ rest) = .ok (b, rest) := by
  simp only [readBytes, expect]
  exact readLen_append h rest

theorem readString_append {s : String} (h : (Utf8.encode s).length < 2 ^ 64) (rest : List UInt8) :
    readString .len (Varint.encode (Utf8.encode s).length ++ Utf8.encode s ++ rest) =
      .ok (s, rest) := by
  simp only [readString, bind, Except.bind]
  rw [readBytes_append h]
  simp only [Utf8.decode?_encode]
  rfl

theorem readDouble_append (x : Binary64) (rest : List UInt8) :
    readDouble .fixed64
        ((List.range 8).map (fun i => ((x.bits.toNat / Nat.pow 256 i) % 256).toUInt8) ++ rest) =
      .ok (x, rest) := by
  set bytes := (List.range 8).map fun i => ((x.bits.toNat / Nat.pow 256 i) % 256).toUInt8
    with hbytes
  have hlen : bytes.length = 8 := by simp [hbytes]
  have htake : take 8 (bytes ++ rest) = .ok (bytes, rest) := hlen ▸ take_append bytes rest
  have hbits : (littleEndian bytes).toUInt64 = x.bits := by
    rw [hbytes, littleEndian_bytes, Nat.mod_eq_of_lt (by simpa using x.bits.toNat_lt)]
    exact UInt64.ofNat_toNat
  simp only [readDouble, expect, bind, Except.bind, htake, hbits]
  rfl

theorem length_le_flatMap_encode (ns : List Nat) :
    ns.length ≤ (ns.flatMap Varint.encode).length := by
  induction ns with
  | nil => simp
  | cons n ns ih =>
    have := Varint.encode_ne_nil n
    rw [List.flatMap_cons, List.length_append, List.length_cons]
    have : 0 < (Varint.encode n).length := List.length_pos_iff.mpr this
    omega

theorem varintsOf_flatMap_encode {ns : List Nat} (h : ∀ n ∈ ns, n < 2 ^ 64) :
    ∀ fuel, ns.length ≤ fuel → varintsOf fuel (ns.flatMap Varint.encode) = .ok ns := by
  induction ns with
  | nil => intro fuel _; cases fuel <;> rfl
  | cons n ns ih =>
    intro fuel hfuel
    obtain ⟨fuel, rfl⟩ : ∃ f, fuel = f + 1 := ⟨fuel - 1, by simp at hfuel; omega⟩
    have hne : (Varint.encode n ++ ns.flatMap Varint.encode).isEmpty = false := by
      cases hc : Varint.encode n with
      | nil => exact absurd hc (Varint.encode_ne_nil n)
      | cons => rfl
    rw [List.flatMap_cons, varintsOf, hne]
    simp only [Bool.false_eq_true, if_false, bind, Except.bind,
      Varint.decode_encode_append (h n List.mem_cons_self),
      ih (fun m hm => h m (List.mem_cons_of_mem _ hm)) fuel (by simp at hfuel; omega)]
    rfl

theorem readRepeatedInt32_varint {v : Int} (h : -2 ^ 31 ≤ v ∧ v < 2 ^ 31) (rest : List UInt8) :
    readRepeatedInt32 .varint (Varint.encode (ofSigned v) ++ rest) = .ok ([v], rest) := by
  simp only [readRepeatedInt32, reduceCtorEq, if_false, bind, Except.bind, readInt32_append h]
  rfl

theorem readRepeatedInt32_packed {vs : List Int} (h : ∀ v ∈ vs, -2 ^ 31 ≤ v ∧ v < 2 ^ 31)
    (hlen : ((vs.map ofSigned).flatMap Varint.encode).length < 2 ^ 64) (rest : List UInt8) :
    readRepeatedInt32 .len (Varint.encode ((vs.map ofSigned).flatMap Varint.encode).length ++
      (vs.map ofSigned).flatMap Varint.encode ++ rest) = .ok (vs, rest) := by
  have hvs : varintsOf ((vs.map ofSigned).flatMap Varint.encode).length
      ((vs.map ofSigned).flatMap Varint.encode) = .ok (vs.map ofSigned) :=
    varintsOf_flatMap_encode (by simpa using fun v _ => ofSigned_lt v) _
      (by simpa using length_le_flatMap_encode (vs.map ofSigned))
  have hback : (vs.map ofSigned).map (toSigned 32) = vs := by
    rw [List.map_map]
    exact List.map_congr_left (fun v hv => toSigned_ofSigned_32 (h v hv)) |>.trans (List.map_id vs)
  simp only [readRepeatedInt32, bind, Except.bind, readLen_append hlen, hvs, hback]
  rfl

/-! ### Skipping a field of unknown number -/

theorem skip_len {budget : Nat} (hb : 0 < budget) (tag : Nat) {payload : List UInt8}
    (h : payload.length < 2 ^ 64) (rest : List UInt8) :
    skip budget tag .len (Varint.encode payload.length ++ payload ++ rest) = .ok rest := by
  obtain ⟨b, rfl⟩ : ∃ b, budget = b + 1 := ⟨budget - 1, by omega⟩
  simp only [skip, bind, Except.bind, readLen_append h]
  rfl

theorem skip_varint {budget : Nat} (hb : 0 < budget) (tag : Nat) {n : Nat} (h : n < 2 ^ 64)
    (rest : List UInt8) : skip budget tag .varint (Varint.encode n ++ rest) = .ok rest := by
  obtain ⟨b, rfl⟩ : ∃ b, budget = b + 1 := ⟨budget - 1, by omega⟩
  simp only [skip, bind, Except.bind, Varint.decode_encode_append h]
  rfl

end Wire

end ProtoSchema
