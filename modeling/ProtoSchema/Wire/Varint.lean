/-!
Base-128 varints: seven bits per byte, least significant group first, the
high bit set on every byte but the last. Reading accepts at most ten bytes,
the tenth carrying only the top bit of a 64-bit value.

Main definitions: `Varint.encode` and `Varint.decode`.
-/

namespace ProtoSchema

/-- Why bytes are not a well-formed protobuf encoding. -/
inductive WireError where
  /-- The input ended inside a value. -/
  | truncated
  /-- A varint longer than ten bytes, or one that overflows 64 bits. -/
  | badVarint
  /-- A key whose wire type is not one of the six, or whose field number is zero or too large. -/
  | badKey
  /-- A known field arrived with a wire type other than its own. -/
  | wrongWireType
  /-- A string field that is not UTF-8. -/
  | badUtf8
  /-- A group end that does not match its start. -/
  | badGroup
  /-- Messages nested deeper than the decoder allows. -/
  | tooDeep
  deriving DecidableEq, Repr, Inhabited

namespace Varint

/-- The varint bytes of a natural number below `2 ^ 64`. -/
def encode (n : Nat) : List UInt8 :=
  if n < 128 then [n.toUInt8] else (n % 128 + 128).toUInt8 :: encode (n / 128)

def decodeFrom (count acc : Nat) : List UInt8 → Except WireError (Nat × List UInt8)
  | [] => .error .truncated
  | b :: rest =>
    let v := acc + (b.toNat % 128) * Nat.pow 2 (7 * count)
    if b.toNat < 128 then
      if count = 9 ∧ b.toNat ≥ 2 then .error .badVarint else .ok (v, rest)
    else if count = 9 then .error .badVarint
    else decodeFrom (count + 1) v rest

/-- Read a varint at the front of the bytes: its value and the bytes after it. -/
def decode (bs : List UInt8) : Except WireError (Nat × List UInt8) := decodeFrom 0 0 bs

end Varint

end ProtoSchema
