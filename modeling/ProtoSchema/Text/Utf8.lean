/-!
UTF-8: encoding characters as bytes, and reading bytes back either strictly
or with each ill-formed piece replaced by U+FFFD. An ill-formed piece is a
maximal prefix of a well-formed sequence, or a single byte that starts none,
as the Unicode standard recommends for replacement.

Main definitions: `Utf8.encode`, `Utf8.decode?`, `Utf8.decodeLossy`.
-/

namespace ProtoSchema

namespace Utf8

def encodeChar (c : Char) : List UInt8 :=
  let n := c.toNat
  if n < 0x80 then [n.toUInt8]
  else if n < 0x800 then [(0xc0 + n / 64).toUInt8, (0x80 + n % 64).toUInt8]
  else if n < 0x10000 then
    [(0xe0 + n / 4096).toUInt8, (0x80 + (n / 64) % 64).toUInt8, (0x80 + n % 64).toUInt8]
  else
    [(0xf0 + n / 262144).toUInt8, (0x80 + (n / 4096) % 64).toUInt8,
     (0x80 + (n / 64) % 64).toUInt8, (0x80 + n % 64).toUInt8]

/-- The UTF-8 bytes of a string. -/
def encode (s : String) : List UInt8 := s.toList.flatMap encodeChar

/-- One piece of decoded input: a character, or an ill-formed piece. -/
inductive Piece where
  | char (c : Char)
  | bad
  deriving DecidableEq, Repr

def isCont (b : UInt8) : Bool := 0x80 ≤ b.toNat && b.toNat ≤ 0xbf

def leadWidth (b : Nat) : Nat :=
  if b < 0x80 then 1
  else if 0xc2 ≤ b ∧ b ≤ 0xdf then 2
  else if 0xe0 ≤ b ∧ b ≤ 0xef then 3
  else if 0xf0 ≤ b ∧ b ≤ 0xf4 then 4
  else 0

def secondOk (b c : Nat) : Bool :=
  if b = 0xe0 then 0xa0 ≤ c && c ≤ 0xbf
  else if b = 0xed then 0x80 ≤ c && c ≤ 0x9f
  else if b = 0xf0 then 0x90 ≤ c && c ≤ 0xbf
  else if b = 0xf4 then 0x80 ≤ c && c ≤ 0x8f
  else 0x80 ≤ c && c ≤ 0xbf

def pieces : List UInt8 → List Piece
  | [] => []
  | b :: rest =>
    let n := b.toNat
    let w := leadWidth n
    if w = 1 then .char (Char.ofNat n) :: pieces rest
    else if w = 0 then .bad :: pieces rest
    else match h1 : rest with
      | [] => [.bad]
      | c1 :: rest1 =>
        if !secondOk n c1.toNat then .bad :: pieces rest
        else if w = 2 then
          .char (Char.ofNat ((n % 32) * 64 + c1.toNat % 64)) :: pieces rest1
        else match h2 : rest1 with
          | [] => [.bad]
          | c2 :: rest2 =>
            if !isCont c2 then .bad :: pieces rest1
            else if w = 3 then
              .char (Char.ofNat ((n % 16) * 4096 + (c1.toNat % 64) * 64 + c2.toNat % 64)) ::
                pieces rest2
            else match h3 : rest2 with
              | [] => [.bad]
              | c3 :: rest3 =>
                if !isCont c3 then .bad :: pieces rest2
                else .char (Char.ofNat ((n % 8) * 262144 + (c1.toNat % 64) * 4096 +
                    (c2.toNat % 64) * 64 + c3.toNat % 64)) :: pieces rest3
termination_by bs => bs.length
decreasing_by all_goals simp_all <;> omega

def decodeChars? (bs : List UInt8) : Option (List Char) :=
  (pieces bs).mapM fun
    | .char c => some c
    | .bad => none

/-- The string of well-formed UTF-8, or `none`. -/
def decode? (bs : List UInt8) : Option String := (decodeChars? bs).map String.ofList

/-- The string of any bytes, each ill-formed piece read as U+FFFD. -/
def decodeLossy (bs : List UInt8) : String :=
  String.ofList ((pieces bs).map fun
    | .char c => c
    | .bad => '�')

end Utf8

end ProtoSchema
