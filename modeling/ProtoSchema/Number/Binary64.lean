/-!
IEEE-754 binary64 numbers held as their 64-bit patterns, with exact reading of
decimal and rational values. Rounding is to the nearest representable value,
a tie going to the even significand, and values at or beyond the top of the
range become infinity.

Main definitions: `Binary64.ofRat`, `Binary64.ofDecimal`, `Binary64.neg`,
`Binary64.decode`, and the hex spelling `Binary64.toHex`.
-/

namespace ProtoSchema

/-- A binary64 number given by its bit pattern: sign, 11 exponent bits, 52 fraction bits. -/
structure Binary64 where
  bits : UInt64
  deriving DecidableEq, Repr, Inhabited

namespace Binary64

def expMask : Nat := 0x7ff

def zero : Binary64 := ⟨0⟩

def inf : Binary64 := ⟨0x7ff0000000000000⟩

def nan : Binary64 := ⟨0x7ff8000000000000⟩

def isNeg (x : Binary64) : Bool := x.bits.toNat ≥ Nat.pow 2 63

def expField (x : Binary64) : Nat := (x.bits.toNat / Nat.pow 2 52) % Nat.pow 2 11

def fracField (x : Binary64) : Nat := x.bits.toNat % Nat.pow 2 52

def isNaN (x : Binary64) : Bool := x.expField = expMask && x.fracField ≠ 0

def isInf (x : Binary64) : Bool := x.expField = expMask && x.fracField = 0

def isZero (x : Binary64) : Bool := x.expField = 0 && x.fracField = 0

/-- The same magnitude with the sign bit flipped. -/
def neg (x : Binary64) : Binary64 := ⟨x.bits ^^^ 0x8000000000000000⟩

/-- A finite `x` as `(m, q)` with `|x| = m * 2 ^ q`; `m` is zero only for zeros. -/
def decode (x : Binary64) : Nat × Int :=
  if x.expField = 0 then (x.fracField, -1074)
  else (x.fracField + Nat.pow 2 52, (x.expField : Int) - 1075)

def numEq (x y : Binary64) : Bool :=
  !x.isNaN && !y.isNaN && (x.bits == y.bits || (x.isZero && y.isZero))

def roundDivEven (n d : Nat) : Nat :=
  let q := n / d
  let r := n % d
  if 2 * r > d ∨ (2 * r = d ∧ q % 2 = 1) then q + 1 else q

def scaledRound (num den : Nat) (k : Int) : Nat :=
  if k ≥ 0 then roundDivEven num (den * Nat.pow 2 k.toNat)
  else roundDivEven (num * Nat.pow 2 (-k).toNat) den

def floorLog2 (num den : Nat) : Int :=
  let l : Int := (num.log2 : Int) - (den.log2 : Int)
  let reaches : Bool :=
    if l ≥ 0 then num ≥ den * Nat.pow 2 l.toNat else num * Nat.pow 2 (-l).toNat ≥ den
  if reaches then l else l - 1

def pack (negative : Bool) (q : Nat) (k : Int) : Binary64 :=
  let sign : Nat := if negative then Nat.pow 2 63 else 0
  if q ≥ Nat.pow 2 52 ∧ k ≥ 972 then ⟨(sign + 0x7ff0000000000000).toUInt64⟩
  else ⟨(sign + (k + 1074).toNat * Nat.pow 2 52 + q).toUInt64⟩

/-- The binary64 value nearest to `num / den` with the given sign; `den` is positive. -/
def ofRat (negative : Bool) (num den : Nat) : Binary64 :=
  if num = 0 ∨ den = 0 then (if negative then zero.neg else zero)
  else
    let k := max (floorLog2 num den - 52) (-1074)
    let q := scaledRound num den k
    if q = Nat.pow 2 53 then pack negative (Nat.pow 2 52) (k + 1) else pack negative q k

def digitCount (n : Nat) : Nat := (Nat.toDigits 10 n).length

/-- The binary64 value nearest to `m * 10 ^ e` with the given sign. Values too small
to reach half the least subnormal are zero and values beyond the range infinite,
decided from the digit count so that huge exponents cost nothing. -/
def ofDecimal (negative : Bool) (m : Nat) (e : Int) : Binary64 :=
  let signed (x : Binary64) := if negative then x.neg else x
  if m = 0 then signed zero
  else
    let d : Int := digitCount m
    if d + e ≤ -324 then signed zero
    else if d - 1 + e ≥ 309 then signed inf
    else if e ≥ 0 then ofRat negative (m * Nat.pow 10 e.toNat) 1
    else ofRat negative m (Nat.pow 10 (-e).toNat)

def ofNat (n : Nat) : Binary64 := ofRat false n 1

/-- The sixteen lowercase hex digits of the bit pattern. -/
def toHex (x : Binary64) : String :=
  let digit (n : Nat) : Char := if n < 10 then Char.ofNat (48 + n) else Char.ofNat (87 + n)
  String.ofList ((List.range 16).reverse.map fun i => digit ((x.bits.toNat / Nat.pow 16 i) % 16))

end Binary64

end ProtoSchema
