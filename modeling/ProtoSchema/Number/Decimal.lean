import ProtoSchema.Number.Binary64

/-!
Decimal text of binary64 values. Digits come from the exact value: a finite
double is a rational `num / den`, and rounding it to a decimal position is a
division rounded to the nearest integer, a tie going to the even one.

`formatG x p` is the general format with `p` significant digits: scientific
notation (`1.25e-07`, at least two exponent digits) when the decimal exponent
is below `-4` or at least `p`, positional notation otherwise, trailing zeros of
the fraction dropped in both. `shortestG` writes a double with 15 significant
digits when that reads back to the same number, and with 17 otherwise.

Main definitions: `formatG` and `shortestG`.
-/

namespace ProtoSchema

namespace Binary64

def magnitude (x : Binary64) : Nat × Nat :=
  let (m, q) := x.decode
  if q ≥ 0 then (m * Nat.pow 2 q.toNat, 1) else (m, Nat.pow 2 (-q).toNat)

def atLeastPow10 (num den : Nat) (e : Int) : Bool :=
  if e ≥ 0 then num ≥ den * Nat.pow 10 e.toNat else num * Nat.pow 10 (-e).toNat ≥ den

def floorLog10 (num den : Nat) : Int :=
  let e : Int := (digitCount num : Int) - digitCount den
  if atLeastPow10 num den e then e else e - 1

def roundPow10 (num den : Nat) (k : Int) : Nat :=
  if k ≥ 0 then roundDivEven (num * Nat.pow 10 k.toNat) den else roundDivEven num (den * Nat.pow 10 (-k).toNat)

def significant (num den p : Nat) : Nat × Int :=
  let e := floorLog10 num den
  let n := roundPow10 num den ((p : Int) - 1 - e)
  if n = Nat.pow 10 p then (Nat.pow 10 (p - 1), e + 1) else (n, e)

end Binary64

def decimalDigits (n : Nat) : List Char := Nat.toDigits 10 n

def trimFraction (cs : List Char) : List Char :=
  if cs.contains '.' then
    let r := (cs.reverse.dropWhile (· = '0'))
    (if r.head? = some '.' then r.drop 1 else r).reverse
  else cs

def withPoint (n d : Nat) : List Char :=
  let ds := decimalDigits n
  let ds := List.replicate (d + 1 - ds.length) '0' ++ ds
  if d = 0 then ds else ds.take (ds.length - d) ++ '.' :: ds.drop (ds.length - d)

def formatGFinite (x : Binary64) (p : Nat) : String :=
  let (num, den) := x.magnitude
  let (n, e) := Binary64.significant num den p
  let sign := if x.isNeg then "-" else ""
  if e < -4 ∨ e ≥ p then
    let mantissa := trimFraction (withPoint n (p - 1))
    let expDigits := decimalDigits e.natAbs
    let expDigits := if expDigits.length < 2 then '0' :: expDigits else expDigits
    sign ++ String.ofList mantissa ++ "e" ++ (if e < 0 then "-" else "+") ++ String.ofList expDigits
  else
    let d := ((p : Int) - 1 - e).toNat
    sign ++ String.ofList (trimFraction (withPoint (Binary64.roundPow10 num den d) d))

/-- The general format with `p` significant digits (at least one); zeros keep their sign. -/
def formatG (x : Binary64) (p : Nat) : String :=
  if x.isZero then (if x.isNeg then "-0" else "0") else formatGFinite x (max p 1)

def readBackG (x : Binary64) (p : Nat) : Binary64 :=
  if x.isZero then x
  else
    let (num, den) := x.magnitude
    let (n, e) := Binary64.significant num den p
    Binary64.ofDecimal x.isNeg n (e - p + 1)

/-- The text of a double default value: `nan`, `inf`, `-inf`, or the general format
with 15 digits if it reads back to the same number, else with 17. -/
def shortestG (x : Binary64) : String :=
  if x.isNaN then "nan"
  else if x.isInf then (if x.isNeg then "-inf" else "inf")
  else if (readBackG x 15).numEq x then formatG x 15
  else formatG x 17

end ProtoSchema
