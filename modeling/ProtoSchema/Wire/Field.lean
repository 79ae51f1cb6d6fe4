import ProtoSchema.Wire.Varint
import ProtoSchema.Text.Utf8
import ProtoSchema.Number.Binary64

/-!
Fields of the protobuf wire format. A field is a key (field number and wire
type) followed by a value: a varint, eight or four little-endian bytes, or a
length and that many bytes. Writers put one field into bytes; readers take
one value of a known field, refusing a wrong wire type, or skip a field of
an unknown number, groups included.

Main definitions: `WireType`, `Wire.readKey`, `Wire.skip`, the typed readers
`Wire.readInt32` … `Wire.readPacked`, and the writers `Wire.field…`.
-/

namespace ProtoSchema

/-- How a field's value is laid out. -/
inductive WireType where
  | varint
  | fixed64
  | len
  | startGroup
  | endGroup
  | fixed32
  deriving DecidableEq, Repr, Inhabited

namespace WireType

def code : WireType → Nat
  | .varint => 0
  | .fixed64 => 1
  | .len => 2
  | .startGroup => 3
  | .endGroup => 4
  | .fixed32 => 5

def ofCode? : Nat → Option WireType
  | 0 => some .varint
  | 1 => some .fixed64
  | 2 => some .len
  | 3 => some .startGroup
  | 4 => some .endGroup
  | 5 => some .fixed32
  | _ => none

end WireType

namespace Wire

abbrev Input := List UInt8

/-- Read a key: the field number (1 to 2^29 - 1) and the wire type. -/
def readKey (bs : Input) : Except WireError ((Nat × WireType) × Input) := do
  let (k, rest) ← Varint.decode bs
  if k ≥ Nat.pow 2 32 then throw .badKey
  match WireType.ofCode? (k % 8) with
  | none => throw .badKey
  | some wt =>
    if k / 8 = 0 then throw .badKey
    return ((k / 8, wt), rest)

def take (n : Nat) (bs : Input) : Except WireError ((List UInt8) × Input) :=
  if n ≤ bs.length then .ok (bs.take n, bs.drop n) else .error .truncated

def readLen (bs : Input) : Except WireError ((List UInt8) × Input) := do
  let (n, rest) ← Varint.decode bs
  take n rest

def littleEndian (bs : List UInt8) : Nat :=
  bs.foldr (fun b acc => b.toNat + 256 * acc) 0

/-- Skip the value of a field of unknown number `tag`, given its wire type. A group
is skipped through its matching end; `budget` bounds the nesting. -/
def skip : Nat → Nat → WireType → Input → Except WireError Input
  | 0, _, _, _ => .error .tooDeep
  | budget + 1, tag, wt, bs =>
    match wt with
    | .varint => do
      let (_, rest) ← Varint.decode bs
      return rest
    | .fixed64 => do return (← take 8 bs).2
    | .fixed32 => do return (← take 4 bs).2
    | .len => do return (← readLen bs).2
    | .endGroup => .error .badGroup
    | .startGroup => skipGroup budget tag bs.length bs
where
  /-- Skip fields until the end of group `tag`; `fuel` bounds the number of fields. -/
  skipGroup : Nat → Nat → Nat → Input → Except WireError Input
    | _, _, 0, _ => .error .truncated
    | budget, tag, fuel + 1, bs => do
      let ((t, w), rest) ← readKey bs
      if w = .endGroup then
        if t = tag then return rest else throw .badGroup
      else
        let rest' ← skip budget t w rest
        skipGroup budget tag fuel rest'

def expect (want got : WireType) : Except WireError Unit :=
  if want = got then .ok () else .error .wrongWireType

def readVarint (wt : WireType) (bs : Input) : Except WireError (Nat × Input) := do
  expect .varint wt
  Varint.decode bs

def toSigned (bits : Nat) (n : Nat) : Int :=
  let m := n % Nat.pow 2 bits
  if m ≥ Nat.pow 2 (bits - 1) then (m : Int) - Nat.pow 2 bits else m

/-- Read an `int32` (or enum) value: the low 32 bits of the varint, signed. -/
def readInt32 (wt : WireType) (bs : Input) : Except WireError (Int × Input) := do
  let (n, rest) ← readVarint wt bs
  return (toSigned 32 n, rest)

def readInt64 (wt : WireType) (bs : Input) : Except WireError (Int × Input) := do
  let (n, rest) ← readVarint wt bs
  return (toSigned 64 n, rest)

def readUInt64 (wt : WireType) (bs : Input) : Except WireError (Nat × Input) := readVarint wt bs

def readBool (wt : WireType) (bs : Input) : Except WireError (Bool × Input) := do
  let (n, rest) ← readVarint wt bs
  return (n ≠ 0, rest)

def readDouble (wt : WireType) (bs : Input) : Except WireError (Binary64 × Input) := do
  expect .fixed64 wt
  let (b, rest) ← take 8 bs
  return (⟨(littleEndian b).toUInt64⟩, rest)

def readBytes (wt : WireType) (bs : Input) : Except WireError ((List UInt8) × Input) := do
  expect .len wt
  readLen bs

def readString (wt : WireType) (bs : Input) : Except WireError (String × Input) := do
  let (b, rest) ← readBytes wt bs
  match Utf8.decode? b with
  | some s => return (s, rest)
  | none => throw .badUtf8

def varintsOf : Nat → Input → Except WireError (List Nat)
  | 0, _ => .ok []
  | fuel + 1, bs =>
    if bs.isEmpty then .ok []
    else do
      let (n, rest) ← Varint.decode bs
      return n :: (← varintsOf fuel rest)

def readRepeatedInt32 (wt : WireType) (bs : Input) : Except WireError ((List Int) × Input) := do
  if wt = .len then
    let (payload, rest) ← readLen bs
    let ns ← varintsOf payload.length payload
    return (ns.map (toSigned 32), rest)
  else
    let (v, rest) ← readInt32 wt bs
    return ([v], rest)

def readMessage (wt : WireType) (bs : Input) : Except WireError ((List UInt8) × Input) := readBytes wt bs

def key (tag : Nat) (wt : WireType) : List UInt8 := Varint.encode (tag * 8 + wt.code)

def ofSigned (v : Int) : Nat := (v % Int.pow 2 64).toNat

def fieldVarint (tag : Nat) (n : Nat) : List UInt8 := key tag .varint ++ Varint.encode n

def fieldInt (tag : Nat) (v : Int) : List UInt8 := fieldVarint tag (ofSigned v)

def fieldBool (tag : Nat) (b : Bool) : List UInt8 := fieldVarint tag (if b then 1 else 0)

def fieldBytes (tag : Nat) (b : List UInt8) : List UInt8 :=
  key tag .len ++ Varint.encode b.length ++ b

def fieldString (tag : Nat) (s : String) : List UInt8 := fieldBytes tag (Utf8.encode s)

def fieldDouble (tag : Nat) (x : Binary64) : List UInt8 :=
  key tag .fixed64 ++ (List.range 8).map fun i => ((x.bits.toNat / Nat.pow 256 i) % 256).toUInt8

def fieldPacked (tag : Nat) (vs : List Int) : List UInt8 :=
  if vs.isEmpty then [] else fieldBytes tag (vs.flatMap fun v => Varint.encode (ofSigned v))

def opt {α : Type} (f : α → List UInt8) : Option α → List UInt8
  | some a => f a
  | none => []

def many {α : Type} (f : α → List UInt8) (xs : List α) : List UInt8 := xs.flatMap f

end Wire

end ProtoSchema
