import ProtoSchema.Image.Transform
import ProtoSchema.Descriptor.Encode
import ProtoSchema.Descriptor.Decode

/-!
The binary form of an image: field 1 repeated, one payload per file. A
payload is the file's descriptor followed by field 8042, a small message
holding the import mark (field 1, always written) and the missing-version
mark (field 2, written only when set). Since concatenated messages merge, a
payload also reads as the bare descriptor, and an image reads as a
descriptor set.

The descriptors themselves are written and read by a `DescriptorCodec`, the
message code for descriptors; the envelope, the marks and the reading of
payloads are this module's own. `DescriptorCodec.standard` is the codec the
program runs with.

Main definitions: `Image.encodeWith`, `Image.decodeWith`,
`encodeDescriptorSetWith` and `decodeDescriptorSetWith`.
-/

namespace ProtoSchema

open Wire

/-- How file descriptors are written and read. A descriptor is read either as a message of
its own or as a message embedded one level down, as in a descriptor set. -/
structure DescriptorCodec where
  encode : FileDescriptor → List UInt8
  decode : Input → Except WireError FileDescriptor
  decodeEmbedded : Input → Except WireError FileDescriptor

/-- The descriptor code the program runs with, entering at most `decodeBudget` levels of
embedded messages. -/
def DescriptorCodec.standard : DescriptorCodec where
  encode := FileDescriptor.encode
  decode := FileDescriptor.merge decodeBudget {}
  decodeEmbedded := FileDescriptor.merge (decodeBudget - 1) {}

/-- The marks of an image file as read from field 8042. -/
structure FileMarks where
  isImport : Option Bool := none
  syntaxUnspecified : Option Bool := none
  deriving Repr, Inhabited

def FileMarks.merge (budget : Nat) (init : FileMarks) (bs : Input) : Except WireError FileMarks :=
  mergeAll (fun m tag wt rest => match tag with
    | 1 => do let (v, r) ← readBool wt rest; return ({ m with isImport := some v }, r)
    | 2 => do let (v, r) ← readBool wt rest; return ({ m with syntaxUnspecified := some v }, r)
    | _ => skipping budget m tag wt rest) init bs

def FileMarks.ofPayload (bs : Input) : Except WireError FileMarks := do
  let marks ← mergeAll (fun (m : Option FileMarks) tag wt rest => match tag with
    | 8042 => do
      let (v, r) ← embedded decodeBudget FileMarks.merge (m.getD {}) wt rest
      return (some v, r)
    | _ => skipping decodeBudget m tag wt rest) none bs
  return marks.getD {}

namespace ImageFile

def tail (f : ImageFile) : List UInt8 :=
  fieldBytes 8042 (fieldBool 1 f.isImport ++ (if f.syntaxUnspecified then fieldBool 2 true else []))

/-- The payload of a file: its descriptor, then its marks. -/
def encodeWith (codec : DescriptorCodec) (f : ImageFile) : List UInt8 :=
  codec.encode f.descriptor ++ f.tail

/-- Read a file payload. -/
def decodeWith (codec : DescriptorCodec) (bs : Input) : Except WireError ImageFile := do
  let descriptor ← codec.decode bs
  let marks ← FileMarks.ofPayload bs
  return { descriptor, isImport := marks.isImport.getD false,
           syntaxUnspecified := marks.syntaxUnspecified.getD false }

end ImageFile

def payloadsOf (bs : Input) : Except WireError (List (List UInt8)) :=
  mergeAll (fun acc tag wt rest => match tag with
    | 1 => do let (v, r) ← readBytes wt rest; return (acc ++ [v], r)
    | _ => skipping decodeBudget acc tag wt rest) [] bs

/-- The binary form of a descriptor set: each descriptor as field 1. -/
def encodeDescriptorSetWith (codec : DescriptorCodec) (ds : List FileDescriptor) : List UInt8 :=
  many (fieldBytes 1 ∘ codec.encode) ds

/-- Read a descriptor set: each field 1 is a descriptor embedded one level down. -/
def decodeDescriptorSetWith (codec : DescriptorCodec) (bs : Input) :
    Except WireError (List FileDescriptor) :=
  mergeAll (fun acc tag wt rest => match tag with
    | 1 => do
      expect .len wt
      let (payload, r) ← readLen rest
      return (acc ++ [← codec.decodeEmbedded payload], r)
    | _ => skipping decodeBudget acc tag wt rest) [] bs

def encodeDescriptorSet (ds : List FileDescriptor) : List UInt8 :=
  encodeDescriptorSetWith .standard ds

def decodeDescriptorSet (bs : Input) : Except WireError (List FileDescriptor) :=
  decodeDescriptorSetWith .standard bs

namespace Image

/-- The binary form of an image. -/
def encodeWith (codec : DescriptorCodec) (img : Image) : List UInt8 :=
  many (fieldBytes 1 ∘ ImageFile.encodeWith codec) img.files

def decodeFilesWith (codec : DescriptorCodec) (bs : Input) : Except WireError (List ImageFile) := do
  (← payloadsOf bs).mapM (ImageFile.decodeWith codec)

/-- Read an image. Names and order are checked; imports may be absent, as in
an image whose imports were dropped. -/
def decodeWith (codec : DescriptorCodec) (bs : Input) : Except ImageError Image :=
  match decodeFilesWith codec bs with
  | .error e => .error (.decode e)
  | .ok files => ofFilesOpen files

def encode (img : Image) : List UInt8 := img.encodeWith .standard

def decode (bs : Input) : Except ImageError Image := decodeWith .standard bs

end Image

end ProtoSchema
