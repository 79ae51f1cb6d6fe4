import Mathlib
import ProtoSchema.Proofs.Descriptor.RoundTrip
import ProtoSchema.Proofs.Image.Invariant
import ProtoSchema.Proofs.Monad

/-!
Images read back from their binary form. An image is one length-delimited payload per file,
and a payload is the file's descriptor followed by field 8042 with its marks. The image reader
splits the payloads, reads each one twice, as a descriptor and as marks, and then checks names
and order.

What the format asks of the descriptor codec is `DescriptorCodec.Faithful`: a descriptor's
encoding reads back as the descriptor, as a message of its own and one level down; a field 8042
after it is skipped as a field the descriptor does not have; and it is made of whole fields, none
of them 8042, which the marks reader passes over. Given that of every file's descriptor, a
well-formed image reads back as itself, with the same files in the same order, the same
descriptors bit for bit and the same marks, and its bytes read as a descriptor set give its
descriptors (`Image.decode_encode`).

The codec the program runs with is faithful on every descriptor whose integers fit their widths
and that nests fewer levels than its reader enters (`DescriptorCodec.standard_faithful`).
-/

namespace ProtoSchema

open Wire

/-- What the image format asks of a codec for the descriptor `fd`. -/
structure DescriptorCodec.Faithful (codec : DescriptorCodec) (fd : FileDescriptor) : Prop where
  reads_back : codec.decode (codec.encode fd) = .ok fd
  reads_back_embedded : codec.decodeEmbedded (codec.encode fd) = .ok fd
  skips_unknown : ∀ payload, (codec.encode fd ++ fieldBytes 8042 payload).length < 2 ^ 64 →
    codec.decode (codec.encode fd ++ fieldBytes 8042 payload) = codec.decode (codec.encode fd) ∧
      codec.decodeEmbedded (codec.encode fd ++ fieldBytes 8042 payload) =
        codec.decodeEmbedded (codec.encode fd)
  fields : ∀ {α : Type} (step : α → Nat → WireType → Input → Except WireError (α × Input)) (acc : α)
    (budget : Nat), 0 < budget →
      (∀ tag, tag ≠ 8042 → ∀ wt r, step acc tag wt r = skipping budget acc tag wt r) →
        Reads step acc (codec.encode fd) acc

namespace DescriptorCodec.Faithful

variable {codec : DescriptorCodec} {fd : FileDescriptor} (hc : codec.Faithful fd)
  {payload : List UInt8} (hlen : (codec.encode fd ++ fieldBytes 8042 payload).length < 2 ^ 64)
include hc hlen

theorem decode_append : codec.decode (codec.encode fd ++ fieldBytes 8042 payload) = .ok fd :=
  (hc.skips_unknown payload hlen).1.trans hc.reads_back

theorem decodeEmbedded_append :
    codec.decodeEmbedded (codec.encode fd ++ fieldBytes 8042 payload) = .ok fd :=
  (hc.skips_unknown payload hlen).2.trans hc.reads_back_embedded

end DescriptorCodec.Faithful

namespace DescriptorCodec

@[simp] theorem standard_encode : standard.encode = FileDescriptor.encode := rfl

@[simp] theorem standard_decode : standard.decode = FileDescriptor.merge decodeBudget {} := rfl

@[simp] theorem standard_decodeEmbedded :
    standard.decodeEmbedded = FileDescriptor.merge (decodeBudget - 1) {} := rfl

/-- The program's codec is faithful on a descriptor whose integers fit their widths and that
nests fewer levels than its reader enters, its own reading one level down included. -/
theorem standard_faithful {fd : FileDescriptor} (hf : fd.Fits) (hd : fd.depth < decodeBudget)
    (hlen : fd.encode.length < 2 ^ 64) : standard.Faithful fd := by
  -- the reader at both levels, with no field 8042 after the descriptor or with one
  have hread : ∀ budget, fd.depth ≤ budget → 0 < budget → ∀ payloads,
      (fd.encode ++ many (fieldBytes 8042) payloads).length < 2 ^ 64 →
        FileDescriptor.merge budget {} (fd.encode ++ many (fieldBytes 8042) payloads) = .ok fd :=
    fun budget hd' hb => FileDescriptor.merge_encode_append budget fd hf hd' hb
  have hnone : many (fieldBytes 8042) [] = [] := rfl
  have hone (payload : List UInt8) : many (fieldBytes 8042) [payload] = fieldBytes 8042 payload := by
    simp [many]
  have htop := hread decodeBudget hd.le (by decide)
  have hdown := hread (decodeBudget - 1) (by omega) (by decide)
  have hlen' : (fd.encode ++ many (fieldBytes 8042) []).length < 2 ^ 64 := by simpa [hnone] using hlen
  have htop₀ : FileDescriptor.merge decodeBudget {} fd.encode = .ok fd := by
    simpa [hnone] using htop [] hlen'
  have hdown₀ : FileDescriptor.merge (decodeBudget - 1) {} fd.encode = .ok fd := by
    simpa [hnone] using hdown [] hlen'
  refine ⟨by simpa using htop₀, by simpa using hdown₀, fun payload hp => ?_,
    fun step acc _ hb hskip => fd.encode_skipped hb hskip⟩
  simp only [standard_decode, standard_decodeEmbedded, standard_encode] at hp ⊢
  rw [← hone] at hp ⊢
  rw [htop [payload] hp, hdown [payload] hp, htop₀, hdown₀]
  exact ⟨rfl, rfl⟩

end DescriptorCodec

namespace FileMarks

theorem length_encode_le (i s : Bool) :
    (fieldBool 1 i ++ if s then fieldBool 2 true else []).length ≤ 4 := by
  cases i <;> cases s <;> simp [fieldBool, fieldVarint, key, WireType.code, Varint.encode_of_lt]

theorem merge_encode (budget : Nat) (i s : Bool) :
    FileMarks.merge budget {} (fieldBool 1 i ++ if s then fieldBool 2 true else []) =
      .ok { isImport := some i, syntaxUnspecified := if s then some true else none } := by
  have hlen := length_encode_le i s
  refine mergeAll_of_reads ?_ (by omega)
  cases s with
  | false =>
    exact .append (.one (fun w => ({ isImport := some w } : FileMarks)) (.bool i) (by decide)
      fun _ => rfl) (.nil _)
  | true =>
    exact .append (.one (fun w => ({ isImport := some w } : FileMarks)) (.bool i) (by decide)
      fun _ => rfl) (.one (fun w => ({ isImport := some i, syntaxUnspecified := some w } :
        FileMarks)) (.bool true) (by decide) fun _ => rfl)

end FileMarks

namespace ImageFile

def marks (f : ImageFile) : FileMarks :=
  { isImport := some f.isImport,
    syntaxUnspecified := if f.syntaxUnspecified then some true else none }

variable {codec : DescriptorCodec} {f : ImageFile} (hc : codec.Faithful f.descriptor)
  (hlen : (f.encodeWith codec).length < 2 ^ 64)
include hc hlen

theorem ofPayload_encodeWith : FileMarks.ofPayload (f.encodeWith codec) = .ok f.marks := by
  unfold FileMarks.ofPayload
  rw [(mergeAll_of_reads ?_ hlen : mergeAll _ none (f.encodeWith codec) = .ok (some f.marks))]
  · rfl
  refine .append (hc.fields _ none decodeBudget (by decide) fun tag htag wt r => ?_) ?_
  · split
    · exact absurd rfl htag
    · rfl
  exact .one some (.merged (by decide) fun _ => FileMarks.merge_encode _ _ _) (by decide)
    fun _ => rfl

theorem decodeWith_encodeWith : ImageFile.decodeWith codec (f.encodeWith codec) = .ok f := by
  have hdesc : codec.decode (f.encodeWith codec) = .ok f.descriptor := hc.decode_append hlen
  simp only [ImageFile.decodeWith, hdesc, ofPayload_encodeWith hc hlen, bind, Except.bind, pure,
    Except.pure]
  obtain ⟨d, i, s⟩ := f
  cases s <;> rfl

end ImageFile

namespace Image

variable {codec : DescriptorCodec}

theorem encodeWith_eq (img : Image) :
    img.encodeWith codec = many (fieldBytes 1) (img.files.map (ImageFile.encodeWith codec)) := by
  rw [Image.encodeWith, many, many, List.flatMap_map]
  rfl

theorem length_encodeWith_lt_of_mem {img : Image} {f : ImageFile} (hf : f ∈ img.files)
    (hlen : (img.encodeWith codec).length < 2 ^ 64) : (f.encodeWith codec).length < 2 ^ 64 := by
  have hsub : List.Sublist (fieldBytes 1 (f.encodeWith codec)) (img.encodeWith codec) :=
    List.sublist_flatten_of_mem (List.mem_map_of_mem hf)
  have hle := hsub.length_le
  simp only [fieldBytes, List.length_append] at hle
  omega

theorem payloadsOf_encodeWith (img : Image) (hlen : (img.encodeWith codec).length < 2 ^ 64) :
    payloadsOf (img.encodeWith codec) = .ok (img.files.map (ImageFile.encodeWith codec)) := by
  rw [encodeWith_eq] at hlen ⊢
  exact mergeAll_of_reads
    (.many _ (fun _ l => l) (fun p _ => .bytes p) (by decide) rfl fun _ _ => rfl) hlen

section RoundTrip

variable (img : Image) (hc : ∀ f ∈ img.files, codec.Faithful f.descriptor)
  (hlen : (img.encodeWith codec).length < 2 ^ 64)
include hc hlen

theorem decodeFilesWith_encodeWith : decodeFilesWith codec (img.encodeWith codec) = .ok img.files := by
  have hfiles : (img.files.map (ImageFile.encodeWith codec)).mapM (ImageFile.decodeWith codec) =
      .ok img.files :=
    Except.mapM_of_forall₂ (List.forall₂_map_left_iff.mpr (List.forall₂_same.mpr fun f hmem =>
      ImageFile.decodeWith_encodeWith (hc f hmem) (length_encodeWith_lt_of_mem hmem hlen)))
  simp only [decodeFilesWith, payloadsOf_encodeWith img hlen, bind, Except.bind, hfiles]

theorem decodeDescriptorSetWith_encodeWith :
    decodeDescriptorSetWith codec (img.encodeWith codec) = .ok img.descriptors := by
  refine mergeAll_of_reads (.manyOf img.files (fun _ l => l.map ImageFile.descriptor) rfl
    fun l f hmem => ?_) hlen
  simp only [List.map_append, List.map_cons, List.map_nil]
  -- each payload is a descriptor of the set, read one level down
  have hf := length_encodeWith_lt_of_mem hmem hlen
  have hbytes : (fieldBytes 1 ∘ ImageFile.encodeWith codec) f =
      key 1 .len ++ (Varint.encode (f.encodeWith codec).length ++ f.encodeWith codec) := by
    simp only [Function.comp, fieldBytes, List.append_assoc]
  rw [hbytes]
  have hread : codec.decodeEmbedded (f.encodeWith codec) = .ok f.descriptor :=
    (hc f hmem).decodeEmbedded_append hf
  refine .field (by decide) fun _ rest => ?_
  simp only [expect, bind, Except.bind, readLen_append hf, hread, if_true]
  rfl

/-- An image reads back from its binary form, with the same files in the same order, the
same descriptors bit for bit and the same marks, when it is well formed and its codec is
faithful on each of its descriptors; and the same bytes read as a descriptor set give its
descriptors. -/
theorem decode_encode (hw : img.WellFormed) :
    Image.decodeWith codec (img.encodeWith codec) = .ok img ∧
      decodeDescriptorSetWith codec (img.encodeWith codec) = .ok img.descriptors := by
  refine ⟨?_, decodeDescriptorSetWith_encodeWith img hc hlen⟩
  simp only [Image.decodeWith, decodeFilesWith_encodeWith img hc hlen]
  exact validate_eq_ok.mpr ⟨wellFormed_iff_valid.mp hw, rfl⟩

end RoundTrip

theorem decode_encode_sampleImage :
    sampleImage.WellFormed ∧ (∀ f ∈ sampleImage.files, DescriptorCodec.standard.Faithful f.descriptor) ∧
      sampleImage.encode.length < 2 ^ 64 ∧ Image.decode sampleImage.encode = .ok sampleImage ∧
      decodeDescriptorSet sampleImage.encode = .ok sampleImage.descriptors := by
  have hw : sampleImage.WellFormed := wellFormed_iff_valid.mpr sampleImage_valid
  have hc : ∀ f ∈ sampleImage.files, DescriptorCodec.standard.Faithful f.descriptor := by
    intro f hf
    simp only [sampleImage, List.mem_cons, List.not_mem_nil, or_false] at hf
    rcases hf with rfl | rfl | rfl | rfl | rfl <;>
      exact DescriptorCodec.standard_faithful (by simp [FileDescriptor.Fits])
        (by simp [FileDescriptor.depth, levels, decodeBudget])
        (by simp [FileDescriptor.encode, many, opt, fieldString, fieldBytes, key, WireType.code,
          Varint.encode_of_lt, Utf8.encode, Utf8.encodeChar])
  have hlen : sampleImage.encode.length < 2 ^ 64 := by
    simp [sampleImage, Image.encode, Image.encodeWith, ImageFile.encodeWith, ImageFile.tail,
      DescriptorCodec.standard, FileDescriptor.encode, many, opt, fieldString, fieldBytes, fieldBool,
      fieldVarint, key, WireType.code, Varint.encode_of_lt, Varint.encode_of_le, Utf8.encode,
      Utf8.encodeChar]
  exact ⟨hw, hc, hlen, (decode_encode sampleImage hc hlen hw).1,
    (decode_encode sampleImage hc hlen hw).2⟩

end Image

end ProtoSchema
