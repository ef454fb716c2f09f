import VectorChord.Vchordg.Tuples
import VectorChord.Vchordrq.Formats

/-!
# Serialized tuples of a graph

The bytes of the tuples of a graph index, in the format of the other index.
-/

namespace VectorChord.Vchordg

open Codec Codec.Plain
open Option (bind_eq_bind bind_some)
open RefChecker (bytesAt prefixAt)

export Vchordrq (optionPayload)

/-! ## Field types -/

/-- `Pointer`. -/
def pointer : Plain Id :=
  (u32 ×ˢ u16 ×ˢ padding 2).via (fun id => (id.1, id.2, ())) (fun record => (record.1, record.2.1))
    (fun id => u32.Valid id.1 ∧ u16.Valid id.2) fun _ valid => ⟨⟨valid.1, valid.2, trivial⟩, rfl⟩

/-- `OptionPointer`. -/
def optionPointer : Plain (Option Id) :=
  (u32 ×ˢ u16 ×ˢ padding 1 ×ˢ bool).via
    (fun id => ((id.getD (0, 0)).1, (id.getD (0, 0)).2, (), id.isSome))
    (fun record => if record.2.2.2 then some (record.1, record.2.1) else none)
    (fun id => ∀ inner ∈ id, pointer.Valid inner) (by
      intro id valid
      cases id with
      | none => exact ⟨⟨Nat.two_pow_pos 32, Nat.two_pow_pos 16, trivial, trivial⟩, rfl⟩
      | some inner => exact ⟨⟨(valid inner rfl).1, (valid inner rfl).2, trivial, trivial⟩, rfl⟩)

/-- `Distance`, an `i32`. -/
def distance : Plain Distance :=
  u32.via (fun value => (BitVec.ofInt 32 value).toNat)
    (fun number => (BitVec.ofNat 32 number).toInt)
    (fun value => (BitVec.ofInt 32 value).toInt = value) fun value small => by
      refine ⟨(BitVec.ofInt 32 value).isLt, ?_⟩
      rw [BitVec.ofNat_toNat, BitVec.setWidth_eq, small]

/-- `OptionNeighbour`. -/
def optionNeighbour : Plain (Option (Id × Distance)) :=
  (optionPointer ×ˢ distance).via (fun pair => (pair.map Prod.fst, (pair.map Prod.snd).getD 0))
    (fun record => record.1.map (·, record.2))
    (fun pair => ∀ inner ∈ pair, pointer.Valid inner.1 ∧ distance.Valid inner.2) (by
      intro pair valid
      cases pair with
      | none => exact ⟨⟨nofun, rfl⟩, rfl⟩
      | some inner =>
        refine ⟨⟨fun id held => ?_, (valid inner rfl).2⟩, rfl⟩
        cases held
        exact (valid inner rfl).1)

/-! ## Meta tuples -/

namespace MetaTuple

/-- `MAGIC`, the bytes of `vchordg` and a zero. -/
def magic : Bytes := [118, 99, 104, 111, 114, 100, 103, 0]

/-- `VERSION`. -/
def version : Nat := 1001

/-- `MetaTupleHeader`: `version`, `dim`, `bits`, `m`, `alpha_s`, `alpha_e`,
`ef_construction`, `beam_construction`, `start` and `skip`. -/
def frame :=
  ({ tag := magic
     fields := u64 ×ˢ u32 ×ˢ u8 ×ˢ padding 7 ×ˢ u32 ×ˢ offset ×ˢ offset ×ˢ u32 ×ˢ u32 ×ˢ
       optionPointer ×ˢ u32 } : Frame _)

variable (self : MetaTuple)

def record (span : Spans) : frame.Record :=
  (version, self.dim, self.bits, (), self.m, (span 0).1, (span 0).2, self.efConstruction,
    self.beamConstruction, self.start, self.skip)

def serialize : Bytes := frame.assemble self.record [u32.encodeAll self.alpha]

def deserializeRef (source : Bytes) : Option MetaTuple :=
  if source.take 8 = magic then do
    let (found, dim, bits, _, m, alphaS, alphaE, efConstruction, beamConstruction, start, skip) ←
      prefixAt frame.header source frame.tag.length
    guard (found = version)
    let alpha ← bytesAt u32 source alphaS alphaE
    return { dim, bits, m, alpha, efConstruction, beamConstruction, start, skip }
  else none

/-- Write a field through the writer. -/
def write {β : Type} (field : Field frame.fields β) (new : β) (source : Bytes) : Option Bytes :=
  if source.take 8 = magic then do
    let ((found, _), _) ← MutChecker.prefixAt frame.header source 0 frame.tag.length
    guard (found = version)
    return field.write frame.tag.length new source
  else none

def writeStart :=
  write (.next (.next (.next (.next (.next (.next (.next (.next (.next .first)))))))))

def writeSkip :=
  write (.next (.next (.next (.next (.next (.next (.next (.next (.next (.next .last))))))))))

def Typed : Prop := (∀ span, frame.fields.Valid (self.record span)) ∧ u32.ValidAll self.alpha

theorem readsBack : ReadsBack Typed serialize deserializeRef := by
  intro self typed short
  rw [serialize] at short ⊢
  rw [deserializeRef, take_tag frame magic rfl rfl, if_pos rfl, frame.prefixAt_assemble typed.1]
  simp only [record, bind_eq_bind, bind_some]
  rw [frame.bytesAt_assemble (i := 0) (by rfl) (by decide) typed.2 short]
  rfl

variable {self}

theorem write_serialize {β : Type} (field : Field frame.fields β) (new : β) (typed : self.Typed) :
    write field new self.serialize = some (frame.assemble
      (fun span => field.set new (self.record span)) [u32.encodeAll self.alpha]) := by
  rw [write, serialize, take_tag frame magic rfl rfl, if_pos rfl,
    frame.mutPrefixAt_assemble typed.1]
  exact congrArg some (frame.write_assemble field new _ _)

end MetaTuple

/-! ## Vertex tuples -/

namespace VertexTuple

/-- `VertexTupleHeader`: `metadata`, `elements_s`, `elements_e`, `payload`, `pointers_s` and
`pointers_e`. -/
def frame :=
  ({ tag := []
     fields := (u32 ×ˢ u32 ×ˢ u32) ×ˢ offset ×ˢ offset ×ˢ optionPayload ×ˢ offset ×ˢ offset ×ˢ
       padding 4 } : Frame _)

variable (self : VertexTuple)

def record (span : Spans) : frame.Record :=
  (self.code.metadata, (span 0).1, (span 0).2, self.payload, (span 1).1, (span 1).2, ())

def serialize : Bytes :=
  frame.assemble self.record [u64.encodeAll self.code.elements, pointer.encodeAll self.pointers]

def deserializeRef (source : Bytes) : Option VertexTuple := do
  let (metadata, elementsS, elementsE, payload, pointersS, pointersE, _) ←
    prefixAt frame.header source frame.tag.length
  let elements ← bytesAt u64 source elementsS elementsE
  let pointers ← bytesAt pointer source pointersS pointersE
  return { code := { metadata, elements }, payload, pointers }

/-- The pointers of the writer and where they start. -/
def deserializeMut (source : Bytes) : Option (List Id × Offset) := do
  let ((_, elementsS, elementsE, _, pointersS, pointersE, _), flag) ←
    MutChecker.prefixAt frame.header source 0 frame.tag.length
  let (_, flag) ← MutChecker.bytesAt u64 source flag elementsS elementsE
  let (pointers, _) ← MutChecker.bytesAt pointer source flag pointersS pointersE
  return (pointers, pointersS)

def writePayload (new : Option Payload) (source : Bytes) : Option Bytes := do
  let _ ← deserializeMut source
  let payload : Field frame.fields (Option Payload) := .next (.next (.next .first))
  return payload.write frame.tag.length new source

def writePointers (new : List Id) (source : Bytes) : Option Bytes := do
  let (pointers, start) ← deserializeMut source
  guard (new.length = pointers.length)
  return pointer.writeAll start new source

def Typed : Prop :=
  (∀ span, frame.fields.Valid (self.record span)) ∧ u64.ValidAll self.code.elements ∧
    pointer.ValidAll self.pointers

theorem readsBack : ReadsBack Typed serialize deserializeRef := by
  intro self typed short
  rw [serialize] at short ⊢
  rw [deserializeRef, frame.prefixAt_assemble typed.1]
  simp only [record, bind_eq_bind, bind_some]
  rw [frame.bytesAt_assemble (i := 0) (by rfl) (by decide) typed.2.1 short,
    frame.bytesAt_assemble (i := 1) (by rfl) (by decide) typed.2.2 short]
  rfl

variable {self}

theorem deserializeMut_serialize (typed : self.Typed) (short : self.serialize.length < 65536) :
    deserializeMut self.serialize = some (self.pointers, (frame.spans
      [u64.encodeAll self.code.elements, pointer.encodeAll self.pointers] 1).1) := by
  rw [serialize] at short ⊢
  rw [deserializeMut, frame.mutPrefixAt_assemble typed.1]
  simp only [record, bind_eq_bind, bind_some]
  rw [frame.mutBytesAt_assemble (i := 0) (by rfl) (by decide) typed.2.1 short
    (frame.header_le_spans (by rfl) short)]
  simp only [bind_some]
  rw [frame.mutBytesAt_assemble (i := 1) (by rfl) (by decide) typed.2.2 short
    (frame.spans_le_next (by rfl) (by rfl) short)]
  rfl

theorem writePayload_serialize (typed : self.Typed) (short : self.serialize.length < 65536)
    (new : Option Payload) :
    writePayload new self.serialize = some (serialize { self with payload := new }) := by
  rw [writePayload, deserializeMut_serialize typed short]
  exact congrArg some (frame.write_assemble (.next (.next (.next .first))) new _ _)

theorem writePointers_serialize (typed : self.Typed) (short : self.serialize.length < 65536)
    {new : List Id} (same : new.length = self.pointers.length) :
    writePointers new self.serialize = some (serialize { self with pointers := new }) := by
  rw [writePointers, deserializeMut_serialize typed short]
  simp only [guard, same, bind_eq_bind, bind_some, if_pos]
  exact congrArg some (frame.writeAll_assemble (by rfl) same short)

end VertexTuple

/-! ## Vector tuples -/

namespace VectorTuple

variable {kind : VectorKind}

/-- `VectorTupleHeader0`: `payload`, `elements_s`, `elements_e`, `metadata_s`,
`neighbours_s`, `neighbours_e` and `version`. -/
def frame0 :=
  ({ tag := le 8 0
     fields := optionPayload ×ˢ offset ×ˢ offset ×ˢ offset ×ˢ offset ×ˢ offset ×ˢ padding 2 ×ˢ
       u32 } : Frame _)

/-- `VectorTupleHeader1`: `payload`, `elements_s`, `elements_e` and `index`, with room for
the other header. -/
def frame1 :=
  ({ tag := le 8 1
     fields := optionPayload ×ˢ offset ×ˢ offset ×ˢ u32
     room := frame0.fields.size } : Frame _)

def slices0 (metadata : kind.Metadata) (elements : List Nat)
    (neighbours : List (Option (Id × Distance))) : List Bytes :=
  [kind.element.encodeAll elements, kind.metadata.encode metadata,
    optionNeighbour.encodeAll neighbours]

def serialize : VectorTuple kind → Bytes
  | .v0 payload metadata elements neighbours version =>
    frame0.assemble (fun span => (payload, (span 0).1, (span 0).2, (span 1).1, (span 2).1,
      (span 2).2, (), version)) (slices0 metadata elements neighbours)
  | .v1 payload elements index =>
    frame1.assemble (fun span => (payload, (span 0).1, (span 0).2, index))
      [kind.element.encodeAll elements]

def deserializeRef (source : Bytes) : Option (VectorTuple kind) :=
  byTag source
    (do
      let (payload, elementsS, elementsE, metadataS, neighboursS, neighboursE, _, version) ←
        prefixAt frame0.header source frame0.tag.length
      let elements ← bytesAt kind.element source elementsS elementsE
      let metadata ← prefixAt kind.metadata source metadataS
      let neighbours ← bytesAt optionNeighbour source neighboursS neighboursE
      return .v0 payload metadata elements neighbours version)
    (do
      let (payload, elementsS, elementsE, index) ←
        prefixAt frame1.header source frame1.tag.length
      let elements ← bytesAt kind.element source elementsS elementsE
      return .v1 payload elements index)

/-- The neighbours of the writer of the first form, and where they start. -/
def deserializeMut0 (kind : VectorKind) (source : Bytes) :
    Option (List (Option (Id × Distance)) × Offset) := do
  let ((_, elementsS, elementsE, metadataS, neighboursS, neighboursE, _), flag) ←
    MutChecker.prefixAt frame0.header source 0 frame0.tag.length
  let (_, flag) ← MutChecker.bytesAt kind.element source flag elementsS elementsE
  let (_, flag) ← MutChecker.prefixAt kind.metadata source flag metadataS
  let (neighbours, _) ← MutChecker.bytesAt optionNeighbour source flag neighboursS neighboursE
  return (neighbours, neighboursS)

/-- The writer of the second form. -/
def deserializeMut1 (kind : VectorKind) (source : Bytes) : Option Unit := do
  let ((_, elementsS, elementsE, _), flag) ←
    MutChecker.prefixAt frame1.header source 0 frame1.tag.length
  let _ ← MutChecker.bytesAt kind.element source flag elementsS elementsE

def writePayload (kind : VectorKind) (new : Option Payload) (source : Bytes) : Option Bytes :=
  byTag source
    (do
      let _ ← deserializeMut0 kind source
      let payload : Field frame0.fields (Option Payload) := .first
      return payload.write frame0.tag.length new source)
    (do
      deserializeMut1 kind source
      let payload : Field frame1.fields (Option Payload) := .first
      return payload.write frame1.tag.length new source)

def writeVersion (kind : VectorKind) (new : Nat) (source : Bytes) : Option Bytes :=
  byTag source
    (do
      let _ ← deserializeMut0 kind source
      let version : Field frame0.fields Nat :=
        .next (.next (.next (.next (.next (.next (.next .last))))))
      return version.write frame0.tag.length new source)
    none

def writeNeighbours (kind : VectorKind) (new : List (Option (Id × Distance))) (source : Bytes) :
    Option Bytes :=
  byTag source
    (do
      let (neighbours, start) ← deserializeMut0 kind source
      guard (new.length = neighbours.length)
      return optionNeighbour.writeAll start new source)
    none

def Typed : VectorTuple kind → Prop
  | .v0 payload metadata elements neighbours version =>
    (optionPayload.Valid payload ∧ u32.Valid version) ∧ kind.element.ValidAll elements ∧
      kind.metadata.Valid metadata ∧ optionNeighbour.ValidAll neighbours
  | .v1 payload elements index =>
    (optionPayload.Valid payload ∧ u32.Valid index) ∧ kind.element.ValidAll elements

theorem readsBack : ReadsBack (@Typed kind) serialize deserializeRef := by
  intro self typed short
  cases self with
  | v0 payload metadata elements neighbours version =>
    rw [serialize] at short ⊢
    rw [deserializeRef, byTag_zero frame0 rfl, frame0.prefixAt_assemble]
    · simp only [bind_eq_bind, bind_some]
      rw [frame0.bytesAt_assemble (i := 0) (by rfl) kind.element_pos typed.2.1 short,
        frame0.prefixAt_slice (i := 1) (by rfl) typed.2.2.1 short,
        frame0.bytesAt_assemble (i := 2) (by rfl) (by decide) typed.2.2.2 short]
      rfl
    · exact fun _ => ⟨typed.1.1, trivial, trivial, trivial, trivial, trivial, trivial, typed.1.2⟩
  | v1 payload elements index =>
    rw [serialize] at short ⊢
    rw [deserializeRef, byTag_one frame1 rfl, frame1.prefixAt_assemble]
    · simp only [bind_eq_bind, bind_some]
      rw [frame1.bytesAt_assemble (i := 0) (by rfl) kind.element_pos typed.2 short]
      rfl
    · exact fun _ => ⟨typed.1.1, trivial, trivial, typed.1.2⟩

variable {version index : Nat} {payload : Option Payload} {metadata : kind.Metadata}
  {elements : List Nat} {neighbours : List (Option (Id × Distance))}

section First

variable (typed : Typed (.v0 payload metadata elements neighbours version))
  (short : (serialize (.v0 payload metadata elements neighbours version)).length < 65536)

include typed short

theorem deserializeMut0_serialize :
    deserializeMut0 kind (serialize (.v0 payload metadata elements neighbours version)) =
      some (neighbours, (frame0.spans (slices0 metadata elements neighbours) 2).1) := by
  rw [serialize] at short ⊢
  rw [deserializeMut0, frame0.mutPrefixAt_assemble]
  · simp only [bind_eq_bind, bind_some]
    rw [frame0.mutBytesAt_assemble (i := 0) (by rfl) kind.element_pos typed.2.1 short
      (frame0.header_le_spans (by rfl) short)]
    simp only [bind_some]
    rw [frame0.mutPrefixAt_slice (i := 1) (by rfl) typed.2.2.1 short
      (frame0.spans_le_next (by rfl) (by rfl) short)]
    simp only [bind_some]
    rw [frame0.mutBytesAt_assemble (i := 2) (by rfl) (by decide) typed.2.2.2 short
      (frame0.spans_le_next (by rfl) (by rfl) short)]
    rfl
  · exact fun _ => ⟨typed.1.1, trivial, trivial, trivial, trivial, trivial, trivial, typed.1.2⟩

theorem writePayload_v0 (new : Option Payload) :
    writePayload kind new (serialize (.v0 payload metadata elements neighbours version)) =
      some (serialize (.v0 new metadata elements neighbours version)) := by
  rw [writePayload, deserializeMut0_serialize typed short, serialize, byTag_zero frame0 rfl]
  exact congrArg some (frame0.write_assemble .first new _ _)

theorem writeVersion_v0 (new : Nat) :
    writeVersion kind new (serialize (.v0 payload metadata elements neighbours version)) =
      some (serialize (.v0 payload metadata elements neighbours new)) := by
  rw [writeVersion, deserializeMut0_serialize typed short, serialize, byTag_zero frame0 rfl]
  exact congrArg some (frame0.write_assemble _ new _ _)

theorem writeNeighbours_v0 {new : List (Option (Id × Distance))}
    (same : new.length = neighbours.length) :
    writeNeighbours kind new
        (serialize (.v0 payload metadata elements neighbours version)) =
      some (serialize (.v0 payload metadata elements new version)) := by
  rw [writeNeighbours, deserializeMut0_serialize typed short, serialize, byTag_zero frame0 rfl]
  simp only [guard, same, bind_eq_bind, bind_some, if_pos]
  exact congrArg some (frame0.writeAll_assemble (by rfl) same short)

end First

theorem writePayload_v1 (typed : Typed (.v1 payload elements index : VectorTuple kind))
    (short : (serialize (.v1 payload elements index : VectorTuple kind)).length < 65536)
    (new : Option Payload) :
    writePayload kind new (serialize (.v1 payload elements index : VectorTuple kind)) =
      some (serialize (.v1 new elements index : VectorTuple kind)) := by
  rw [serialize] at short ⊢
  rw [writePayload, byTag_one frame1 rfl, deserializeMut1, frame1.mutPrefixAt_assemble]
  · simp only [bind_eq_bind, bind_some]
    rw [frame1.mutBytesAt_assemble (i := 0) (by rfl) kind.element_pos typed.2 short
      (frame1.header_le_spans (by rfl) short)]
    exact congrArg some (frame1.write_assemble .first new _ _)
  · exact fun _ => ⟨typed.1.1, trivial, trivial, typed.1.2⟩

/-- The tuple with another payload. -/
def setPayload (new : Option Payload) : VectorTuple kind → VectorTuple kind
  | .v0 _ metadata elements neighbours version =>
    .v0 new metadata elements neighbours version
  | .v1 _ elements index => .v1 new elements index

theorem writesPayload :
    WritesOnly (@Typed kind) serialize (writePayload kind) setPayload := by
  intro self new typed short
  cases self with
  | v0 payload metadata elements neighbours version => exact writePayload_v0 typed short new
  | v1 payload elements index => exact writePayload_v1 typed short new

end VectorTuple

/-! ## All tuples -/

namespace Tuple

variable {kind : VectorKind}

/-- `serialize` of any tuple. -/
def serialize : Tuple kind → Bytes
  | .metaTuple tuple => tuple.serialize
  | .vertex tuple => tuple.serialize
  | .vector tuple => tuple.serialize

/-- The size of a tuple on a page is the length of its bytes. -/
theorem length_serialize (tuple : Tuple kind) : tuple.serialize.length = tuple.size := by
  have widths : pointer.size = 8 ∧ optionNeighbour.size = 12 := by decide
  cases tuple with
  | metaTuple tuple =>
    simp [size, serialize, MetaTuple.serialize, length_encodeAll,
      MetaTuple.frame.length_assemble_eq (by decide : _ = 56)]
  | vertex tuple =>
    simp [size, serialize, VertexTuple.serialize, length_encodeAll, widths,
      VertexTuple.frame.length_assemble_eq (by decide : _ = 32), Nat.add_assoc]
  | vector tuple =>
    cases tuple <;> simp [size, serialize, VectorTuple.serialize, VectorTuple.slices0,
      length_encodeAll, Plain.length_encode, widths, Nat.add_assoc,
      VectorTuple.frame0.length_assemble_eq (by decide : _ = 32),
      VectorTuple.frame1.length_assemble_eq (by decide : _ = 32)]

end Tuple

/-- Every tuple reads back as it was written, in its own form, and a writer changes the field
it is for and nothing else.  Slices are written with as many values as they have. -/
theorem graphTuples_readBack (kind : VectorKind) :
    ReadsBack MetaTuple.Typed MetaTuple.serialize MetaTuple.deserializeRef ∧
    WritesOnly MetaTuple.Typed MetaTuple.serialize MetaTuple.writeStart
      (fun new self => { self with start := new }) ∧
    WritesOnly MetaTuple.Typed MetaTuple.serialize MetaTuple.writeSkip
      (fun new self => { self with skip := new }) ∧
    ReadsBack VertexTuple.Typed VertexTuple.serialize VertexTuple.deserializeRef ∧
    WritesOnly VertexTuple.Typed VertexTuple.serialize VertexTuple.writePayload
      (fun new self => { self with payload := new }) ∧
    (∀ (self : VertexTuple) (new : List Id), self.Typed → self.serialize.length < 65536 →
      new.length = self.pointers.length →
      VertexTuple.writePointers new self.serialize =
        some (VertexTuple.serialize { self with pointers := new })) ∧
    ReadsBack (@VectorTuple.Typed kind) VectorTuple.serialize VectorTuple.deserializeRef ∧
    WritesOnly (@VectorTuple.Typed kind) VectorTuple.serialize (VectorTuple.writePayload kind)
      VectorTuple.setPayload ∧
    (∀ payload metadata elements neighbours version,
      let self : VectorTuple kind := .v0 payload metadata elements neighbours version
      self.Typed → self.serialize.length < 65536 →
      (∀ new, VectorTuple.writeVersion kind new self.serialize = some (VectorTuple.serialize
        (.v0 payload metadata elements neighbours new : VectorTuple kind))) ∧
      ∀ new : List (Option (Id × Distance)), new.length = neighbours.length →
        VectorTuple.writeNeighbours kind new self.serialize = some (VectorTuple.serialize
          (.v0 payload metadata elements new version : VectorTuple kind))) := by
  refine ⟨MetaTuple.readsBack, fun self new typed _ => MetaTuple.write_serialize _ new typed,
    fun self new typed _ => MetaTuple.write_serialize _ new typed, VertexTuple.readsBack,
    fun self new typed short => VertexTuple.writePayload_serialize typed short new,
    fun self new typed short same => VertexTuple.writePointers_serialize typed short same,
    VectorTuple.readsBack, VectorTuple.writesPayload, ?_⟩
  intro payload metadata elements neighbours version self typed short
  exact ⟨VectorTuple.writeVersion_v0 typed short,
    fun new same => VectorTuple.writeNeighbours_v0 typed short same⟩

end VectorChord.Vchordg
