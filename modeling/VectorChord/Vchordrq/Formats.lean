import VectorChord.Codec.Layout
import VectorChord.Vchordrq.Tuples

/-!
# Serialized tuples

The bytes of the tuples of an index: `serialize`, `deserialize_ref` and what the writers of
`deserialize_mut` write.  A tuple is at a multiple of eight bytes in memory, and the machine
is little-endian.  A failed check or assertion is `none`.
-/

namespace VectorChord.Vchordrq

open Codec Codec.Plain Rabitq
open Option (bind_eq_bind bind_some)
open RefChecker (bytesAt prefixAt)

/-! ## Field types -/

/-- `Option<NonZero<u64>>`. -/
def optionPayload : Plain (Option Payload) :=
  u64.via (fun payload => (payload.map Subtype.val).getD 0)
    (fun number => if present : number ≠ 0 then some ⟨number, present⟩ else none)
    (fun payload => ∀ value ∈ payload, value.val < 2 ^ 64) (by
      intro payload small
      cases payload with
      | none => exact ⟨pos_of_ne_zero (by decide), rfl⟩
      | some value => exact ⟨small value rfl, dif_pos value.property⟩)

namespace VectorKind

def element : VectorKind → Plain Nat
  | .vecf32 => u32
  | .vecf16 => u16
  | .rabitq8 => u8
  | .rabitq4 => u8

def metadata : (kind : VectorKind) → Plain kind.Metadata
  | .vecf32 => padding 0
  | .vecf16 => padding 0
  | .rabitq8 => array 4 u32
  | .rabitq4 => array 4 u32

@[simp] theorem size_element (kind : VectorKind) : kind.element.size = kind.elementSize := by
  cases kind <;> rfl

@[simp] theorem size_metadata (kind : VectorKind) : kind.metadata.size = kind.metadataSize := by
  cases kind <;> rfl

theorem element_pos (kind : VectorKind) : 0 < kind.element.size := by
  cases kind <;> exact Nat.succ_pos _

end VectorKind

/-- `[f32; 32]` or `[u32; 32]`. -/
def lane32 : Plain (Fin 32 → Nat) := array 32 u32

/-- `[u8; 16]`. -/
def row : Plain Row := array 16 u8

@[simp] theorem sizes : u32.size = 4 ∧ u64.size = 8 ∧ lane32.size = 128 ∧ row.size = 16 := by
  decide

/-! ## Directory tuples, and other tuples that only hold a slice -/

/-- `DirectoryTupleHeader0`, `DirectoryTupleHeader1`, `H1TupleHeader1` and
`FrozenTupleHeader1`: `elements_s` and `elements_e`. -/
def sliceFrame (tag : Nat) : Frame (Offset × Offset × Unit) where
  tag := le 8 tag
  fields := offset ×ˢ offset ×ˢ padding 4

def serializeSlice {α : Type} (plain : Plain α) (tag : Nat) (elements : List α) : Bytes :=
  (sliceFrame tag).assemble (fun span => ((span 0).1, (span 0).2, ())) [plain.encodeAll elements]

def deserializeSlice {α : Type} (plain : Plain α) (tag : Nat) (source : Bytes) :
    Option (List α) := do
  let (elementsS, elementsE, _) ←
    prefixAt (sliceFrame tag).header source (sliceFrame tag).tag.length
  bytesAt plain source elementsS elementsE

theorem deserializeSlice_serializeSlice {α : Type} {plain : Plain α} (positive : 0 < plain.size)
    {tag : Nat} {elements : List α} (typed : plain.ValidAll elements)
    (short : (serializeSlice plain tag elements).length < 65536) :
    deserializeSlice plain tag (serializeSlice plain tag elements) = some elements := by
  rw [deserializeSlice, serializeSlice, (sliceFrame tag).prefixAt_assemble
    (fun _ => ⟨trivial, trivial, trivial⟩)]
  exact (sliceFrame tag).bytesAt_assemble (i := 0) rfl positive typed short

theorem length_serializeSlice {α : Type} (plain : Plain α) (tag : Nat) (elements : List α) :
    (serializeSlice plain tag elements).length = 16 + align8 (plain.size * elements.length) := by
  have start : (sliceFrame tag).start = 16 := by simp [Frame.start, sliceFrame]; rfl
  simp [serializeSlice, (sliceFrame tag).length_assemble_eq start, length_encodeAll]

namespace DirectoryTuple

def serialize : DirectoryTuple → Bytes
  | .v0 elements => serializeSlice u32 0 elements
  | .v1 elements => serializeSlice u32 1 elements

def deserializeRef (source : Bytes) : Option DirectoryTuple :=
  byTag source (do return .v0 (← deserializeSlice u32 0 source))
    (do return .v1 (← deserializeSlice u32 1 source))

def Typed : DirectoryTuple → Prop
  | .v0 elements => u32.ValidAll elements
  | .v1 elements => u32.ValidAll elements

theorem readsBack : ReadsBack Typed serialize deserializeRef := by
  intro self typed short
  cases self with
  | v0 elements =>
    rw [serialize] at short ⊢
    rw [deserializeRef, deserializeSlice_serializeSlice (by decide) typed short]
    exact byTag_zero (sliceFrame 0) rfl _ _ _ _
  | v1 elements =>
    rw [serialize] at short ⊢
    rw [deserializeRef, deserializeSlice_serializeSlice (by decide) typed short]
    exact byTag_one (sliceFrame 1) rfl _ _ _ _

end DirectoryTuple

/-! ## Centroid and vector tuples -/

namespace CentroidTuple

variable {kind : VectorKind}

/-- `CentroidTupleHeader0`: `metadata_s`, `elements_s` and `elements_e`. -/
def frame0 : Frame (Offset × Offset × Offset × Unit) where
  tag := le 8 0
  fields := offset ×ˢ offset ×ˢ offset ×ˢ padding 2

/-- `CentroidTupleHeader1`: `head`, `elements_s` and `elements_e`. -/
def frame1 : Frame (Nat × Offset × Offset × Unit) where
  tag := le 8 1
  fields := u16 ×ˢ offset ×ˢ offset ×ˢ padding 2

def serialize : CentroidTuple kind → Bytes
  | .v0 metadata elements =>
    frame0.assemble (fun span => ((span 0).1, (span 1).1, (span 1).2, ()))
      [kind.metadata.encode metadata, kind.element.encodeAll elements]
  | .v1 head elements =>
    frame1.assemble (fun span => (head, (span 0).1, (span 0).2, ()))
      [kind.element.encodeAll elements]

def deserializeRef (source : Bytes) : Option (CentroidTuple kind) :=
  byTag source
    (do
      let (metadataS, elementsS, elementsE, _) ←
        prefixAt frame0.header source frame0.tag.length
      let metadata ← prefixAt kind.metadata source metadataS
      let elements ← bytesAt kind.element source elementsS elementsE
      return .v0 metadata elements)
    (do
      let (head, elementsS, elementsE, _) ←
        prefixAt frame1.header source frame1.tag.length
      let elements ← bytesAt kind.element source elementsS elementsE
      return .v1 head elements)

def Typed : CentroidTuple kind → Prop
  | .v0 metadata elements => kind.metadata.Valid metadata ∧ kind.element.ValidAll elements
  | .v1 head elements => u16.Valid head ∧ kind.element.ValidAll elements

theorem readsBack : ReadsBack (@Typed kind) serialize deserializeRef := by
  intro self typed short
  cases self with
  | v0 metadata elements =>
    rw [serialize] at short ⊢
    rw [deserializeRef, byTag_zero frame0 rfl, frame0.prefixAt_assemble]
    · simp only [bind_eq_bind, bind_some]
      rw [frame0.prefixAt_slice (i := 0) (by rfl) typed.1 short,
        frame0.bytesAt_assemble (i := 1) (by rfl) kind.element_pos typed.2 short]
      rfl
    · exact fun _ => ⟨trivial, trivial, trivial, trivial⟩
  | v1 head elements =>
    rw [serialize] at short ⊢
    rw [deserializeRef, byTag_one frame1 rfl, frame1.prefixAt_assemble]
    · simp only [bind_eq_bind, bind_some]
      rw [frame1.bytesAt_assemble (i := 0) (by rfl) kind.element_pos typed.2 short]
      rfl
    · exact fun _ => ⟨typed.1, trivial, trivial, trivial⟩

end CentroidTuple

namespace VectorTuple

variable {kind : VectorKind}

/-- `VectorTupleHeader0`: `payload`, `metadata_s`, `elements_s` and `elements_e`. -/
def frame0 : Frame (Option Payload × Offset × Offset × Offset × Unit) where
  tag := le 8 0
  fields := optionPayload ×ˢ offset ×ˢ offset ×ˢ offset ×ˢ padding 2

/-- `VectorTupleHeader1`: `payload`, `head`, `elements_s` and `elements_e`. -/
def frame1 : Frame (Option Payload × Nat × Offset × Offset × Unit) where
  tag := le 8 1
  fields := optionPayload ×ˢ u16 ×ˢ offset ×ˢ offset ×ˢ padding 2

def serialize : VectorTuple kind → Bytes
  | .v0 payload metadata elements =>
    frame0.assemble (fun span => (payload, (span 0).1, (span 1).1, (span 1).2, ()))
      [kind.metadata.encode metadata, kind.element.encodeAll elements]
  | .v1 payload head elements =>
    frame1.assemble (fun span => (payload, head, (span 0).1, (span 0).2, ()))
      [kind.element.encodeAll elements]

def deserializeRef (source : Bytes) : Option (VectorTuple kind) :=
  byTag source
    (do
      let (payload, metadataS, elementsS, elementsE, _) ←
        prefixAt frame0.header source frame0.tag.length
      let metadata ← prefixAt kind.metadata source metadataS
      let elements ← bytesAt kind.element source elementsS elementsE
      return .v0 payload metadata elements)
    (do
      let (payload, head, elementsS, elementsE, _) ←
        prefixAt frame1.header source frame1.tag.length
      let elements ← bytesAt kind.element source elementsS elementsE
      return .v1 payload head elements)

def Typed : VectorTuple kind → Prop
  | .v0 payload metadata elements =>
    optionPayload.Valid payload ∧ kind.metadata.Valid metadata ∧ kind.element.ValidAll elements
  | .v1 payload head elements =>
    optionPayload.Valid payload ∧ u16.Valid head ∧ kind.element.ValidAll elements

theorem readsBack : ReadsBack (@Typed kind) serialize deserializeRef := by
  intro self typed short
  cases self with
  | v0 payload metadata elements =>
    rw [serialize] at short ⊢
    rw [deserializeRef, byTag_zero frame0 rfl, frame0.prefixAt_assemble]
    · simp only [bind_eq_bind, bind_some]
      rw [frame0.prefixAt_slice (i := 0) (by rfl) typed.2.1 short,
        frame0.bytesAt_assemble (i := 1) (by rfl) kind.element_pos typed.2.2 short]
      rfl
    · exact fun _ => ⟨typed.1, trivial, trivial, trivial, trivial⟩
  | v1 payload head elements =>
    rw [serialize] at short ⊢
    rw [deserializeRef, byTag_one frame1 rfl, frame1.prefixAt_assemble]
    · simp only [bind_eq_bind, bind_some]
      rw [frame1.bytesAt_assemble (i := 0) (by rfl) kind.element_pos typed.2.2 short]
      rfl
    · exact fun _ => ⟨typed.1, typed.2.1, trivial, trivial, trivial⟩

end VectorTuple

/-! ## Tuples with blocks of 32 codes -/

namespace H1Tuple

/-- `H1TupleHeader0`: `metadata`, `delta`, `prefetch_s`, `prefetch_e`, `head`, `norm`,
`first`, `len`, `elements_s` and `elements_e`. -/
def frame0 :=
  ({ tag := le 8 0
     fields := array 4 lane32 ×ˢ lane32 ×ˢ offset ×ˢ offset ×ˢ array 32 u16 ×ˢ lane32 ×ˢ lane32 ×ˢ
       u32 ×ˢ offset ×ˢ offset ×ˢ padding 4 } : Frame _)

def record (self : H1Header) (span : Spans) : frame0.Record :=
  (self.metadata, self.delta, (span 0).1, (span 0).2, self.head, self.norm, self.first, self.len,
    (span 1).1, (span 1).2, ())

def serialize : H1Tuple → Bytes
  | .v0 header elements =>
    frame0.assemble (record header) [lane32.encodeAll header.prefetch, row.encodeAll elements]
  | .v1 elements => serializeSlice row 1 elements

def deserializeRef (source : Bytes) : Option H1Tuple :=
  byTag source
    (do
      let (metadata, delta, prefetchS, prefetchE, head, norm, first, len, elementsS, elementsE, _)
        ← prefixAt frame0.header source frame0.tag.length
      let prefetch ← bytesAt lane32 source prefetchS prefetchE
      let elements ← bytesAt row source elementsS elementsE
      return .v0 { metadata, delta, prefetch, head, norm, first, len } elements)
    (do return .v1 (← deserializeSlice row 1 source))

def Typed : H1Tuple → Prop
  | .v0 header elements =>
    (∀ span, frame0.fields.Valid (record header span)) ∧ lane32.ValidAll header.prefetch ∧
      row.ValidAll elements
  | .v1 elements => row.ValidAll elements

theorem readsBack : ReadsBack Typed serialize deserializeRef := by
  intro self typed short
  cases self with
  | v0 header elements =>
    rw [serialize] at short ⊢
    rw [deserializeRef, byTag_zero frame0 rfl, frame0.prefixAt_assemble typed.1]
    simp only [record, bind_eq_bind, bind_some]
    rw [frame0.bytesAt_assemble (i := 0) (by rfl) (by decide) typed.2.1 short,
      frame0.bytesAt_assemble (i := 1) (by rfl) (by decide) typed.2.2 short]
    rfl
  | v1 elements =>
    rw [serialize] at short ⊢
    rw [deserializeRef, deserializeSlice_serializeSlice (by decide) typed short]
    exact byTag_one (sliceFrame 1) rfl _ _ _ _

end H1Tuple

namespace FrozenTuple

/-- `FrozenTupleHeader0`: `metadata`, `delta`, `payload`, `prefetch_s`, `prefetch_e`, `head`,
`elements_s` and `elements_e`. -/
def frame0 :=
  ({ tag := le 8 0
     fields := array 4 lane32 ×ˢ lane32 ×ˢ array 32 optionPayload ×ˢ offset ×ˢ offset ×ˢ
       array 32 u16 ×ˢ offset ×ˢ offset } : Frame _)

def record (self : FrozenHeader) (span : Spans) : frame0.Record :=
  (self.metadata, self.delta, self.payload, (span 0).1, (span 0).2, self.head, (span 1).1,
    (span 1).2)

def serialize : FrozenTuple → Bytes
  | .v0 header elements =>
    frame0.assemble (record header) [lane32.encodeAll header.prefetch, row.encodeAll elements]
  | .v1 elements => serializeSlice row 1 elements

def deserializeRef (source : Bytes) : Option FrozenTuple :=
  byTag source
    (do
      let (metadata, delta, payload, prefetchS, prefetchE, head, elementsS, elementsE) ←
        prefixAt frame0.header source frame0.tag.length
      let prefetch ← bytesAt lane32 source prefetchS prefetchE
      let elements ← bytesAt row source elementsS elementsE
      return .v0 { metadata, delta, payload, prefetch, head } elements)
    (do return .v1 (← deserializeSlice row 1 source))

/-- Write `payload` through the writer of the first form; that of the other form has none. -/
def writePayload (new : Fin 32 → Option Payload) (source : Bytes) : Option Bytes :=
  byTag source
    (do
      let ((_, _, _, _, _, _, elementsS, elementsE), flag) ←
        MutChecker.prefixAt frame0.header source 0 frame0.tag.length
      let _ ← MutChecker.bytesAt row source flag elementsS elementsE
      let payload : Field frame0.fields (Fin 32 → Option Payload) := .next (.next .first)
      return payload.write frame0.tag.length new source)
    none

def Typed : FrozenTuple → Prop
  | .v0 header elements =>
    (∀ span, frame0.fields.Valid (record header span)) ∧ lane32.ValidAll header.prefetch ∧
      row.ValidAll elements
  | .v1 elements => row.ValidAll elements

theorem readsBack : ReadsBack Typed serialize deserializeRef := by
  intro self typed short
  cases self with
  | v0 header elements =>
    rw [serialize] at short ⊢
    rw [deserializeRef, byTag_zero frame0 rfl, frame0.prefixAt_assemble typed.1]
    simp only [record, bind_eq_bind, bind_some]
    rw [frame0.bytesAt_assemble (i := 0) (by rfl) (by decide) typed.2.1 short,
      frame0.bytesAt_assemble (i := 1) (by rfl) (by decide) typed.2.2 short]
    rfl
  | v1 elements =>
    rw [serialize] at short ⊢
    rw [deserializeRef, deserializeSlice_serializeSlice (by decide) typed short]
    exact byTag_one (sliceFrame 1) rfl _ _ _ _

theorem writePayload_serialize {header : FrozenHeader} {elements : List Row}
    (typed : Typed (.v0 header elements)) (new : Fin 32 → Option Payload)
    (short : (serialize (.v0 header elements)).length < 65536) :
    writePayload new (serialize (.v0 header elements)) =
      some (serialize (.v0 { header with payload := new } elements)) := by
  rw [serialize] at short ⊢
  rw [writePayload, byTag_zero frame0 rfl, frame0.mutPrefixAt_assemble typed.1]
  simp only [record, bind_eq_bind, bind_some]
  rw [frame0.mutBytesAt_assemble (i := 1) (by rfl) (by decide) typed.2.2 short
    (frame0.header_le_spans (by rfl) short)]
  exact congrArg some (frame0.write_assemble (.next (.next .first)) new _ _)

end FrozenTuple

namespace AppendableTuple

/-- `AppendableTupleHeader`: `metadata`, `delta`, `prefetch_s`, `prefetch_e`, `head`,
`elements_s`, `elements_e` and `payload`. -/
def frame :=
  ({ tag := []
     fields := array 4 u32 ×ˢ u32 ×ˢ offset ×ˢ offset ×ˢ u16 ×ˢ padding 2 ×ˢ offset ×ˢ offset ×ˢ
       optionPayload } : Frame _)

variable (self : AppendableTuple)

def record (span : Spans) : frame.Record :=
  (self.metadata, self.delta, (span 0).1, (span 0).2, self.head, (), (span 1).1, (span 1).2,
    self.payload)

def serialize : Bytes :=
  frame.assemble self.record [u32.encodeAll self.prefetch, u64.encodeAll self.elements]

def deserializeRef (source : Bytes) : Option AppendableTuple := do
  let (metadata, delta, prefetchS, prefetchE, head, _, elementsS, elementsE, payload) ←
    prefixAt frame.header source frame.tag.length
  let prefetch ← bytesAt u32 source prefetchS prefetchE
  let elements ← bytesAt u64 source elementsS elementsE
  return { metadata, delta, prefetch, head, elements, payload }

/-- Write `payload` through the writer. -/
def writePayload (new : Option Payload) (source : Bytes) : Option Bytes := do
  let ((_, _, _, _, _, _, elementsS, elementsE, _), flag) ←
    MutChecker.prefixAt frame.header source 0 frame.tag.length
  let _ ← MutChecker.bytesAt u64 source flag elementsS elementsE
  let payload : Field frame.fields (Option Payload) :=
    .next (.next (.next (.next (.next (.next (.next (.next .last)))))))
  return payload.write frame.tag.length new source

def Typed : Prop :=
  (∀ span, frame.fields.Valid (self.record span)) ∧ u32.ValidAll self.prefetch ∧
    u64.ValidAll self.elements

theorem readsBack : ReadsBack Typed serialize deserializeRef := by
  intro self typed short
  rw [serialize] at short ⊢
  rw [deserializeRef, frame.prefixAt_assemble typed.1]
  simp only [record, bind_eq_bind, bind_some]
  rw [frame.bytesAt_assemble (i := 0) (by rfl) (by decide) typed.2.1 short,
    frame.bytesAt_assemble (i := 1) (by rfl) (by decide) typed.2.2 short]
  rfl

theorem writesPayload :
    WritesOnly Typed serialize writePayload fun new self => { self with payload := new } := by
  intro self new typed short
  rw [serialize] at short ⊢
  rw [writePayload, frame.mutPrefixAt_assemble typed.1]
  simp only [record, bind_eq_bind, bind_some]
  rw [frame.mutBytesAt_assemble (i := 1) (by rfl) (by decide) typed.2.2 short
    (frame.header_le_spans (by rfl) short)]
  exact congrArg some (frame.write_assemble _ new _ _)

end AppendableTuple

/-! ## Jump tuples -/

namespace JumpTuple

/-- `JumpTupleHeader`: `centroid_prefetch_s`, `centroid_prefetch_e`, `centroid_head`,
`directory_first`, `frozen_first`, `appendable_first` and `tuples`. -/
def frame :=
  ({ tag := []
     fields := offset ×ˢ offset ×ˢ u16 ×ˢ padding 6 ×ˢ u32 ×ˢ u32 ×ˢ u32 ×ˢ u64 } : Frame _)

variable (self : JumpTuple)

def record (span : Spans) : frame.Record :=
  ((span 0).1, (span 0).2, self.centroidHead, (), self.directoryFirst, self.frozenFirst,
    self.appendableFirst, self.tuples)

def serialize : Bytes := frame.assemble self.record [u32.encodeAll self.centroidPrefetch]

def deserializeRef (source : Bytes) : Option JumpTuple := do
  let (centroidPrefetchS, centroidPrefetchE, centroidHead, _, directoryFirst, frozenFirst,
    appendableFirst, tuples) ← prefixAt frame.header source frame.tag.length
  let centroidPrefetch ← bytesAt u32 source centroidPrefetchS centroidPrefetchE
  return { centroidPrefetch, centroidHead, directoryFirst, frozenFirst, appendableFirst, tuples }

/-- Write a field through the writer. -/
def write (field : Field frame.fields Nat) (new : Nat) (source : Bytes) : Option Bytes := do
  let _ ← MutChecker.prefixAt frame.header source 0 frame.tag.length
  return field.write frame.tag.length new source

def writeDirectoryFirst := write (.next (.next (.next (.next .first))))

def writeFrozenFirst := write (.next (.next (.next (.next (.next .first)))))

def writeAppendableFirst := write (.next (.next (.next (.next (.next (.next .first))))))

def writeTuples := write (.next (.next (.next (.next (.next (.next (.next .last)))))))

def Typed : Prop :=
  (∀ span, frame.fields.Valid (self.record span)) ∧ u32.ValidAll self.centroidPrefetch

theorem readsBack : ReadsBack Typed serialize deserializeRef := by
  intro self typed short
  rw [serialize] at short ⊢
  rw [deserializeRef, frame.prefixAt_assemble typed.1]
  simp only [record, bind_eq_bind, bind_some]
  rw [frame.bytesAt_assemble (i := 0) (by rfl) (by decide) typed.2 short]
  rfl

variable {self}

theorem write_serialize (field : Field frame.fields Nat) (new : Nat) :
    write field new self.serialize = some (frame.assemble
      (fun span => field.set new (self.record span)) [u32.encodeAll self.centroidPrefetch]) := by
  exact congrArg some (frame.write_assemble field new _ _)

end JumpTuple

/-! ## Meta tuples -/

namespace MetaTuple

/-- `MAGIC`, the bytes of `vchordrq`. -/
def magic : Bytes := [118, 99, 104, 111, 114, 100, 114, 113]

/-- `VERSION`. -/
def version : Nat := 1001

/-- `STATISTICS_VERSION`. -/
def statistics : Nat := 1

/-- `MAX_INDEXED_VECTORS`. -/
def maxIndexedVectors : Nat := 2 ^ 48 - 1

/-- `MetaTupleHeader`: `version`, `dim`, `height_of_root`, `is_residual`, `rerank_in_heap`,
`cells_s`, `cells_e`, `statistics_version`, `centroids_first`, `vectors_first_s`,
`vectors_first_e`, `freepages_first`, `indexed_vectors_low`, `indexed_vectors_high`,
`centroid_prefetch_s`, `centroid_prefetch_e`, `centroid_head`, `centroid_norm` and `first`. -/
def frame :=
  ({ tag := magic
     fields := u64 ×ˢ u32 ×ˢ u32 ×ˢ bool ×ˢ bool ×ˢ offset ×ˢ offset ×ˢ u16 ×ˢ u32 ×ˢ offset ×ˢ
       offset ×ˢ u32 ×ˢ u32 ×ˢ u16 ×ˢ offset ×ˢ offset ×ˢ u16 ×ˢ u32 ×ˢ u32 } : Frame _)

def statisticsVersion : Field frame.fields Nat :=
  .next (.next (.next (.next (.next (.next (.next .first))))))

def indexedVectorsLow : Field frame.fields Nat :=
  .next (.next (.next (.next (.next (.next (.next (.next (.next (.next (.next
    (.next .first)))))))))))

def indexedVectorsHigh : Field frame.fields Nat :=
  .next (.next (.next (.next (.next (.next (.next (.next (.next (.next (.next (.next (.next
    .first))))))))))))

variable (self : MetaTuple)

def record (span : Spans) : frame.Record :=
  (version, self.dim, self.heightOfRoot, self.isResidual, self.rerankInHeap, (span 0).1,
    (span 0).2, if self.indexedVectors.isSome then statistics else 0, self.centroidsFirst,
    (span 1).1, (span 1).2, self.freepagesFirst, self.indexedVectors.getD 0 % 2 ^ 32,
    (self.indexedVectors.getD 0 >>> 32) % 2 ^ 16, (span 2).1, (span 2).2, self.centroidHead,
    self.centroidNorm, self.first)

def slices : List Bytes :=
  [u32.encodeAll self.cells, u32.encodeAll self.vectorsFirst, u32.encodeAll self.centroidPrefetch]

def serialize : Option Bytes :=
  if self.indexedVectors.all (· ≤ maxIndexedVectors) then
    some (frame.assemble self.record self.slices)
  else none

def deserializeRef (source : Bytes) : Option MetaTuple :=
  if source.take 8 = magic then do
    let (found, dim, heightOfRoot, isResidual, rerankInHeap, cellsS, cellsE, statisticsVersion,
      centroidsFirst, vectorsFirstS, vectorsFirstE, freepagesFirst, low, high, centroidPrefetchS,
      centroidPrefetchE, centroidHead, centroidNorm, first) ←
      prefixAt frame.header source frame.tag.length
    guard (found = version)
    let cells ← bytesAt u32 source cellsS cellsE
    let vectorsFirst ← bytesAt u32 source vectorsFirstS vectorsFirstE
    let centroidPrefetch ← bytesAt u32 source centroidPrefetchS centroidPrefetchE
    -- The accessor of the count fails for any other version of the statistics.
    guard (statisticsVersion = 0 ∨ statisticsVersion = statistics)
    let indexedVectors := if statisticsVersion = 0 then none else some (low ||| high <<< 32)
    return { dim, heightOfRoot, isResidual, rerankInHeap, indexedVectors, cells, centroidsFirst,
             vectorsFirst, freepagesFirst, centroidPrefetch, centroidHead, centroidNorm, first }
  else none

/-- `set_indexed_vectors` of the writer. -/
def setIndexedVectors (new : Nat) (source : Bytes) : Option Bytes :=
  if source.take 8 = magic then do
    let ((found, _), _) ← MutChecker.prefixAt frame.header source 0 frame.tag.length
    guard (found = version)
    guard (new ≤ maxIndexedVectors)
    let source := statisticsVersion.write frame.tag.length statistics source
    let source := indexedVectorsLow.write frame.tag.length (new % 2 ^ 32) source
    return indexedVectorsHigh.write frame.tag.length ((new >>> 32) % 2 ^ 16) source
  else none

def Typed : Prop :=
  (∀ span, frame.fields.Valid (self.record span)) ∧ u32.ValidAll self.cells ∧
    u32.ValidAll self.vectorsFirst ∧ u32.ValidAll self.centroidPrefetch

variable {self}

theorem join_halves {n : Nat} (small : n < 2 ^ 48) :
    n % 2 ^ 32 ||| (n >>> 32 % 2 ^ 16) <<< 32 = n := by
  have high : n >>> 32 < 2 ^ 16 := by
    omega
  rw [Nat.or_comm, Nat.mod_eq_of_lt high,
    ← Nat.shiftLeft_add_eq_or_of_lt (Nat.mod_lt n (Nat.two_pow_pos 32)),
    Nat.shiftRight_eq_div_pow, Nat.shiftLeft_eq]
  omega

theorem deserializeRef_assemble (typed : self.Typed)
    (counted : ∀ count ∈ self.indexedVectors, count < 2 ^ 48)
    (short : (frame.assemble self.record self.slices).length < 65536) :
    deserializeRef (frame.assemble self.record self.slices) = some self := by
  rw [deserializeRef, take_tag frame magic rfl rfl, if_pos rfl, frame.prefixAt_assemble typed.1]
  simp only [record, bind_eq_bind, bind_some]
  rw [frame.bytesAt_assemble (i := 0) (by rfl) (by decide) typed.2.1 short,
    frame.bytesAt_assemble (i := 1) (by rfl) (by decide) typed.2.2.1 short,
    frame.bytesAt_assemble (i := 2) (by rfl) (by decide) typed.2.2.2 short]
  rcases self with ⟨_, _, _, _, count, _, _, _, _, _, _, _, _⟩
  cases count with
  | none => rfl
  | some count => simpa [guard, statistics] using join_halves (counted count rfl)

theorem setIndexedVectors_assemble (typed : self.Typed) (new : Nat) :
    setIndexedVectors new (frame.assemble self.record self.slices) =
      serialize { self with indexedVectors := some new } := by
  rw [setIndexedVectors, take_tag frame magic rfl rfl, if_pos rfl,
    frame.mutPrefixAt_assemble typed.1]
  simp only [bind_eq_bind, bind_some, frame.write_assemble]
  by_cases small : new ≤ maxIndexedVectors
  · simp only [serialize, Option.all_some, small, decide_true, if_pos, record, guard]
    rfl
  · simp [serialize, small, guard]

end MetaTuple

/-! ## All tuples -/

namespace Tuple

variable {kind : VectorKind}

/-- `FreepagesTupleHeader`: `first`. -/
def freepagesFrame : Frame (Nat × Unit) where
  tag := []
  fields := u32 ×ˢ padding 4

/-- `serialize` of any tuple. -/
def serialize : Tuple kind → Option Bytes
  | .metaTuple tuple => tuple.serialize
  | .freepages first => some (freepagesFrame.assemble (fun _ => (first, ())) [])
  | .centroid tuple => some tuple.serialize
  | .vector tuple => some tuple.serialize
  | .directory tuple => some tuple.serialize
  | .h1 tuple => some tuple.serialize
  | .jump tuple => some tuple.serialize
  | .frozen tuple => some tuple.serialize
  | .appendable tuple => some tuple.serialize

/-- The size of a tuple on a page is the length of its bytes. -/
theorem length_serialize {tuple : Tuple kind} {bytes : Bytes}
    (done : tuple.serialize = some bytes) : bytes.length = tuple.size := by
  cases tuple with
  | metaTuple tuple =>
    obtain ⟨_, done⟩ := Option.ite_none_right_eq_some.mp done
    cases done
    rw [MetaTuple.frame.length_assemble_eq (by decide : _ = 64)]
    simp [size, MetaTuple.slices, length_encodeAll, Nat.add_assoc]
  | freepages first =>
    cases done
    exact freepagesFrame.length_assemble_eq (by decide : _ = 8) _ _
  | centroid tuple =>
    cases done
    cases tuple <;> simp [size, CentroidTuple.serialize, length_encodeAll, Plain.length_encode,
      CentroidTuple.frame0.length_assemble_eq (by decide : _ = 16),
      CentroidTuple.frame1.length_assemble_eq (by decide : _ = 16), Nat.add_assoc]
  | vector tuple =>
    cases done
    cases tuple <;> simp [size, VectorTuple.serialize, length_encodeAll, Plain.length_encode,
      VectorTuple.frame0.length_assemble_eq (by decide : _ = 24),
      VectorTuple.frame1.length_assemble_eq (by decide : _ = 24), Nat.add_assoc]
  | directory tuple =>
    cases done
    cases tuple <;> simp [size, DirectoryTuple.serialize, length_serializeSlice]
  | h1 tuple =>
    cases done
    cases tuple <;> simp [size, H1Tuple.serialize, length_encodeAll, length_serializeSlice,
      H1Tuple.frame0.length_assemble_eq (by decide : _ = 984), Nat.add_assoc]
  | jump tuple =>
    cases done
    simp [size, JumpTuple.serialize, length_encodeAll,
      JumpTuple.frame.length_assemble_eq (by decide : _ = 32)]
  | frozen tuple =>
    cases done
    cases tuple <;> simp [size, FrozenTuple.serialize, length_encodeAll, length_serializeSlice,
      FrozenTuple.frame0.length_assemble_eq (by decide : _ = 976), Nat.add_assoc]
  | appendable tuple =>
    cases done
    simp [size, AppendableTuple.serialize, length_encodeAll,
      AppendableTuple.frame.length_assemble_eq (by decide : _ = 40), Nat.add_assoc]

end Tuple

/-- Every tuple reads back as it was written, and a writer changes the field it is for and
nothing else.  A count of vectors that is too large is refused by the writer as by
`serialize`. -/
theorem tuples_readBack (kind : VectorKind) :
    (∀ self : MetaTuple, self.Typed → (∀ count ∈ self.indexedVectors, count < 2 ^ 48) →
      ∃ bytes, self.serialize = some bytes ∧ (bytes.length < 65536 →
        MetaTuple.deserializeRef bytes = some self ∧
        ∀ new, MetaTuple.setIndexedVectors new bytes =
          MetaTuple.serialize { self with indexedVectors := some new })) ∧
    ReadsBack (@CentroidTuple.Typed kind) CentroidTuple.serialize CentroidTuple.deserializeRef ∧
    ReadsBack (@VectorTuple.Typed kind) VectorTuple.serialize VectorTuple.deserializeRef ∧
    ReadsBack DirectoryTuple.Typed DirectoryTuple.serialize DirectoryTuple.deserializeRef ∧
    ReadsBack H1Tuple.Typed H1Tuple.serialize H1Tuple.deserializeRef ∧
    ReadsBack JumpTuple.Typed JumpTuple.serialize JumpTuple.deserializeRef ∧
    ReadsBack FrozenTuple.Typed FrozenTuple.serialize FrozenTuple.deserializeRef ∧
    ReadsBack AppendableTuple.Typed AppendableTuple.serialize AppendableTuple.deserializeRef ∧
    WritesOnly JumpTuple.Typed JumpTuple.serialize JumpTuple.writeDirectoryFirst
      (fun new self => { self with directoryFirst := new }) ∧
    WritesOnly JumpTuple.Typed JumpTuple.serialize JumpTuple.writeFrozenFirst
      (fun new self => { self with frozenFirst := new }) ∧
    WritesOnly JumpTuple.Typed JumpTuple.serialize JumpTuple.writeAppendableFirst
      (fun new self => { self with appendableFirst := new }) ∧
    WritesOnly JumpTuple.Typed JumpTuple.serialize JumpTuple.writeTuples
      (fun new self => { self with tuples := new }) ∧
    (∀ header elements new, FrozenTuple.Typed (.v0 header elements) →
      (FrozenTuple.serialize (.v0 header elements)).length < 65536 →
      FrozenTuple.writePayload new (FrozenTuple.serialize (.v0 header elements)) =
        some (FrozenTuple.serialize (.v0 { header with payload := new } elements))) ∧
    WritesOnly AppendableTuple.Typed AppendableTuple.serialize AppendableTuple.writePayload
      (fun new self => { self with payload := new }) := by
  refine ⟨fun self typed counted => ?_, CentroidTuple.readsBack, VectorTuple.readsBack,
    DirectoryTuple.readsBack, H1Tuple.readsBack, JumpTuple.readsBack, FrozenTuple.readsBack,
    AppendableTuple.readsBack, fun self new _ _ => JumpTuple.write_serialize _ new,
    fun self new _ _ => JumpTuple.write_serialize _ new,
    fun self new _ _ => JumpTuple.write_serialize _ new,
    fun self new _ _ => JumpTuple.write_serialize _ new,
    fun header elements new typed short => FrozenTuple.writePayload_serialize typed new short,
    AppendableTuple.writesPayload⟩
  have accepted : self.indexedVectors.all (· ≤ MetaTuple.maxIndexedVectors) = true := by
    rw [Option.all_eq_true]
    exact fun count held => decide_eq_true (Nat.le_of_lt_succ (counted count held))
  exact ⟨_, if_pos accepted, fun short => ⟨MetaTuple.deserializeRef_assemble typed counted short,
    MetaTuple.setIndexedVectors_assemble typed⟩⟩

end VectorChord.Vchordrq
