import VectorChord.Maxsim.Distance
import VectorChord.Maxsim.Encoder

/-!
# Responses in the extension

`decode_response_for_version` reads the frame of the daemon: the results of a request, one
for each heap key, or a message about a failure.
-/

namespace VectorChord.Maxsim

open Codec Collections Transition List Fallible
open Accepts (unsignedOr_bind require_bind)
open Tilemaxsimd (magic headerBytes responseHeader resultBytes success failure
  isFiniteF32)

/-! ## Cursor -/

namespace Cursor

/-- `bytes`. -/
def bytes (count : Nat) : Fallible RerankError Reader (List UInt8) :=
  Reader.takeOr (.protocol "message offset overflow") (.protocol "truncated message") count

/-- `u16`, `u32` and `u64`. -/
def unsigned (width : Nat) : Fallible RerankError Reader Nat := do
  let bytes ← bytes width
  pure (fromLe bytes)

/-- `finish`. -/
def finish : Fallible RerankError Reader Unit :=
  Reader.finishOr (.protocol "trailing response bytes")

end Cursor

/-! ## Decoding -/

section

variable {κ : Type}

/-- `RerankResults`: what the heap of results holds. -/
structure RerankResults (κ : Type) where
  inner : List (Distance × κ)

/-- `decode_response_for_version`, up to the length of the body.  A `u64` is a `usize`. -/
def decodeHeader (frameLength : Nat) (expectedVersion : UInt16) (requestId : UInt64) :
    Fallible RerankError Reader Unit := do
  let mark ← Cursor.bytes 4
  Fallible.require (mark = magic) (.protocol "invalid magic")
  let version ← Cursor.unsigned 2
  Fallible.require (version = expectedVersion.toNat) (.protocol "unsupported version")
  let kind ← Cursor.unsigned 2
  Fallible.require (kind = 2) (.protocol "unexpected message kind")
  let id ← Cursor.unsigned 8
  Fallible.require (id = requestId.toNat) (.protocol "request ID mismatch")
  let bodyLen ← Cursor.unsigned 8
  Fallible.require (bodyLen = frameLength - headerBytes) (.protocol "response length mismatch")

/-- The message of a failure, with `MAX_REMOTE_ERROR_BYTES`. -/
def decodeRemote : Fallible RerankError Reader (RerankResults κ) := do
  let length ← Cursor.unsigned 4
  Fallible.require (length ≤ 64 * 1024) (.protocol "remote error is too large")
  let bytes ← Cursor.bytes length
  match fromUtf8 bytes with
  | none => throw (.protocol "remote error is not UTF-8")
  | some message => do
    Cursor.finish
    throw (.remote message)

/-- What the loop over results keeps: the candidates it has seen, and the results. -/
structure Decoded (κ : Type) where
  seen : List Bool
  results : List (Distance × κ)

/-- One iteration of the loop over results. -/
def decodeResult (heapKeys : List κ) (decoded : Decoded κ) :
    Fallible RerankError Reader (Decoded κ) := do
  let candidateId ← Cursor.unsigned 4
  match heapKeys[candidateId]? with
  | none => throw (.protocol "unknown candidate ID")
  | some heapKey => do
    Fallible.require (decoded.seen[candidateId]? ≠ some true)
      (.protocol "duplicate candidate ID")
    let bits ← Cursor.unsigned 4
    Fallible.require (isFiniteF32 bits = true) (.protocol "non-finite similarity")
    let distance := Distance.fromF32 (negF32 (BitVec.ofNat 32 bits))
    pure ⟨decoded.seen.set candidateId true, decoded.results ++ [(distance, heapKey)]⟩

/-- The loop over results. -/
def decodeResults (heapKeys : List κ) :
    (count : Nat) → Decoded κ → Fallible RerankError Reader (Decoded κ)
  | 0, decoded => pure decoded
  | count + 1, decoded => do
    let decoded ← decodeResult heapKeys decoded
    decodeResults heapKeys count decoded

/-- The results. -/
def decodeSuccess (heapKeys : List κ) : Fallible RerankError Reader (RerankResults κ) := do
  let resultCount ← Cursor.unsigned 4
  Fallible.require (resultCount = heapKeys.length) (.protocol "partial result set")
  let decoded ← decodeResults heapKeys resultCount
    ⟨List.replicate heapKeys.length false, []⟩
  Cursor.finish
  Fallible.require (decoded.seen.any (! ·) = false) (.protocol "partial result set")
  pure ⟨decoded.results⟩

/-- `decode_response_for_version`, with the cursor as state. -/
def decodeFrame (frameLength : Nat) (expectedVersion : UInt16) (requestId : UInt64)
    (heapKeys : List κ) : Fallible RerankError Reader (RerankResults κ) := do
  decodeHeader frameLength expectedVersion requestId
  let status ← Cursor.unsigned 4
  if status ≠ 0 then decodeRemote else decodeSuccess heapKeys

/-- `decode_response_for_version`. -/
def decodeResponseForVersion (frame : List UInt8) (expectedVersion : UInt16) (requestId : UInt64)
    (heapKeys : List κ) : Except RerankError (RerankResults κ) :=
  ((decodeFrame frame.length expectedVersion requestId heapKeys).step ⟨frame, 0⟩).1

end

/-! ## Reading forwards -/

theorem Cursor.unsigned_reads {width value : Nat} (small : value < 256 ^ width) :
    Reads (Cursor.unsigned width) (le width value) value :=
  Reads.unsignedOr _ _ small

theorem decodeHeader_reads {frameLength bodyBytes : Nat} (version : UInt16) (requestId : UInt64)
    (small : bodyBytes < 2 ^ 64) (length : bodyBytes = frameLength - headerBytes) :
    Reads (decodeHeader frameLength version requestId)
      (responseHeader version requestId bodyBytes) () := by
  have fits : version.toNat < 256 ^ 2 := version.toNat_lt
  have fits' : requestId.toNat < 256 ^ 8 := requestId.toNat_lt
  have mark : magic.length = 4 := by decide +kernel
  apply (Reads.takeOr _ _ mark).bind
  apply (Cursor.unsigned_reads fits).bind
  apply (Reads.require rfl _).bind_nil
  apply (Cursor.unsigned_reads (by decide)).bind
  apply (Reads.require rfl _).bind_nil
  apply (Cursor.unsigned_reads fits').bind
  apply (Reads.require rfl _).bind_nil
  apply (Cursor.unsigned_reads small).bind_end
  exact Reads.require length _

/-! ## Candidates seen -/

/-- The flags of the candidates that were seen. -/
def marks (count : Nat) (ids : List Nat) : List Bool :=
  (List.range count).map fun i => decide (i ∈ ids)

@[simp] theorem marks_nil (count : Nat) : marks count [] = List.replicate count false := by
  simp [marks, map_const']

theorem marks_eq_some_true {count i : Nat} {ids : List Nat} (inside : i < count) :
    (marks count ids)[i]? = some true ↔ i ∈ ids := by
  simp [marks, inside]

theorem set_marks {count i : Nat} (ids : List Nat) (inside : i < count) :
    (marks count ids).set i true = marks count (i :: ids) := by
  apply ext_getElem?
  intro k
  by_cases same : i = k
  · subst same
    simp [marks, inside]
  · rw [getElem?_set_ne same]
    by_cases within : k < count
    · simp [marks, within, Ne.symm same]
    · simp [marks, within]

theorem any_marks {count : Nat} {ids : List Nat} :
    (marks count ids).any (! ·) = false ↔ ∀ i < count, i ∈ ids := by
  simp [marks]

section

variable {κ : Type}

/-- The results that are accepted behind the candidates `ids`, and what they are turned
into. -/
inductive Accepted (heapKeys : List κ) :
    (ids : List Nat) → List (UInt32 × BitVec 32) → List (Distance × κ) → Prop
  | nil {ids : List Nat} : Accepted heapKeys ids [] []
  | cons {ids : List Nat} {id : UInt32} {score : BitVec 32} {heapKey : κ}
      {sent : List (UInt32 × BitVec 32)} {results : List (Distance × κ)}
      (known : heapKeys[id.toNat]? = some heapKey) (new : id.toNat ∉ ids)
      (finite : isFiniteF32 score.toNat = true)
      (rest : Accepted heapKeys (id.toNat :: ids) sent results) :
      Accepted heapKeys ids ((id, score) :: sent)
        ((Distance.fromF32 (negF32 score), heapKey) :: results)

/-- The candidates of a list of results, the last one first. -/
def idsOf (sent : List (UInt32 × BitVec 32)) : List Nat :=
  (sent.map fun result => result.1.toNat).reverse

variable {heapKeys : List κ} {ids : List Nat} {sent : List (UInt32 × BitVec 32)}
  {results done : List (Distance × κ)} {reader reader' : Reader} {decoded : Decoded κ}
  {version : UInt16} {requestId : UInt64}

theorem decodeResult_reads {id : UInt32} {score : BitVec 32} {heapKey : κ}
    (known : heapKeys[id.toNat]? = some heapKey) (new : id.toNat ∉ ids)
    (finite : isFiniteF32 score.toNat = true) :
    Reads (decodeResult heapKeys ⟨marks heapKeys.length ids, done⟩) (resultBytes (id, score))
      ⟨marks heapKeys.length (id.toNat :: ids),
        done ++ [(Distance.fromF32 (negF32 score), heapKey)]⟩ := by
  have inside : id.toNat < heapKeys.length := (List.getElem?_eq_some_iff.mp known).1
  have unseen : (marks heapKeys.length ids)[id.toNat]? ≠ some true := by
    rw [Ne, marks_eq_some_true inside]
    exact new
  apply (Cursor.unsigned_reads (by exact id.toNat_lt)).bind
  rw [known]
  apply (Reads.require unseen _).bind_nil
  apply (Cursor.unsigned_reads (by exact score.isLt)).bind_end
  apply (Reads.require finite _).bind_nil
  rw [set_marks ids inside, BitVec.ofNat_toNat, BitVec.setWidth_eq]
  exact Reads.pure _

theorem decodeResults_reads (accepted : Accepted heapKeys ids sent results) :
    Reads (decodeResults heapKeys sent.length ⟨marks heapKeys.length ids, done⟩)
      (sent.flatMap resultBytes) ⟨marks heapKeys.length (idsOf sent ++ ids), done ++ results⟩ := by
  induction accepted generalizing done with
  | nil =>
    rw [append_nil]
    exact Reads.pure _
  | @cons ids id score heapKey sent results known new finite _ ih =>
    apply (decodeResult_reads known new finite).bind
    have shape := append_cons done (Distance.fromF32 (negF32 score), heapKey) results
    rw [idsOf, map_cons, reverse_cons, append_assoc, shape]
    exact ih

/-! ## Reading backwards -/

theorem accepts_decodeResult :
    Accepts (decodeResult heapKeys ⟨marks heapKeys.length ids, done⟩) fun taken decoded =>
      ∃ id score heapKey, heapKeys[UInt32.toNat id]? = some heapKey ∧ id.toNat ∉ ids ∧
        isFiniteF32 (BitVec.toNat score) = true ∧ taken = resultBytes (id, score) ∧
        decoded = ⟨marks heapKeys.length (id.toNat :: ids),
          done ++ [(Distance.fromF32 (negF32 score), heapKey)]⟩ := by
  apply unsignedOr_bind
  intro candidateId small
  cases known : heapKeys[candidateId]? with
  | none => exact Accepts.throw _
  | some heapKey =>
    have inside : candidateId < heapKeys.length := (List.getElem?_eq_some_iff.mp known).1
    apply require_bind
    intro unseen
    apply unsignedOr_bind
    intro bits small'
    apply require_bind
    intro finite
    apply Accepts.pure
    have number : (UInt32.ofNat candidateId).toNat = candidateId := UInt32.toNat_ofNat_of_lt small
    have score : (BitVec.ofNat 32 bits).toNat = bits := Nat.mod_eq_of_lt small'
    refine ⟨UInt32.ofNat candidateId, BitVec.ofNat 32 bits, heapKey, ?_, ?_, ?_, ?_, ?_⟩
    · rw [number]
      exact known
    · rw [number]
      exact fun member => unseen ((marks_eq_some_true inside).mpr member)
    · rw [score]
      exact finite
    · rw [resultBytes, number, score, append_nil]
    · rw [number, set_marks ids inside]

theorem accepts_decodeResults {count : Nat} :
    Accepts (decodeResults heapKeys count ⟨marks heapKeys.length ids, done⟩) fun taken decoded =>
      ∃ sent results, sent.length = count ∧ Accepted heapKeys ids sent results ∧
        taken = sent.flatMap resultBytes ∧
        decoded = ⟨marks heapKeys.length (idsOf sent ++ ids), done ++ results⟩ := by
  induction count generalizing ids done with
  | zero =>
    apply Accepts.pure
    exact ⟨[], [], rfl, .nil, rfl, by rw [append_nil]; rfl⟩
  | succ count ih =>
    apply accepts_decodeResult.bind
    rintro _ _ ⟨id, score, heapKey, known, new, finite, rfl, rfl⟩
    apply ih.mono
    rintro _ _ ⟨sent, results, length, accepted, rfl, rfl⟩
    refine ⟨(id, score) :: sent, (Distance.fromF32 (negF32 score), heapKey) :: results, ?_,
      .cons known new finite accepted, flatMap_cons.symm, ?_⟩
    · rw [length_cons, length]
    · rw [idsOf, idsOf, map_cons, reverse_cons, append_assoc, append_assoc]
      rfl

theorem accepts_decodeHeader {frameLength : Nat} :
    Accepts (decodeHeader frameLength version requestId) fun taken _ =>
      taken = responseHeader version requestId (frameLength - headerBytes) := by
  apply Accepts.takeOr.bind
  rintro _ mark ⟨rfl, _⟩
  apply require_bind
  rintro rfl
  apply unsignedOr_bind
  rintro _ _
  apply require_bind
  rintro rfl
  apply unsignedOr_bind
  rintro _ _
  apply require_bind
  rintro rfl
  apply unsignedOr_bind
  rintro _ _
  apply require_bind
  rintro rfl
  apply unsignedOr_bind
  rintro _ _
  apply Accepts.require
  rintro rfl
  rw [append_nil, responseHeader]

/-! ## What is accepted -/

theorem Accepted.nodup (accepted : Accepted heapKeys ids sent results) (unique : ids.Nodup) :
    (idsOf sent ++ ids).Nodup := by
  induction accepted with
  | nil => exact unique
  | cons known new finite _ ih =>
    rw [idsOf, map_cons, reverse_cons, append_assoc]
    exact ih (nodup_cons.mpr ⟨new, unique⟩)

theorem Accepted.inside (accepted : Accepted heapKeys ids sent results) :
    ∀ result ∈ sent, result.1.toNat < heapKeys.length ∧ isFiniteF32 result.2.toNat = true := by
  induction accepted with
  | nil => exact forall_mem_nil _
  | cons known _ finite _ ih =>
    exact forall_mem_cons.mpr ⟨⟨(List.getElem?_eq_some_iff.mp known).1, finite⟩, ih⟩

/-- As many results as heap keys are one for each. -/
theorem Accepted.perm (accepted : Accepted heapKeys [] sent results)
    (length : sent.length = heapKeys.length) :
    (sent.map fun result => result.1.toNat).Perm (List.range heapKeys.length) := by
  have unique := accepted.nodup nodup_nil
  rw [append_nil] at unique
  replace unique := (reverse_perm _).nodup unique
  have within : (sent.map fun result => result.1.toNat) ⊆ range heapKeys.length := by
    intro i member
    rcases mem_map.mp member with ⟨result, inside, rfl⟩
    exact mem_range.mpr (accepted.inside result inside).1
  apply (subperm_of_subset unique within).perm_of_length_le
  rw [length_range, length_map, length]

/-- Finite scores, one for each heap key, are accepted. -/
theorem accepted_of_nodup (unique : ((sent.map fun result => result.1.toNat) ++ ids).Nodup)
    (inside : ∀ result ∈ sent, result.1.toNat < heapKeys.length ∧
      isFiniteF32 result.2.toNat = true) :
    ∃ results, Accepted heapKeys ids sent results ∧
      results.map some = sent.map fun result => heapKeys[result.1.toNat]?.map fun heapKey =>
        (Distance.fromF32 (negF32 result.2), heapKey) := by
  induction sent generalizing ids with
  | nil => exact ⟨[], .nil, rfl⟩
  | cons result sent ih =>
    rcases result with ⟨id, score⟩
    rcases forall_mem_cons.mp inside with ⟨⟨within, finite⟩, others⟩
    have known : heapKeys[id.toNat]? = some heapKeys[id.toNat] := getElem?_eq_getElem within
    have moved : ((sent.map fun result => result.1.toNat) ++ id.toNat :: ids).Nodup :=
      perm_middle.symm.nodup unique
    have new : id.toNat ∉ ids := by
      intro member
      exact (nodup_cons.mp unique).1 (mem_append_right _ member)
    rcases ih moved others with ⟨results, accepted, values⟩
    refine ⟨_ :: results, .cons known new finite accepted, ?_⟩
    rw [map_cons, map_cons, values, known]
    rfl

theorem length_responseHeader (version : UInt16) (requestId : UInt64) (bodyBytes : Nat) :
    (responseHeader version requestId bodyBytes).length = headerBytes := by
  have mark : magic.length = 4 := by decide +kernel
  simp only [responseHeader, length_append, length_le, mark, headerBytes]

theorem length_results (sent : List (UInt32 × BitVec 32)) :
    (le 4 0 ++ (le 4 sent.length ++ sent.flatMap resultBytes)).length = 8 + sent.length * 8 := by
  have each : (sent.flatMap resultBytes).length = sent.length * 8 := by
    induction sent with
    | nil => rfl
    | cons result sent ih =>
      rw [flatMap_cons, length_append, ih, length_cons, resultBytes,
        length_append, length_le, length_le]
      omega
  rw [length_append, length_append, each, length_le, length_le]
  omega

theorem length_success (version : UInt16) (requestId : UInt64) (sent : List (UInt32 × BitVec 32)) :
    (success version requestId sent).length = headerBytes + (8 + sent.length * 8) := by
  rw [success, length_append, length_responseHeader, length_results]

/-- A failure is not accepted. -/
theorem accepts_decodeRemote :
    Accepts (decodeRemote : Fallible RerankError Reader (RerankResults κ)) fun _ _ => False := by
  apply unsignedOr_bind
  intro length _
  apply require_bind
  intro _
  apply Accepts.takeOr.bind
  rintro _ bytes ⟨rfl, _⟩
  cases fromUtf8 bytes with
  | none => exact Accepts.throw _
  | some message => exact Accepts.finishOr_bind (Accepts.throw _)

theorem accepts_decodeSuccess :
    Accepts (decodeSuccess heapKeys) fun taken decoded =>
      ∃ sent, sent.length = heapKeys.length ∧ heapKeys.length < 2 ^ 32 ∧
        Accepted heapKeys [] sent decoded.inner ∧
        taken = le 4 sent.length ++ sent.flatMap resultBytes := by
  apply unsignedOr_bind
  intro count small
  apply require_bind
  rintro rfl
  rw [← marks_nil]
  apply accepts_decodeResults.bind
  rintro _ _ ⟨sent, results, length, accepted, rfl, rfl⟩
  apply Accepts.finishOr_bind
  apply require_bind
  intro _
  apply Accepts.pure
  exact ⟨sent, length, small, accepted, by rw [length, append_nil]⟩

theorem ends_decodeSuccess : Ends (decodeSuccess heapKeys) := by
  apply Ends.bind
  intro count
  apply Ends.bind
  intro _
  apply Ends.bind
  intro decoded
  exact Ends.finishOr_bind (require_bind fun _ => Accepts.pure rfl)

theorem decodeSuccess_readsAll {decoded : RerankResults κ}
    (length : sent.length = heapKeys.length) (small : heapKeys.length < 2 ^ 32)
    (accepted : Accepted heapKeys [] sent decoded.inner) :
    ReadsAll (decodeSuccess heapKeys) (le 4 sent.length ++ sent.flatMap resultBytes) decoded := by
  have complete : (marks heapKeys.length (idsOf sent ++ [])).any (! ·) = false := by
    rw [any_marks]
    intro i inside
    rw [append_nil, idsOf, mem_reverse]
    exact (accepted.perm length).mem_iff.mpr (mem_range.mpr inside)
  have all : Reads _ _ (⟨marks heapKeys.length (idsOf sent ++ []), [] ++ decoded.inner⟩ :
      Decoded κ) := decodeResults_reads accepted
  rw [marks_nil, length] at all
  rw [length]
  apply (Cursor.unsigned_reads small).bind
  apply (Reads.require rfl _).bind_nil
  apply all.bind_end
  exact ReadsAll.finishOr_bind _ ((Reads.require complete _).bind_nil (Reads.pure _))

/-- The extension accepts exactly the responses with one finite score for each heap key. -/
theorem decodeResponseForVersion_eq_ok {frame : List UInt8} {decoded : RerankResults κ} :
    decodeResponseForVersion frame version requestId heapKeys = .ok decoded ↔
      ∃ sent, frame = success version requestId sent ∧ sent.length = heapKeys.length ∧
        heapKeys.length < 2 ^ 32 ∧ Accepted heapKeys [] sent decoded.inner := by
  constructor
  · intro done
    have accepts : Accepts (decodeFrame frame.length version requestId heapKeys) fun taken
        decoded => ∃ sent, sent.length = heapKeys.length ∧ heapKeys.length < 2 ^ 32 ∧
          Accepted heapKeys [] sent decoded.inner ∧
          taken = responseHeader version requestId (frame.length - headerBytes) ++
            (le 4 0 ++ (le 4 sent.length ++ sent.flatMap resultBytes)) := by
      apply accepts_decodeHeader.bind
      rintro _ _ rfl
      apply unsignedOr_bind
      intro status _
      split
      next => exact accepts_decodeRemote.mono fun _ _ impossible => impossible.elim
      next zero =>
        apply accepts_decodeSuccess.mono
        rintro _ _ ⟨sent, length, small, accepted, rfl⟩
        rw [not_not.mp zero]
        exact ⟨sent, length, small, accepted, rfl⟩
    have ends : Ends (decodeFrame frame.length version requestId heapKeys) := by
      apply Ends.bind
      intro _
      apply Ends.bind
      intro status
      split
      next => exact fun _ _ _ done => (accepts_decodeRemote _ _ _ done).2.elim fun _ h => h.2.2.elim
      next => exact ends_decodeSuccess
    obtain ⟨_, sent, length, small, accepted, whole⟩ :=
      accepts.all ends (Prod.ext done rfl : _ = (Except.ok decoded, _))
    refine ⟨sent, ?_, length, small, accepted⟩
    have body : frame.length - headerBytes = 8 + sent.length * 8 := by
      have total := congrArg List.length whole
      rw [length_append, length_responseHeader, length_results] at total
      omega
    rw [body] at whole
    exact whole
  · rintro ⟨sent, rfl, length, small, accepted⟩
    have total := length_success version requestId sent
    have header := decodeHeader_reads version requestId (by omega : 8 + sent.length * 8 < 2 ^ 64)
      (by rw [total]; omega : _ = (success version requestId sent).length - headerBytes)
    have body := decodeSuccess_readsAll length small accepted
    have whole : ReadsAll (decodeFrame (success version requestId sent).length version requestId
        heapKeys) (success version requestId sent) decoded := by
      apply header.bind
      apply (Cursor.unsigned_reads (by decide)).bind
      exact body
    have fits : (success version requestId sent).length ≤ usizeMax := by
      rw [total, usizeMax, headerBytes]
      omega
    exact congrArg Prod.fst (whole.run fits)

end

/-! ## Results -/

/-- The results that are sent for candidates, in some order. -/
def sentIn {count : Nat} (score : Fin count → BitVec 32) (order : List (Fin count)) :
    List (UInt32 × BitVec 32) :=
  order.map fun i => (UInt32.ofNat i.1, score i)

section

variable {κ : Type}

theorem accepted_sentIn {heapKeys : List κ} {score : Fin heapKeys.length → BitVec 32}
    {order : List (Fin heapKeys.length)} (small : heapKeys.length ≤ 2 ^ 32)
    (unique : order.Nodup) (finite : ∀ i, isFiniteF32 (score i).toNat = true) :
    Accepted heapKeys [] (sentIn score order)
      (order.map fun i => (Distance.fromF32 (negF32 (score i)), heapKeys.get i)) := by
  have number : ∀ i : Fin heapKeys.length, (UInt32.ofNat i.1).toNat = i.1 := fun i =>
    UInt32.toNat_ofNat_of_lt (lt_of_lt_of_le i.2 small)
  have ids : (sentIn score order).map (fun result => result.1.toNat) = order.map Fin.val := by
    rw [sentIn, map_map]
    exact map_congr_left fun i _ => number i
  have different : (((sentIn score order).map fun result : UInt32 × BitVec 32 =>
      result.1.toNat) ++ []).Nodup := by
    rw [append_nil, ids]
    exact unique.map Fin.val_injective
  have inside : ∀ result ∈ sentIn score order, result.1.toNat < heapKeys.length ∧
      isFiniteF32 result.2.toNat = true := by
    intro result member
    rcases mem_map.mp member with ⟨i, _, rfl⟩
    rw [number]
    exact ⟨i.2, finite i⟩
  rcases accepted_of_nodup different inside with ⟨results, accepted, values⟩
  have same : results = order.map fun i =>
      (Distance.fromF32 (negF32 (score i)), heapKeys.get i) := by
    apply map_injective_iff.mpr (Option.some_injective _)
    rw [values, sentIn, map_map, map_map]
    apply map_congr_left
    intro i _
    simp only [Function.comp_apply, number, getElem?_eq_getElem i.2, Option.map_some]
    rfl
  rw [← same]
  exact accepted

/-- The results of fewer than `2 ^ 32` candidates, in any order, are read as one result for
each heap key, at minus the score; and only such responses are read as results. -/
theorem decodeResponseForVersion_success (version : UInt16) (requestId : UInt64)
    (heapKeys : List κ) :
    (∀ (order : List (Fin heapKeys.length)) (score : Fin heapKeys.length → BitVec 32),
      heapKeys.length < 2 ^ 32 → order.Perm (List.finRange heapKeys.length) →
      (∀ i, isFiniteF32 (score i).toNat = true) →
      ∃ decoded, decodeResponseForVersion (success version requestId (sentIn score order))
          version requestId heapKeys = .ok decoded ∧
        decoded.inner.Perm ((List.finRange heapKeys.length).map fun i =>
          (Distance.fromF32 (negF32 (score i)), heapKeys.get i)) ∧
        ∀ i, (Distance.fromF32 (negF32 (score i))).toF32 = negF32 (score i)) ∧
    ∀ frame decoded,
      decodeResponseForVersion frame version requestId heapKeys = .ok decoded →
      ∃ sent, frame = success version requestId sent ∧
        (sent.map fun result => result.1.toNat).Perm (List.range heapKeys.length) ∧
        ∀ result ∈ sent, isFiniteF32 result.2.toNat = true := by
  constructor
  · intro order score small permutation finite
    have unique : order.Nodup := permutation.symm.nodup (nodup_finRange _)
    have count : (sentIn score order).length = heapKeys.length := by
      rw [sentIn, length_map, permutation.length_eq, length_finRange]
    refine ⟨⟨_⟩, decodeResponseForVersion_eq_ok.mpr ⟨_, rfl, count, small,
      accepted_sentIn (le_of_lt small) unique finite⟩, permutation.map _, ?_⟩
    exact fun i => Distance.toF32_fromF32 _
  · intro frame decoded done
    rcases decodeResponseForVersion_eq_ok.mp done with ⟨sent, whole, length, _, accepted⟩
    exact ⟨sent, whole, accepted.perm length, fun result member =>
      (accepted.inside result member).2⟩

end

/-- Two results, sent in the other order. -/
theorem decodeResponseForVersion_success_two :
    let heapKeys : List Nat := [7, 9]
    let score : Fin heapKeys.length → BitVec 32 :=
      fun i => if i = 0 then 0x3f800000#32 else 0xc0000000#32
    ∃ decoded, decodeResponseForVersion (success 3 5 (sentIn score [1, 0])) 3 5 heapKeys =
        .ok decoded ∧
      decoded.inner.Perm ((finRange heapKeys.length).map fun i =>
        (Distance.fromF32 (negF32 (score i)), heapKeys.get i)) ∧
      ∀ i, (Distance.fromF32 (negF32 (score i))).toF32 = negF32 (score i) := by
  intro heapKeys score
  exact (decodeResponseForVersion_success 3 5 heapKeys).1 [1, 0] score (by decide)
    (by decide) (by decide)

theorem decodeResponseForVersion_tooMany {κ : Type} {heapKeys : List κ}
    {sent : List (UInt32 × BitVec 32)} (version : UInt16) (requestId : UInt64)
    (many : heapKeys.length = 2 ^ 32) (length : sent.length = 2 ^ 32) :
    decodeResponseForVersion (success version requestId sent) version requestId heapKeys =
      .error (.protocol "partial result set") := by
  have total := length_success version requestId sent
  have header := decodeHeader_reads version requestId (by omega : 8 + sent.length * 8 < 2 ^ 64)
    (by rw [total]; omega : _ = (success version requestId sent).length - headerBytes)
  have truncated : le 4 sent.length = le 4 0 := by
    rw [length]
    rfl
  have mismatch : (0 : Nat) ≠ heapKeys.length := by
    rw [many]
    decide
  have body : FailsBefore (fun _ => True) (decodeSuccess heapKeys) (le 4 0 ++ [])
      (.protocol "partial result set") := by
    apply (Cursor.unsigned_reads (by decide)).bind_fails
    intro front tail _ _
    exact congrArg Prod.fst (step_bind_error (step_require_not mismatch _ _) _)
  have whole : FailsBefore (fun _ => True) (decodeFrame (success version requestId sent).length
      version requestId heapKeys) (responseHeader version requestId (8 + sent.length * 8) ++
        (le 4 0 ++ (le 4 0 ++ []))) (.protocol "partial result set") := by
    apply header.bind_fails
    apply (Cursor.unsigned_reads (by decide)).bind_fails
    exact body
  have shape : success version requestId sent = [] ++ (responseHeader version requestId
      (8 + sent.length * 8) ++ (le 4 0 ++ (le 4 0 ++ []))) ++ sent.flatMap resultBytes := by
    rw [success, truncated]
    simp only [append_assoc, nil_append]
  have fits : (success version requestId sent).length ≤ usizeMax := by
    rw [total, usizeMax, headerBytes]
    omega
  have failed := whole [] (sent.flatMap resultBytes) trivial
  rw [← shape] at failed
  exact failed fits

/-- The number of results is sent as a `u32`: `2 ^ 32` results are rejected. -/
theorem decodeResponseForVersion_success_wraps :
    let heapKeys := replicate (2 ^ 32) ()
    ∃ (order : List (Fin heapKeys.length)) (score : Fin heapKeys.length → BitVec 32),
      order.Perm (finRange heapKeys.length) ∧ (∀ i, isFiniteF32 (score i).toNat = true) ∧
        decodeResponseForVersion (success 3 5 (sentIn score order)) 3 5 heapKeys =
          .error (.protocol "partial result set") := by
  intro heapKeys
  have many : heapKeys.length = 2 ^ 32 := length_replicate
  have finite : isFiniteF32 (0#32).toNat = true := by decide
  refine ⟨finRange _, fun _ => 0#32, List.Perm.refl _, fun _ => finite, ?_⟩
  apply decodeResponseForVersion_tooMany 3 5 many
  rw [sentIn, length_map, length_finRange, many]

/-! ## Failures -/

section

variable {κ : Type}

/-- How the message of a failure is read. -/
def remoteError (bytes : List UInt8) : RerankError :=
  match fromUtf8 bytes with
  | none => .protocol "remote error is not UTF-8"
  | some message => .remote message

theorem decodeRemote_fails {bytes : List UInt8} (small : bytes.length ≤ 64 * 1024) :
    FailsBefore (· = []) (decodeRemote : Fallible RerankError Reader (RerankResults κ))
      (le 4 bytes.length ++ (bytes ++ [])) (remoteError bytes) := by
  apply (Cursor.unsigned_reads (by omega)).bind_fails
  refine (Reads.require small _).bind_fails (?_ : FailsBefore _ _ (bytes ++ []) _)
  apply (Reads.takeOr _ _ rfl).bind_fails
  rintro front _ rfl bounded
  rw [remoteError]
  cases fromUtf8 bytes with
  | none => rfl
  | some message =>
    rw [Cursor.finish, step_finishOr_bind, step_bind_ok (step_require (by simp) _ _)]
    rfl

/-- The extension reads the message of a failure, cut to 64 KiB. -/
theorem decodeResponseForVersion_failure_eq (version : UInt16) (requestId : UInt64)
    (status : UInt32) (message : String) (heapKeys : List κ) :
    decodeResponseForVersion (failure version requestId status message) version requestId
      heapKeys = .error (remoteError ((utf8 message).take
        (min (utf8 message).length (64 * 1024)))) := by
  rw [Tilemaxsimd.failure]
  generalize cut : (utf8 message).take (min (utf8 message).length (64 * 1024)) = bytes
  have small : bytes.length ≤ 64 * 1024 := by
    rw [← cut, length_take]
    omega
  have failing : max status.toNat 1 < 256 ^ 4 ∧ max status.toNat 1 ≠ 0 := by
    have fits := status.toNat_lt
    omega
  have body : (le 4 (max status.toNat 1) ++ (le 4 bytes.length ++ bytes)).length =
      8 + bytes.length := by
    rw [length_append, length_append, length_le, length_le]
    omega
  have total : (responseHeader version requestId (8 + bytes.length) ++
      (le 4 (max status.toNat 1) ++ (le 4 bytes.length ++ bytes))).length =
        headerBytes + (8 + bytes.length) := by
    rw [length_append, length_responseHeader, body]
  have whole : FailsBefore (· = []) (decodeFrame (headerBytes + (8 + bytes.length)) version
      requestId heapKeys) (responseHeader version requestId (8 + bytes.length) ++
        (le 4 (max status.toNat 1) ++ (le 4 bytes.length ++ (bytes ++ []))))
      (remoteError bytes) := by
    apply (decodeHeader_reads version requestId (by omega) (by omega)).bind_fails
    apply (Cursor.unsigned_reads failing.1).bind_fails
    rw [if_pos failing.2]
    exact decodeRemote_fails small
  have read := whole [] [] rfl
  rw [nil_append, append_nil, append_nil, total] at read
  rw [decodeResponseForVersion, total]
  apply read
  rw [headerBytes, usizeMax]
  omega

/-- Bytes that end within a character are no text. -/
theorem remoteError_cut {message : String} {length : Nat} (inside : length ≤ (utf8 message).length)
    (cut : ¬ IsBoundary message length) :
    remoteError ((utf8 message).take length) = .protocol "remote error is not UTF-8" := by
  rw [remoteError]
  cases text : fromUtf8 ((utf8 message).take length) with
  | none => rfl
  | some front => exact absurd (isBoundary_of_fromUtf8_take inside text) cut

/-- The extension reports the failure of the daemon with the message, or its first 64 KiB,
if and only if these are a whole number of characters. -/
theorem decodeResponseForVersion_failure (version : UInt16) (requestId : UInt64)
    (status : UInt32) (message : String) (heapKeys : List κ) :
    ((∃ front back, message = front ++ back ∧
      decodeResponseForVersion (failure version requestId status message) version requestId
        heapKeys = .error (.remote front)) ↔
      IsBoundary message (min (utf8 message).length (64 * 1024))) ∧
    (¬ IsBoundary message (min (utf8 message).length (64 * 1024)) →
      decodeResponseForVersion (failure version requestId status message) version requestId
        heapKeys = .error (.protocol "remote error is not UTF-8")) := by
  rw [decodeResponseForVersion_failure_eq]
  have inside := min_le_left (utf8 message).length (64 * 1024)
  refine ⟨⟨?_, ?_⟩, fun cut => congrArg Except.error (remoteError_cut inside cut)⟩
  · rintro ⟨front, _, _, same⟩
    by_contra cut
    rw [remoteError_cut inside cut] at same
    cases same
  · rintro ⟨front, back, whole, ends⟩
    refine ⟨front, back, whole, ?_⟩
    rw [← ends, whole, remoteError, utf8_append, take_left, fromUtf8_utf8]

end

/-- Letters in front of a character of two bytes. -/
def accented (letters : Nat) : String := String.ofList (List.replicate letters 'a') ++ "é"

theorem length_accented (letters : Nat) : (utf8 (accented letters)).length = letters + 2 := by
  rw [length_utf8, accented, String.toList_append, String.toList_ofList]
  simp [Char.utf8Size]

/-- The character of two bytes cannot be cut. -/
theorem not_isBoundary_accented (letters : Nat) : ¬ IsBoundary (accented letters)
    (letters + 1) := by
  rintro ⟨front, back, whole, ends⟩
  have ones : ∀ count, ((replicate count 'a').map Char.utf8Size).sum = count := by
    simp [Char.utf8Size]
  have characters := congrArg String.toList whole
  rw [accented, String.toList_append, String.toList_append, String.toList_ofList] at characters
  rw [length_utf8] at ends
  rcases append_eq_append_iff.mp characters with ⟨more, split, last⟩ | ⟨more, split, last⟩
  · rw [split, map_append, sum_append, ones] at ends
    cases more with
    | nil => simp at ends
    | cons char more =>
      have single : char = 'é' ∧ more = [] ∧ back.toList = [] := by simpa using last.symm
      rw [single.1, single.2.1] at ends
      simp [Char.utf8Size] at ends
  · have letters' : front.toList = replicate front.toList.length 'a' := by
      apply eq_replicate_of_mem
      intro char member
      apply eq_of_mem_replicate
      rw [split]
      exact mem_append_left _ member
    have shorter : front.toList.length ≤ letters := by
      have total := congrArg List.length split
      rw [length_replicate, length_append] at total
      omega
    rw [letters', ones] at ends
    omega

/-- The cut falls into the last character, and the extension takes the response for a broken
one. -/
theorem decodeResponseForVersion_failure_cut :
    decodeResponseForVersion (failure 3 5 1 (accented 65535)) 3 5 [()] =
      .error (.protocol "remote error is not UTF-8") := by
  have size := length_accented 65535
  rw [decodeResponseForVersion_failure_eq, size]
  apply congrArg Except.error
  apply remoteError_cut
  · rw [size]
    decide
  · exact not_isBoundary_accented 65535

end VectorChord.Maxsim
