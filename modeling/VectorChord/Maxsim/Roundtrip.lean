import VectorChord.Maxsim.Frame

/-!
# Frames that the daemon accepts

The daemon reads every field of a frame back as the extension encodes it.
-/

namespace VectorChord.Maxsim

open Codec Collections Transition List
open Tilemaxsimd (Digest Descriptor Request Totals chunksExact headerBytes isControl isDigest
  isFiniteF32 parseBody readDigest stripPrefix validateFinite)

/-! ## Texts -/

theorem improperText_eq_false {maximum : Nat} {text : String}
    (proper : improperText maximum text = false) :
    0 < (utf8 text).length ∧ (utf8 text).length ≤ maximum ∧ text.toList.any isControl = false := by
  simp only [improperText, Bool.or_eq_false_iff, decide_eq_false_iff_not, Nat.not_lt] at proper
  refine ⟨?_, proper.1.2, proper.2⟩
  apply length_pos_iff.mpr
  intro none
  rw [none] at proper
  exact absurd proper.1.1 (by decide)

/-- A proper text is read back. -/
theorem readText_reads {maximum : Nat} {text : String} (name : String)
    (proper : improperText maximum text = false) :
    Reads (Tilemaxsimd.readText (utf8 text).length maximum name) (utf8 text) text := by
  rcases improperText_eq_false proper with ⟨positive, short, plain⟩
  apply (Reads.require _ _).bind_nil
  · apply (Reads.take rfl).bind_end
    rw [fromUtf8_utf8]
    exact (Reads.require plain _).bind_nil (Reads.pure text)
  · omega

/-! ## Descriptors -/

theorem stripPrefix_append (mark text : String) :
    stripPrefix mark (mark ++ text) = some text := by
  rw [stripPrefix, String.toList_append, if_pos (prefix_append _ _),
    ← String.length_toList, drop_left, String.ofList_toList]

theorem readDigest_eq (digest : Digest) :
    readDigest ("sha256://" ++ digest.1) ("sha256:" ++ digest.1) = .ok digest := by
  rw [readDigest, stripPrefix_append]
  dsimp only
  rw [dif_pos digest.2, if_pos rfl]
  rfl

variable {dimension : Nat}

/-- The shape of a tensor that the daemon accepts. -/
theorem tensorBytes_eq {rows : Nat} (dtype : TensorDtype) (some_ : 0 < rows)
    (positive : 0 < dimension) (small : dimension ≤ 60000)
    (fits : rows * dimension * dtype.scalarBytes ≤ usizeMax) :
    Tilemaxsimd.tensorBytes rows dimension dtype.code =
      .ok (rows * dimension * dtype.scalarBytes) := by
  have shape : ¬ (rows = 0 ∨ dimension = 0 ∨ 60000 < dimension) := by omega
  have scalar : 1 ≤ dtype.scalarBytes := by cases dtype <;> decide
  have product : checkedMul rows dimension = some (rows * dimension) :=
    checkedMul_eq (Nat.le_trans (Nat.le_mul_of_pos_right _ scalar) fits)
  have whole : (checkedMul rows dimension).bind (fun value => checkedMul value dtype.scalarBytes) =
      some (rows * dimension * dtype.scalarBytes) := by
    rw [product, Option.bind_some, checkedMul_eq fits]
  cases dtype with
  | f32 | f16 =>
    rw [TensorDtype.scalarBytes] at whole
    refine (if_neg shape).trans ?_
    rw [whole]
    rfl

/-- The reference and the checksum of a descriptor name the digest. -/
def Addresses {κ : Type} (descriptor : ExternalTensorDescriptor κ) (digest : Digest) : Prop :=
  descriptor.tensorRef = "sha256://" ++ digest.1 ∧ descriptor.checksum = "sha256:" ++ digest.1

section

variable {κ : Type} {descriptor : ExternalTensorDescriptor κ} {dimension : Nat}
    {dtype : TensorDtype}

theorem validateExternalForRequest_eq_ok
    (valid : validateExternalForRequest descriptor dimension dtype 4096 512 = .ok ()) :
    0 < descriptor.rows ∧ descriptor.rows ≤ 65536 ∧ dimension ≤ 60000 ∧
      improperText 4096 descriptor.tensorRef = false := by
  obtain ⟨shape, valid⟩ := Fallible.guard_eq_ok.mp valid
  obtain ⟨proper, valid⟩ := Fallible.guard_eq_ok.mp valid
  exact ⟨by omega, by omega, by omega, Bool.eq_false_iff.mpr proper⟩

/-- The checksum is a proper text if the reference is. -/
theorem Addresses.checksum_proper {digest : Digest} (addresses : Addresses descriptor digest)
    (proper : improperText 4096 descriptor.tensorRef = false) :
    improperText 512 descriptor.checksum = false := by
  have digits : (utf8 digest.1).length = 64 := by
    have whole := digest.2
    simp only [isDigest, Bool.and_eq_true, beq_iff_eq] at whole
    exact whole.1
  have plain : digest.1.toList.any isControl = false := by
    have whole := (improperText_eq_false proper).2.2
    rw [addresses.1, String.toList_append, any_append, Bool.or_eq_false_iff] at whole
    exact whole.2
  have size : (utf8 ("sha256:" ++ digest.1)).length = 71 := by
    rw [utf8_append, length_append, digits]
    rfl
  have nonempty : (utf8 ("sha256:" ++ digest.1)).isEmpty = false := by
    rw [isEmpty_eq_false_iff]
    intro none
    rw [none] at size
    cases size
  have controls : ("sha256:" ++ digest.1).toList.any isControl = false := by
    rw [String.toList_append, any_append, plain]
    rfl
  rw [addresses.2, improperText, nonempty, size, controls]
  rfl

/-- The daemon reads a descriptor back. -/
theorem parseCandidate_reads {digest : Digest} (addresses : Addresses descriptor digest)
    (valid : validateExternalForRequest descriptor dimension dtype 4096 512 = .ok ())
    (positive : 0 < dimension) (contract : String) {candidateId : Nat}
    (numbered : candidateId < 2 ^ 32) {totals : Totals} (new : candidateId ∉ totals.candidateIds)
    (tokens : totals.tokens + descriptor.rows ≤ 1000000)
    (bytes : totals.bytes + descriptor.rows * dimension * dtype.scalarBytes ≤ 1024 * 1024 * 1024) :
    Reads (Tilemaxsimd.parseCandidate contract dimension dtype.code totals)
      (descriptorBytes candidateId descriptor)
      (⟨⟨candidateId, contract, digest, descriptor.rows, dimension, dtype.code⟩, rfl, rfl⟩,
        ⟨candidateId :: totals.candidateIds, totals.tokens + descriptor.rows,
          totals.bytes + descriptor.rows * dimension * dtype.scalarBytes⟩) := by
  rcases validateExternalForRequest_eq_ok valid with ⟨rows, rowsMax, small, proper⟩
  have proper' := addresses.checksum_proper proper
  have reference := improperText_eq_false proper
  have checksum := improperText_eq_false proper'
  have fits : descriptor.rows * dimension * dtype.scalarBytes ≤ usizeMax :=
    Nat.le_trans (Nat.le_trans (Nat.le_add_left _ _) bytes) (by decide)
  have known : readDigest descriptor.tensorRef descriptor.checksum = .ok digest := by
    rw [addresses.1, addresses.2, readDigest_eq]
  apply (Reads.unsigned numbered).bind
  apply (Reads.unsigned (by omega)).bind
  apply (Reads.unsigned (by omega)).bind
  apply (Reads.unsigned (by omega)).bind
  apply (Reads.require new _).bind_nil
  apply (readText_reads _ proper).bind
  apply (readText_reads _ proper').bind_end
  apply (Reads.lift known).bind_nil
  apply (Reads.lift (tensorBytes_eq dtype rows positive small fits)).bind_nil
  apply (Reads.lift (elim_checkedAdd_eq_ok.mpr ⟨Nat.le_trans tokens (by decide), rfl⟩)).bind_nil
  apply (Reads.lift (elim_checkedAdd_eq_ok.mpr ⟨Nat.le_trans bytes (by decide), rfl⟩)).bind_nil
  apply (Reads.require (by omega) _).bind_nil
  exact Reads.pure _

/-- The candidates of a request, numbered from some id. -/
def candidatesFrom (contract : String) (dimension dtype candidateId : Nat) :
    List (ExternalTensorDescriptor κ) → List Digest → List Descriptor
  | descriptor :: descriptors, digest :: digests =>
    ⟨candidateId, contract, digest, descriptor.rows, dimension, dtype⟩ ::
      candidatesFrom contract dimension dtype (candidateId + 1) descriptors digests
  | _, _ => []

/-- The rows of a batch. -/
def totalRows (descriptors : List (ExternalTensorDescriptor κ)) : Nat :=
  (descriptors.map ExternalTensorDescriptor.rows).sum

/-- The daemon reads all descriptors back. -/
theorem parseCandidates_reads {descriptors : List (ExternalTensorDescriptor κ)}
    {digests : List Digest} (addressed : List.Forall₂ Addresses descriptors digests)
    (valid : ∀ descriptor ∈ descriptors,
      validateExternalForRequest descriptor dimension dtype 4096 512 = .ok ())
    (positive : 0 < dimension) (contract : String) {candidateId : Nat}
    (numbered : candidateId + descriptors.length ≤ 65536) (totals : Totals)
    (below : ∀ id ∈ totals.candidateIds, id < candidateId)
    (tokens : totals.tokens + totalRows descriptors ≤ 1000000)
    (bytes : totals.bytes + totalRows descriptors * dimension * dtype.scalarBytes ≤
      1024 * 1024 * 1024) :
    ∃ candidates, candidates.1 =
        candidatesFrom contract dimension dtype.code candidateId descriptors digests ∧
      Reads (Tilemaxsimd.parseCandidates contract dimension dtype.code descriptors.length totals)
        (descriptorsBytes candidateId descriptors) candidates := by
  induction addressed generalizing candidateId totals with
  | nil => exact ⟨_, rfl, Reads.pure _⟩
  | @cons descriptor digest descriptors digests addresses _ ih =>
    have split : totalRows (descriptor :: descriptors) =
        descriptor.rows + totalRows descriptors := sum_cons
    rw [split] at tokens bytes
    rw [Nat.add_mul, Nat.add_mul] at bytes
    rw [length_cons] at numbered
    have new : candidateId ∉ totals.candidateIds := fun member =>
      absurd (below candidateId member) (Nat.lt_irrefl _)
    have head := parseCandidate_reads addresses (valid descriptor mem_cons_self) positive
      contract (by omega) new (by omega) (by omega)
    let next : Totals := ⟨candidateId :: totals.candidateIds, totals.tokens + descriptor.rows,
      totals.bytes + descriptor.rows * dimension * dtype.scalarBytes⟩
    have numbered' : candidateId + 1 + descriptors.length ≤ 65536 := by omega
    have tokens' : next.tokens + totalRows descriptors ≤ 1000000 := by
      dsimp only [next]
      omega
    have bytes' : next.bytes + totalRows descriptors * dimension * dtype.scalarBytes ≤
        1024 * 1024 * 1024 := by
      dsimp only [next]
      omega
    have below' : ∀ id ∈ next.candidateIds, id < candidateId + 1 := by
      intro id member
      rcases mem_cons.mp member with rfl | old
      · exact Nat.lt_succ_self _
      · exact Nat.lt_succ_of_lt (below id old)
    rcases ih (fun d member => valid d (mem_cons_of_mem _ member)) numbered' next below'
      tokens' bytes' with ⟨rest, same, tail⟩
    refine ⟨_, ?_, head.bind (tail.bind_end (Reads.pure _))⟩
    exact congrArg (List.cons _) same

theorem candidatesFrom_eq_mapIdx (contract : String) (dimension dtype candidateId : Nat)
    (descriptors : List (ExternalTensorDescriptor κ)) (digests : List Digest) :
    candidatesFrom contract dimension dtype candidateId descriptors digests =
      (descriptors.zip digests).mapIdx fun index candidate =>
        ⟨candidateId + index, contract, candidate.2, candidate.1.rows, dimension, dtype⟩ := by
  induction descriptors generalizing candidateId digests with
  | nil => rfl
  | cons descriptor descriptors ih =>
    cases digests with
    | nil => rfl
    | cons digest digests =>
      rw [candidatesFrom, ih, zip_cons_cons, mapIdx_cons]
      simp only [add_zero, add_assoc, Nat.add_comm 1]

end

/-! ## Queries -/

/-- The bits of the scalars of a vector. -/
def OwnedVector.scalars : OwnedVector → List Nat
  | .vecf32 vector => vector.slice.map BitVec.toNat
  | .vecf16 vector => vector.slice.map BitVec.toNat
  | .rabitq8 _ => []
  | .rabitq4 _ => []

/-- All values of a vector are finite. -/
def OwnedVector.Finite : OwnedVector → Prop
  | .vecf32 vector => ∀ value ∈ vector.slice, isFiniteF32 value.toNat = true
  | .vecf16 vector => ∀ value ∈ vector.slice, Tilemaxsimd.isFiniteF16 value.toNat = true
  | .rabitq8 _ => True
  | .rabitq4 _ => True

variable {dtype : TensorDtype}

theorem OwnedVector.values_eq {vector : OwnedVector} (typed : vector.dtype = some dtype) :
    vector.values = vector.scalars.flatMap (le dtype.scalarBytes) := by
  cases vector with
  | vecf32 | vecf16 =>
    cases typed
    exact (flatMap_map ..).symm
  | rabitq8 | rabitq4 => cases typed

theorem length_flatMap_le (width : Nat) (values : List Nat) :
    (values.flatMap (le width)).length = values.length * width := by
  induction values with
  | nil => exact (Nat.zero_mul _).symm
  | cons value values ih =>
    rw [flatMap_cons, length_append, length_le, ih, length_cons, Nat.succ_mul, Nat.add_comm]

/-- Chunks of the size of the scalars are the scalars. -/
theorem chunksExact_flatMap {width : Nat} (positive : 0 < width) (values : List Nat) :
    chunksExact width (values.flatMap (le width)) = values.map (le width) := by
  rw [chunksExact, length_flatMap_le, Nat.mul_div_cancel _ positive]
  induction values with
  | nil => rfl
  | cons value values ih =>
    have shift : ∀ index, ((le width value ++ values.flatMap (le width)).drop
        ((index + 1) * width)).take width =
          ((values.flatMap (le width)).drop (index * width)).take width := by
      intro index
      have place : (index + 1) * width = (le width value).length + index * width := by
        rw [length_le, Nat.succ_mul, Nat.add_comm]
      rw [place, ← drop_drop, drop_left]
    have first : ((le width value ++ values.flatMap (le width)).drop (0 * width)).take width =
        le width value := by
      rw [Nat.zero_mul, drop_zero]
      exact take_left' (length_le width value)
    rw [length_cons, range_succ_eq_map, map_cons, map_map, map_cons, flatMap_cons, first, ← ih]
    congr 1
    apply map_congr_left
    intro index _
    exact shift index

theorem checkMetadata_eq_ok {vectors : List OwnedVector}
    (done : checkMetadata dtype dimension vectors = .ok ()) :
    ∀ vector ∈ vectors, vector.dtype = some dtype ∧ vector.dim = dimension := by
  induction vectors with
  | nil => exact forall_mem_nil _
  | cons vector vectors ih =>
    unfold checkMetadata at done
    cases typed : vector.dtype with
    | none =>
      rw [typed] at done
      cases done
    | some this =>
      rw [typed] at done
      obtain ⟨same, done⟩ := Fallible.guard_eq_ok.mp done
      simp only [ne_eq, not_or, not_not] at same
      exact forall_mem_cons.mpr ⟨⟨by rw [typed, same.1], same.2⟩, ih done⟩

theorem tensorMetadata_eq_ok {query : List OwnedVector}
    (done : tensorMetadata query = .ok (dtype, dimension)) :
    0 < query.length ∧
      ∀ vector ∈ query, vector.dtype = some dtype ∧ vector.dim = dimension := by
  cases query with
  | nil => cases done
  | cons first rest =>
    rw [tensorMetadata] at done
    cases typed : first.dtype with
    | none =>
      rw [typed] at done
      cases done
    | some this =>
      rw [typed] at done
      dsimp only at done
      cases checked : checkMetadata this first.dim (first :: rest) with
      | error error =>
        rw [checked] at done
        cases done
      | ok =>
        rw [checked] at done
        cases done
        exact ⟨Nat.succ_pos _, checkMetadata_eq_ok checked⟩

section

variable {dtype : TensorDtype} {dimension : Nat} {query : List OwnedVector} {vector : OwnedVector}

theorem OwnedVector.length_scalars (typed : vector.dtype = some dtype) :
    vector.scalars.length = vector.dim := by
  cases vector with
  | vecf32 | vecf16 => exact length_map ..
  | rabitq8 | rabitq4 => cases typed

/-- The type decides which vectors there are, and these have 1 to 65535 dimensions. -/
theorem OwnedVector.dim_bounds (typed : vector.dtype = some dtype) :
    0 < vector.dim ∧ vector.dim ≤ 65535 := by
  cases vector with
  | vecf32 vector | vecf16 vector => exact ⟨vector.dim_pos, vector.dim_le⟩
  | rabitq8 | rabitq4 => cases typed

section

variable (uniform : ∀ vector ∈ query, vector.dtype = some dtype ∧ vector.dim = dimension)

include uniform

theorem queryBytes_eq :
    queryBytes query = (query.flatMap OwnedVector.scalars).flatMap (le dtype.scalarBytes) := by
  rw [queryBytes, flatMap_assoc]
  apply flatMap_congr
  intro vector member
  exact OwnedVector.values_eq (uniform vector member).1

theorem length_scalars :
    (query.flatMap OwnedVector.scalars).length = query.length * dimension := by
  induction query with
  | nil => exact (Nat.zero_mul _).symm
  | cons vector query ih =>
    rcases forall_mem_cons.mp uniform with ⟨first, others⟩
    rw [flatMap_cons, length_append, OwnedVector.length_scalars first.1, first.2,
      ih others, length_cons, Nat.succ_mul, Nat.add_comm]

theorem length_queryBytes :
    (queryBytes query).length = query.length * dimension * dtype.scalarBytes := by
  rw [queryBytes_eq uniform, length_flatMap_le, length_scalars uniform]

end

/-- The test of the daemon for a type. -/
def TensorDtype.isFinite : TensorDtype → Nat → Bool
  | .f32 => isFiniteF32
  | .f16 => Tilemaxsimd.isFiniteF16

theorem validateFinite_eq (dtype : TensorDtype) (payload : List UInt8) :
    validateFinite payload dtype.code =
      (chunksExact dtype.scalarBytes payload).all fun scalar =>
        dtype.isFinite (fromLe scalar) := by
  cases dtype <;> rfl

theorem OwnedVector.scalars_finite (typed : vector.dtype = some dtype) (finite : vector.Finite) :
    ∀ bits ∈ vector.scalars, bits < 256 ^ dtype.scalarBytes ∧ dtype.isFinite bits = true := by
  intro bits member
  cases vector with
  | vecf32 | vecf16 =>
    cases typed
    rcases mem_map.mp member with ⟨value, inside, rfl⟩
    exact ⟨value.isLt, finite value inside⟩
  | rabitq8 | rabitq4 => cases typed

/-- The daemon finds the query finite if it is. -/
theorem validateFinite_queryBytes (uniform : ∀ vector ∈ query, vector.dtype = some dtype ∧
      vector.dim = dimension) (finite : ∀ vector ∈ query, vector.Finite) :
    validateFinite (queryBytes query) dtype.code = true := by
  have positive : 0 < dtype.scalarBytes := by cases dtype <;> decide
  rw [queryBytes_eq uniform, validateFinite_eq, chunksExact_flatMap positive, all_map, all_eq_true]
  intro bits member
  rcases mem_flatMap.mp member with ⟨vector, inside, scalar⟩
  have proper :=
    OwnedVector.scalars_finite (uniform vector inside).1 (finite vector inside) bits scalar
  rw [Function.comp_apply, fromLe_le_of_lt proper.1]
  exact proper.2

end

/-! ## Frames -/

theorem validateIdentity_eq_ok {modelContractId : String}
    {scheduling : Option TileMaxsimScheduling}
    (valid : validateIdentity modelContractId scheduling = .ok ()) :
    improperText 512 modelContractId = false ∧
      ∀ options, scheduling = some options → improperText 256 options.tenant = false ∧
        -100 ≤ options.priority ∧ options.priority ≤ 100 := by
  obtain ⟨contract, valid⟩ := Fallible.guard_eq_ok.mp valid
  obtain ⟨other, valid⟩ := Fallible.guard_eq_ok.mp valid
  refine ⟨Bool.eq_false_iff.mpr contract, ?_⟩
  rintro options rfl
  simp only [Option.any_some, Bool.not_eq_true, Bool.or_eq_false_iff, Bool.not_eq_false',
    decide_eq_true_eq] at other
  exact other

/-- What the daemon makes of the scheduling of a request. -/
def tenantOf (scheduling : Option TileMaxsimScheduling) : String :=
  scheduling.elim "__default__" TileMaxsimScheduling.tenant

def priorityOf (scheduling : Option TileMaxsimScheduling) : Int :=
  scheduling.elim 0 TileMaxsimScheduling.priority

/-- The timeout of a request, which only scheduled ones carry. -/
def timeoutOf (scheduling : Option TileMaxsimScheduling) (timeoutMillis : Nat) : Nat :=
  scheduling.elim 0 fun _ => min (max timeoutMillis 1) 600000

/-- A field of a frame. -/
theorem take_drop_append {front field tail : List UInt8} {offset size : Nat}
    (place : front.length = offset) (length : field.length = size) :
    ((front ++ (field ++ tail)).drop offset).take size = field := by
  rw [← place, drop_left]
  exact take_left' length

theorem parse_headerOf {version requestId : Nat} {body : List UInt8}
    (external : version = Tilemaxsimd.versionExternal ∨
      version = Tilemaxsimd.versionScheduledExternal) (numbered : requestId < 2 ^ 64)
    (bounded : body.length ≤ usizeMax) :
    Tilemaxsimd.parse (headerOf requestId version body.length ++ body) =
      ((parseBody version requestId).step ⟨body, 0⟩).1 := by
  have front : Tilemaxsimd.magic.length = 4 := rfl
  have shape : headerOf requestId version body.length ++ body = Tilemaxsimd.magic ++
      (le 2 version ++ (le 2 1 ++ (le 8 requestId ++ (le 8 body.length ++ body)))) := by
    simp only [headerOf, append_assoc]
  have long : ¬ (headerOf requestId version body.length ++ body).length <
      headerBytes := by
    rw [length_append, length_headerOf]
    exact Nat.not_lt.mpr (Nat.le_add_right _ _)
  have magic : (headerOf requestId version body.length ++ body).take 4 = Tilemaxsimd.magic := by
    exact take_left' front
  have versionField : fromLe (((headerOf requestId version body.length ++ body).drop 4).take 2) =
      version := by
    rw [shape, take_drop_append front (length_le 2 version)]
    apply fromLe_le_of_lt
    rcases external with rfl | rfl <;> decide
  have kindField : fromLe (((headerOf requestId version body.length ++ body).drop 6).take 2) =
    1 := by
    rfl
  have idField : fromLe (((headerOf requestId version body.length ++ body).drop 8).take 8) =
      requestId := by
    rw [shape, ← append_assoc, ← append_assoc, take_drop_append
      (by rw [length_append, length_append, length_le, length_le, front])
      (length_le 8 requestId)]
    exact fromLe_le_of_lt numbered
  have bodyField : fromLe (((headerOf requestId version body.length ++ body).drop 16).take 8) =
      body.length := by
    rw [shape, ← append_assoc, ← append_assoc, ← append_assoc, take_drop_append
      (by rw [length_append, length_append, length_append, length_le, length_le, length_le, front])
      (length_le 8 body.length)]
    exact fromLe_le_of_lt (Nat.lt_of_le_of_lt bounded (by decide))
  have rest : (headerOf requestId version body.length ++ body).drop headerBytes =
      body := drop_left' (length_headerOf _ _ _)
  have size : (headerOf requestId version body.length ++ body).length - headerBytes =
      body.length := by
    rw [length_append, length_headerOf]
    exact Nat.add_sub_cancel_left _ _
  unfold Tilemaxsimd.parse
  rw [if_neg long, if_neg (not_not.mpr magic), versionField, kindField, idField, bodyField, size,
    rest, if_neg, if_neg (not_not.mpr rfl)]
  rintro (⟨first, second⟩ | other)
  · exact external.elim first second
  · exact other rfl

section

variable {modelContractId : String} {scheduling : Option TileMaxsimScheduling} {κ : Type}
  {requestId : UInt64} {query : List OwnedVector} {descriptors : List (ExternalTensorDescriptor κ)}
  {digests : List Digest} {timeoutMillis : Nat} {dtype : TensorDtype} {dimension : Nat}
  {maxBatchTokens maxBatchBytes : Nat}

theorem parseScheduling_reads (timeoutMillis : Nat)
    (valid : validateIdentity modelContractId scheduling = .ok ()) :
    Reads (Tilemaxsimd.parseScheduling (versionOf scheduling))
      (schedulingBytes timeoutMillis scheduling)
      (priorityOf scheduling, timeoutOf scheduling timeoutMillis,
        (tenantBytes scheduling).length) := by
  cases scheduling with
  | none => exact Reads.pure _
  | some options =>
    rcases (validateIdentity_eq_ok valid).2 options rfl with ⟨tenant, low, high⟩
    have short := (improperText_eq_false tenant).2.1
    have small : (BitVec.ofInt (8 * 4) options.priority).toInt = options.priority := by
      rw [BitVec.toInt_ofInt_eq_self] <;> omega
    apply (Reads.signed small).bind
    apply (Reads.unsigned (by omega)).bind
    apply (Reads.unsigned (by omega)).bind_end
    exact Reads.pure _

theorem parseTenant_reads (valid : validateIdentity modelContractId scheduling = .ok ()) :
    Reads (Tilemaxsimd.parseTenant (versionOf scheduling) (tenantBytes scheduling).length)
      (tenantBytes scheduling) (tenantOf scheduling) := by
  cases scheduling with
  | none => exact Reads.pure _
  | some options =>
    exact readText_reads _ ((validateIdentity_eq_ok valid).2 options rfl).1

section

variable (encodes : Encodes modelContractId query descriptors maxBatchTokens maxBatchBytes
  scheduling timeoutMillis dtype dimension)

include encodes

theorem Encodes.body_le :
    (bodyBytes dtype dimension modelContractId query descriptors scheduling
      timeoutMillis).length ≤ usizeMax := by
  have bounded := encodes.frame
  omega

theorem Encodes.dimension_bounds :
    0 < dimension ∧ dimension ≤ 65535 := by
  rcases tensorMetadata_eq_ok encodes.metadata with ⟨some_, uniform⟩
  have first := uniform _ (getElem_mem some_)
  rw [← first.2]
  exact OwnedVector.dim_bounds first.1

/-- The daemon reads back what stands in front of the query. -/
theorem parsePreamble_reads :
    Reads (Tilemaxsimd.parsePreamble (versionOf scheduling))
      (le 4 dimension ++ (le 4 query.length ++ (le 4 descriptors.length ++
        identityBytes dtype modelContractId scheduling timeoutMillis)))
      ⟨dimension, query.length, descriptors.length, dtype.code, priorityOf scheduling,
        timeoutOf scheduling timeoutMillis, modelContractId, tenantOf scheduling⟩ := by
  rcases encodes.dimension_bounds with ⟨_, wide⟩
  rcases validateIdentity_eq_ok encodes.identity with ⟨contract, options⟩
  have contractShort := (improperText_eq_false contract).2.1
  have count := encodes.count
  have typed : dtype.code < 256 ^ 1 := by cases dtype <;> decide
  have priorityOk : -100 ≤ priorityOf scheduling ∧ priorityOf scheduling ≤ 100 := by
    cases scheduling with
    | none => exact ⟨by decide, by decide⟩
    | some scheduled => exact (options scheduled rfl).2
  have timeoutOk : ¬ (versionOf scheduling = Tilemaxsimd.versionScheduledExternal ∧
      ¬ (1 ≤ timeoutOf scheduling timeoutMillis ∧ timeoutOf scheduling timeoutMillis ≤
        600000)) := by
    cases scheduling with
    | none => exact fun both => absurd both.1 (by decide)
    | some scheduled =>
      intro both
      apply both.2
      change 1 ≤ min (max timeoutMillis 1) 600000 ∧ min (max timeoutMillis 1) 600000 ≤ 600000
      omega
  apply (Reads.unsigned (by omega)).bind
  apply (Reads.unsigned encodes.rows).bind
  apply (Reads.unsigned (by omega)).bind
  apply (Reads.unsigned typed).bind
  apply (Reads.unsigned (by decide)).bind
  apply (Reads.unsigned (by decide)).bind
  apply (Reads.unsigned (by omega)).bind
  apply (Reads.require count _).bind_nil
  apply (parseScheduling_reads timeoutMillis encodes.identity).bind
  apply (Reads.require priorityOk _).bind_nil
  apply (Reads.require timeoutOk _).bind_nil
  apply (readText_reads _ contract).bind
  apply (parseTenant_reads encodes.identity).bind_end
  exact Reads.pure _

/-- The daemon reads the body back. -/
theorem parseBody_readsAll (small : dimension ≤ 60000) (finite : ∀ vector ∈ query, vector.Finite)
    (addressed : List.Forall₂ Addresses descriptors digests)
    (tokens : query.length + totalRows descriptors ≤ 1000000)
    (bytes : (query.length + totalRows descriptors) * dimension * dtype.scalarBytes ≤
      1024 * 1024 * 1024) :
    ∃ request : Request, ReadsAll (parseBody (versionOf scheduling) requestId.toNat)
        (bodyBytes dtype dimension modelContractId query descriptors scheduling timeoutMillis)
        request ∧
      request.protocolVersion = versionOf scheduling ∧ request.requestId = requestId.toNat ∧
      request.tenant = tenantOf scheduling ∧ request.priority = priorityOf scheduling ∧
      request.timeoutMs = timeoutOf scheduling timeoutMillis ∧
      request.queryRows = query.length ∧ request.dimension = dimension ∧
      request.dtype = dtype.code ∧ request.query = queryBytes query ∧
      request.candidates =
        candidatesFrom modelContractId dimension dtype.code 0 descriptors digests := by
  rcases tensorMetadata_eq_ok encodes.metadata with ⟨some_, uniform⟩
  rcases encodes.dimension_bounds with ⟨positive, _⟩
  rw [Nat.add_mul, Nat.add_mul] at bytes
  have querySize : query.length * dimension * dtype.scalarBytes ≤ usizeMax :=
    Nat.le_trans (Nat.le_trans (Nat.le_add_right _ _) bytes) (by decide)
  rcases parseCandidates_reads addressed encodes.fit.valid positive modelContractId
    (by rw [zero_add]; exact encodes.count)
    ⟨[], query.length, query.length * dimension * dtype.scalarBytes⟩ (forall_mem_nil _) tokens
    bytes with ⟨candidates, same, parsed⟩
  let request : Request := {
    protocolVersion := versionOf scheduling
    requestId := requestId.toNat
    tenant := tenantOf scheduling
    priority := priorityOf scheduling
    timeoutMs := timeoutOf scheduling timeoutMillis
    queryRows := query.length
    dimension := dimension
    dtype := dtype.code
    query := queryBytes query
    candidates := candidates.1
    uniform := candidates.2 }
  refine ⟨request, ?_, rfl, rfl, rfl, rfl, rfl, rfl, rfl, rfl, rfl, same⟩
  apply (parsePreamble_reads encodes).bind
  apply (Reads.lift (tensorBytes_eq dtype some_ positive small querySize)).bind_nil
  apply (Reads.take (length_queryBytes uniform)).bind
  apply (Reads.require (validateFinite_queryBytes uniform finite) _).bind_nil
  apply parsed.bind_end
  exact ReadsAll.finishOr_bind _ (Reads.pure _)

/-- The daemon reads the header back and goes on with the body. -/
theorem Encodes.parse_eq (requestId : UInt64) :
    Tilemaxsimd.parse (requestOf requestId modelContractId query descriptors scheduling
        timeoutMillis dtype dimension).frame =
      ((parseBody (versionOf scheduling) requestId.toNat).step
        ⟨bodyBytes dtype dimension modelContractId query descriptors scheduling timeoutMillis,
          0⟩).1 := by
  apply parse_headerOf _ requestId.toNat_lt encodes.body_le
  cases scheduling with
  | none => exact .inl rfl
  | some _ => exact .inr rfl

end

end

end VectorChord.Maxsim
