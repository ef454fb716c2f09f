import VectorChord.Maxsim.Encoder

/-!
# Frames of the extension

Whatever `encode_external_descriptors` returns is a frame of one shape, and its query and
descriptors have passed the checks.
-/

namespace VectorChord.Maxsim

open Codec Collections Transition List Fallible BoundedWriter

/-! ## Shape -/

/-- The bytes of the values of a vector. -/
def OwnedVector.values : OwnedVector → List UInt8
  | .vecf32 vector => vector.slice.flatMap fun value => le 4 value.toNat
  | .vecf16 vector => vector.slice.flatMap fun value => le 2 value.toNat
  | .rabitq8 _ => []
  | .rabitq4 _ => []

/-- The bytes of a query. -/
def queryBytes (query : List OwnedVector) : List UInt8 := query.flatMap OwnedVector.values

section

variable {κ : Type}

/-- The bytes of a descriptor. -/
def descriptorBytes (candidateId : Nat) (descriptor : ExternalTensorDescriptor κ) : List UInt8 :=
  le 4 candidateId ++ (le 4 descriptor.rows ++ (le 4 (utf8 descriptor.tensorRef).length ++
    (le 4 (utf8 descriptor.checksum).length ++ (utf8 descriptor.tensorRef ++
      utf8 descriptor.checksum))))

/-- The bytes of descriptors, numbered from some id. -/
def descriptorsBytes (candidateId : Nat) : List (ExternalTensorDescriptor κ) → List UInt8
  | [] => []
  | descriptor :: descriptors =>
    descriptorBytes candidateId descriptor ++ descriptorsBytes (candidateId + 1) descriptors

end

/-- The bytes that only scheduled requests have in front of the texts. -/
def schedulingBytes (timeoutMillis : Nat) : Option TileMaxsimScheduling → List UInt8
  | none => []
  | some scheduling =>
    le 4 (BitVec.ofInt (8 * 4) scheduling.priority).toNat ++
      (le 4 (min (max timeoutMillis 1) 600000) ++ le 4 (utf8 scheduling.tenant).length)

def tenantBytes : Option TileMaxsimScheduling → List UInt8
  | none => []
  | some scheduling => utf8 scheduling.tenant

def versionOf : Option TileMaxsimScheduling → Nat
  | none => Tilemaxsimd.versionExternal
  | some _ => Tilemaxsimd.versionScheduledExternal

/-- The body between the number of candidates and the query. -/
def identityBytes (dtype : TensorDtype) (modelContractId : String)
    (scheduling : Option TileMaxsimScheduling) (timeoutMillis : Nat) : List UInt8 :=
  le 1 dtype.code ++ (le 1 1 ++ (le 2 0 ++ (le 4 (utf8 modelContractId).length ++
    (schedulingBytes timeoutMillis scheduling ++
      (utf8 modelContractId ++ tenantBytes scheduling)))))

/-- The body of a frame. -/
def bodyBytes {κ : Type} (dtype : TensorDtype) (dimension : Nat) (modelContractId : String)
    (query : List OwnedVector) (descriptors : List (ExternalTensorDescriptor κ))
    (scheduling : Option TileMaxsimScheduling) (timeoutMillis : Nat) : List UInt8 :=
  (le 4 dimension ++ (le 4 query.length ++ (le 4 descriptors.length ++
    identityBytes dtype modelContractId scheduling timeoutMillis))) ++
      (queryBytes query ++ descriptorsBytes 0 descriptors)

/-- The header of a frame. -/
def headerOf (requestId version bodyLen : Nat) : List UInt8 :=
  Tilemaxsimd.magic ++ (le 2 version ++ (le 2 1 ++ (le 8 requestId ++ le 8 bodyLen)))

/-! ## Writing -/

namespace BoundedWriter

/-- What was written is within the limit, and its length is a machine integer. -/
structure Fits (w : BoundedWriter) : Prop where
  limit : w.bytes.length ≤ w.limit
  range : w.bytes.length ≤ usizeMax

def append (w : BoundedWriter) (bytes : List UInt8) : BoundedWriter := ⟨w.bytes ++ bytes, w.limit⟩

variable {w w' : BoundedWriter} {u : Unit} {bytes : List UInt8}

theorem append_append (w : BoundedWriter) (bytes bytes' : List UInt8) :
    (w.append bytes).append bytes' = w.append (bytes ++ bytes') := by
  rw [append, append, append, append_assoc]

theorem fits_append : (w.append bytes).Fits ↔
    w.bytes.length + bytes.length ≤ w.limit ∧ w.bytes.length + bytes.length ≤ usizeMax := by
  rw [← length_append]
  exact ⟨fun fits => ⟨fits.limit, fits.range⟩, fun both => ⟨both.1, both.2⟩⟩

theorem Fits.of_append (fits : (w.append bytes).Fits) : w.Fits := by
  have both := fits_append.mp fits
  constructor <;> omega

theorem write_iff : (write bytes).step w = (.ok u, w') ↔ w' = w.append bytes ∧ w'.Fits := by
  rw [write, ensure, step_bind, step_bind_get, checkedAdd]
  by_cases range : w.bytes.length + bytes.length ≤ usizeMax
  · rw [if_pos range]
    dsimp only
    by_cases room : w.bytes.length + bytes.length ≤ w.limit
    · rw [step_require room]
      have fits := fits_append.mpr ⟨room, range⟩
      constructor
      · rintro ⟨⟩
        exact ⟨rfl, fits⟩
      · rintro ⟨rfl, _⟩
        rfl
    · rw [step_require_not room]
      constructor
      · rintro ⟨⟩
      · rintro ⟨rfl, fits⟩
        exact absurd (fits_append.mp fits).1 room
  · rw [if_neg range]
    constructor
    · rintro ⟨⟩
    · rintro ⟨rfl, fits⟩
      exact absurd (fits_append.mp fits).2 range

theorem length_step (w : BoundedWriter) : length.step w = (.ok w.bytes.length, w) := rfl

theorem zeros_eq_write (count : Nat) : zeros count = write (List.replicate count 0) := by
  rw [zeros, write, length_replicate]

end BoundedWriter

/-- The operation succeeds if and only if it is accepted and there is room for the bytes that it
appends. -/
def Emits {α : Type} (operation : Fallible RerankError BoundedWriter α) (accepted : Prop)
    (bytes : List UInt8) (value : α) : Prop :=
  ∀ w w' result, w.Fits → (operation.step w = (.ok result, w') ↔
    accepted ∧ result = value ∧ w' = w.append bytes ∧ w'.Fits)

namespace Emits

variable {α β : Type} {operation : Fallible RerankError BoundedWriter α}
  {next : α → Fallible RerankError BoundedWriter β} {accepted accepted' : Prop}
  {bytes bytes' : List UInt8} {value : α} {result : β}

theorem congr (emits : Emits operation accepted bytes value) (same : accepted ↔ accepted') :
    Emits operation accepted' bytes value := by
  rw [← propext same]
  exact emits

theorem pure (value : α) : Emits (Pure.pure value) True [] value := by
  intro w w' result fits
  rw [true_and, append, append_nil]
  constructor
  · rintro ⟨⟩
    exact ⟨rfl, rfl, fits⟩
  · rintro ⟨rfl, rfl, _⟩
    rfl

theorem bind (first : Emits operation accepted bytes value)
    (second : Emits (next value) accepted' bytes' result) :
    Emits (operation >>= next) (accepted ∧ accepted') (bytes ++ bytes') result := by
  intro w w' found fits
  rw [step_bind_eq_ok, ← append_append]
  constructor
  · rintro ⟨_, middle, done, done'⟩
    obtain ⟨holds, rfl, rfl, fits⟩ := (first w middle _ fits).mp done
    obtain ⟨holds', rest⟩ := (second _ w' found fits).mp done'
    exact ⟨⟨holds, holds'⟩, rest⟩
  · rintro ⟨⟨holds, holds'⟩, rfl, rfl, last⟩
    exact ⟨value, _, (first w _ value fits).mpr ⟨holds, rfl, rfl, last.of_append⟩,
      (second _ _ found last.of_append).mpr ⟨holds', rfl, rfl, last⟩⟩

theorem write (bytes : List UInt8) : Emits (BoundedWriter.write bytes) True bytes () := by
  intro w w' result _
  rw [write_iff]
  simp

theorem write_bind {next : Unit → Fallible RerankError BoundedWriter β}
    (second : Emits (next ()) accepted bytes' result) (bytes : List UInt8) :
    Emits (BoundedWriter.write bytes >>= next) accepted (bytes ++ bytes') result :=
  ((write bytes).bind second).congr (iff_of_eq (true_and _))

theorem bind_pure (first : Emits operation accepted bytes value) (f : α → β) :
    Emits (operation >>= fun value => Pure.pure (f value)) accepted bytes (f value) := by
  have whole : Emits (operation >>= fun value => Pure.pure (f value)) _ _ _ :=
    first.bind (pure (f value))
  rwa [append_nil, and_true] at whole

theorem require_bind {checked : Prop} [Decidable checked] {error : RerankError}
    {next : Unit → Fallible RerankError BoundedWriter β}
    (second : Emits (next ()) accepted bytes result) :
    Emits (Fallible.require checked error >>= next) (checked ∧ accepted) bytes result := by
  intro w w' found fits
  rw [step_require_bind_eq_ok, second w w' found fits, and_assoc]

theorem lift_bind {computed : Except RerankError α}
    (known : ∀ found, computed = .ok found ↔ accepted ∧ found = value)
    (second : Emits (next value) accepted' bytes result) :
    Emits (Fallible.lift computed >>= next) (accepted ∧ accepted') bytes result := by
  intro w w' found fits
  simp only [step_lift_bind_eq_ok, known, and_assoc, exists_and_left, exists_eq_left,
    second w w' found fits]

end Emits

/-! ## Numbers in range -/

theorem unit_eq_ok {computed : Except RerankError Unit} (result : Unit) :
    computed = .ok result ↔ computed = .ok () ∧ result = () :=
  (and_iff_left rfl).symm

theorem tryU32_eq_ok {value result : Nat} :
    tryU32 value = .ok result ↔ value < 2 ^ 32 ∧ result = value := by
  rw [tryU32]
  split <;> simp_all [eq_comm, Pure.pure, Except.pure]

theorem addOr_eq_ok {left right result : Nat} :
    addOr left right = .ok result ↔ left + right ≤ usizeMax ∧ result = left + right :=
  elim_checkedAdd_eq_ok

/-- The bytes of the tensors of some descriptors. -/
def declaredBytes (dimension : Nat) (dtype : TensorDtype) (rows : Nat) : Nat :=
  rows * dimension * dtype.scalarBytes

theorem declaredBytes_add {dimension : Nat} {dtype : TensorDtype} (rows rows' : Nat) :
    declaredBytes dimension dtype (rows + rows') =
      declaredBytes dimension dtype rows + declaredBytes dimension dtype rows' := by
  simp only [declaredBytes, Nat.add_mul]

theorem tensorBytes_eq_ok {rows dimension bytes : Nat} {dtype : TensorDtype} :
    tensorBytes rows dimension dtype = .ok bytes ↔
      declaredBytes dimension dtype rows ≤ usizeMax ∧
        bytes = declaredBytes dimension dtype rows := by
  have positive : 1 ≤ dtype.scalarBytes := by cases dtype <;> decide
  rw [tensorBytes, declaredBytes]
  by_cases range : rows * dimension * dtype.scalarBytes ≤ usizeMax
  · have inner : rows * dimension ≤ usizeMax := (Nat.le_mul_of_pos_right _ positive).trans range
    rw [checkedMul_eq inner, Option.bind_some, checkedMul_eq range]
    simp [range, eq_comm, Pure.pure, Except.pure]
  · have none : ((checkedMul rows dimension).bind fun elements =>
        checkedMul elements dtype.scalarBytes) = none := by
      simpa [checkedMul, Option.bind_eq_none_iff] using fun _ => Nat.lt_of_not_le range
    rw [none]
    simp [range]

/-! ## Queries and descriptors -/

theorem encodeScalars_emits {width : Nat} (size : Nat) (values : List (BitVec width)) :
    Emits (encodeScalars size values) True (values.flatMap fun value => le size value.toNat)
      () := by
  induction values with
  | nil => exact Emits.pure ()
  | cons value values ih => exact ih.write_bind _

theorem encodeVector_emits (dtype : TensorDtype) (vector : OwnedVector) :
    Emits (encodeVector dtype vector) (vector.dtype = some dtype) vector.values () := by
  have failed : Emits (throw .tensorMismatch : Fallible RerankError BoundedWriter Unit) False
      vector.values () := by
    intro w w' value _
    rw [false_and, iff_false]
    nofun
  cases dtype with
  | f32 =>
    cases vector with
    | vecf32 vector =>
      exact (encodeScalars_emits 4 vector.slice).congr (by simp [OwnedVector.dtype])
    | vecf16 | rabitq8 | rabitq4 => exact failed.congr (by simp [OwnedVector.dtype])
  | f16 =>
    cases vector with
    | vecf16 vector =>
      exact (encodeScalars_emits 2 vector.slice).congr (by simp [OwnedVector.dtype])
    | vecf32 | rabitq8 | rabitq4 => exact failed.congr (by simp [OwnedVector.dtype])

theorem encodeTensorValues_emits (dtype : TensorDtype) (vectors : List OwnedVector) :
    Emits (encodeTensorValues dtype vectors) (∀ vector ∈ vectors, vector.dtype = some dtype)
      (queryBytes vectors) () := by
  induction vectors with
  | nil => exact (Emits.pure ()).congr (by simp)
  | cons vector vectors ih =>
    exact ((encodeVector_emits dtype vector).bind ih).congr (by simp)

section

variable {κ : Type} {dimension : Nat} {dtype : TensorDtype} {maxBatchTokens maxBatchBytes : Nat}
  {batch : Batch κ} {descriptors : List (ExternalTensorDescriptor κ)}

/-- Numbers of tokens and bytes within the limits of a batch, and in range. -/
structure Within (maxBatchTokens maxBatchBytes tokens bytes : Nat) : Prop where
  tokens_le : tokens ≤ maxBatchTokens
  tokens_range : tokens ≤ usizeMax
  bytes_le : bytes ≤ maxBatchBytes
  bytes_range : bytes ≤ usizeMax

theorem Within.mono {tokens tokens' bytes bytes' : Nat}
    (within : Within maxBatchTokens maxBatchBytes tokens bytes) (fewer : tokens' ≤ tokens)
    (shorter : bytes' ≤ bytes) : Within maxBatchTokens maxBatchBytes tokens' bytes' where
  tokens_le := le_trans fewer within.tokens_le
  tokens_range := le_trans fewer within.tokens_range
  bytes_le := le_trans shorter within.bytes_le
  bytes_range := le_trans shorter within.bytes_range

/-- The batch of the encoder behind one more descriptor. -/
def Batch.push (dimension : Nat) (dtype : TensorDtype) (batch : Batch κ)
    (descriptor : ExternalTensorDescriptor κ) : Batch κ where
  totalTokens := batch.totalTokens + descriptor.rows
  declaredTensorBytes := batch.declaredTensorBytes + declaredBytes dimension dtype descriptor.rows
  heapKeys := batch.heapKeys ++ [descriptor.heapKey]

/-- A descriptor that can be written. -/
structure Writable (dimension : Nat) (dtype : TensorDtype)
    (descriptor : ExternalTensorDescriptor κ) : Prop where
  valid : validateExternalForRequest descriptor dimension dtype 4096 512 = .ok ()
  tensorRef : (utf8 descriptor.tensorRef).length < 2 ^ 32
  checksum : (utf8 descriptor.checksum).length < 2 ^ 32

theorem encodeDescriptor_emits (batch : Batch κ) (descriptor : ExternalTensorDescriptor κ) :
    Emits (encodeDescriptor dimension dtype maxBatchTokens maxBatchBytes batch descriptor)
      (Writable dimension dtype descriptor ∧ batch.heapKeys.length < 2 ^ 32 ∧
        Within maxBatchTokens maxBatchBytes (batch.push dimension dtype descriptor).totalTokens
          (batch.push dimension dtype descriptor).declaredTensorBytes)
      (descriptorBytes batch.heapKeys.length descriptor)
      (batch.push dimension dtype descriptor) := by
  apply Emits.congr
  · apply Emits.lift_bind unit_eq_ok
    apply Emits.lift_bind fun _ => addOr_eq_ok
    apply Emits.require_bind
    apply Emits.lift_bind fun _ => tensorBytes_eq_ok
    apply Emits.lift_bind fun _ => addOr_eq_ok
    apply Emits.require_bind
    apply Emits.lift_bind fun _ => tryU32_eq_ok
    apply Emits.write_bind
    apply Emits.write_bind
    apply Emits.lift_bind fun _ => tryU32_eq_ok
    apply Emits.write_bind
    apply Emits.lift_bind fun _ => tryU32_eq_ok
    apply Emits.write_bind
    apply Emits.write_bind
    exact (Emits.write _).bind_pure fun _ => _
  · have smaller : declaredBytes dimension dtype descriptor.rows ≤
      (batch.push dimension dtype descriptor).declaredTensorBytes := Nat.le_add_left _ _
    constructor
    · rintro ⟨valid, tokens, tokens', _, bytes, bytes', number, reference, checksum, _⟩
      exact ⟨⟨valid, reference, checksum⟩, number, tokens', tokens, bytes', bytes⟩
    · rintro ⟨⟨valid, reference, checksum⟩, number, tokens', tokens, bytes', bytes⟩
      exact ⟨valid, tokens, tokens', smaller.trans bytes, bytes, bytes', number, reference,
        checksum, trivial⟩

/-- The descriptors can be written one after the other. -/
def Fit (dimension : Nat) (dtype : TensorDtype) (maxBatchTokens maxBatchBytes : Nat) :
    Batch κ → List (ExternalTensorDescriptor κ) → Prop
  | _, [] => True
  | batch, descriptor :: descriptors =>
    (Writable dimension dtype descriptor ∧ batch.heapKeys.length < 2 ^ 32 ∧
      Within maxBatchTokens maxBatchBytes (batch.push dimension dtype descriptor).totalTokens
        (batch.push dimension dtype descriptor).declaredTensorBytes) ∧
      Fit dimension dtype maxBatchTokens maxBatchBytes (batch.push dimension dtype descriptor)
        descriptors

theorem encodeDescriptors_emits (batch : Batch κ)
    (descriptors : List (ExternalTensorDescriptor κ)) :
    Emits (encodeDescriptors dimension dtype maxBatchTokens maxBatchBytes batch descriptors)
      (Fit dimension dtype maxBatchTokens maxBatchBytes batch descriptors)
      (descriptorsBytes batch.heapKeys.length descriptors)
      (descriptors.foldl (Batch.push dimension dtype) batch) := by
  induction descriptors generalizing batch with
  | nil => exact Emits.pure batch
  | cons descriptor descriptors ih =>
    have rest := ih (batch.push dimension dtype descriptor)
    rw [Batch.push, length_append] at rest
    exact (encodeDescriptor_emits batch descriptor).bind rest

theorem Fit.valid (fit : Fit dimension dtype maxBatchTokens maxBatchBytes batch descriptors) :
    ∀ descriptor ∈ descriptors,
      validateExternalForRequest descriptor dimension dtype 4096 512 = .ok () := by
  induction descriptors generalizing batch with
  | nil => exact forall_mem_nil _
  | cons descriptor descriptors ih => exact forall_mem_cons.mpr ⟨fit.1.1.valid, ih fit.2⟩

theorem heapKeys_foldl (batch : Batch κ) (descriptors : List (ExternalTensorDescriptor κ)) :
    (descriptors.foldl (Batch.push dimension dtype) batch).heapKeys =
      batch.heapKeys ++ descriptors.map ExternalTensorDescriptor.heapKey := by
  induction descriptors generalizing batch with
  | nil => exact (append_nil _).symm
  | cons descriptor descriptors ih =>
    rw [foldl_cons, ih, Batch.push, append_assoc]
    rfl

end

/-! ## Frames -/

theorem encodeScheduling_emits (scheduling : Option TileMaxsimScheduling) (timeoutMillis : Nat) :
    Emits (encodeScheduling scheduling timeoutMillis) ((tenantBytes scheduling).length < 2 ^ 32)
      (schedulingBytes timeoutMillis scheduling) (versionOf scheduling) := by
  cases scheduling with
  | none => exact (Emits.pure _).congr (by simp [tenantBytes])
  | some scheduling =>
    apply Emits.write_bind
    apply Emits.write_bind
    exact (Emits.lift_bind (fun _ => tryU32_eq_ok) ((Emits.write _).bind_pure fun _ => _)).congr
      (iff_of_eq (and_true _))

theorem encodeTenant_emits (scheduling : Option TileMaxsimScheduling) :
    Emits (encodeTenant scheduling) True (tenantBytes scheduling) () := by
  cases scheduling with
  | none => exact Emits.pure ()
  | some scheduling => exact Emits.write _

theorem encodeShape_emits (dimension queryRows : Nat) :
    Emits (encodeShape dimension queryRows) True
      (List.replicate 24 0 ++ (le 4 dimension ++ le 4 queryRows)) () := by
  rw [encodeShape, zeros_eq_write]
  exact ((Emits.write _).write_bind _).write_bind _

section

variable {κ : Type} {modelContractId : String} {query : List OwnedVector}
    {descriptors : List (ExternalTensorDescriptor κ)} {maxBatchTokens maxBatchBytes : Nat}
    {scheduling : Option TileMaxsimScheduling} {timeoutMillis : Nat}

theorem encodeRest_emits (dtype : TensorDtype) (dimension declaredTensorBytes : Nat) :
    Emits (encodeRest modelContractId query descriptors maxBatchTokens maxBatchBytes scheduling
        timeoutMillis dtype dimension declaredTensorBytes)
      ((utf8 modelContractId).length < 2 ^ 32 ∧ (tenantBytes scheduling).length < 2 ^ 32 ∧
        (∀ vector ∈ query, vector.dtype = some dtype) ∧ descriptors.length ≤ 65536 ∧
        Fit dimension dtype maxBatchTokens maxBatchBytes ⟨query.length, declaredTensorBytes, []⟩
          descriptors)
      (le 4 0 ++ (identityBytes dtype modelContractId scheduling timeoutMillis ++
        (queryBytes query ++ descriptorsBytes 0 descriptors)))
      (versionOf scheduling, descriptors.foldl (Batch.push dimension dtype)
        ⟨query.length, declaredTensorBytes, []⟩) := by
  simp only [identityBytes, append_assoc]
  apply Emits.congr
  · apply Emits.write_bind
    apply Emits.write_bind
    apply Emits.write_bind
    apply Emits.write_bind
    apply Emits.lift_bind fun _ => tryU32_eq_ok
    apply Emits.write_bind
    apply (encodeScheduling_emits scheduling timeoutMillis).bind
    apply Emits.write_bind
    apply (encodeTenant_emits scheduling).bind
    apply (encodeTensorValues_emits dtype query).bind
    apply Emits.require_bind
    exact (encodeDescriptors_emits _ descriptors).bind_pure _
  · simp only [true_and]

/-- Bytes that are in place are overwritten. -/
theorem BoundedWriter.patchBytes_append {front old bytes tail : List UInt8} {offset limit : Nat}
    (place : front.length = offset) (size : old.length = bytes.length) :
    (⟨front ++ (old ++ tail), limit⟩ : BoundedWriter).patchBytes offset bytes =
      ⟨front ++ (bytes ++ tail), limit⟩ := by
  rw [patchBytes, ← place, ← size, take_left, ← length_append,
    ← append_assoc front old tail, drop_left, append_assoc]

theorem patchHeader_eq {body : List UInt8} {limit : Nat} (requestId version bodyLen : Nat) :
    patchHeader ⟨List.replicate 24 0 ++ body, limit⟩ requestId version bodyLen =
      ⟨headerOf requestId version bodyLen ++ body, limit⟩ := by
  let zeros (count : Nat) : List UInt8 := replicate count 0
  have magic : (⟨replicate 24 0 ++ body, limit⟩ : BoundedWriter).patchBytes 0
      Tilemaxsimd.magic =
      ⟨Tilemaxsimd.magic ++ (zeros 2 ++ (zeros 2 ++ (zeros 8 ++ (zeros 8 ++ body)))), limit⟩ :=
    @BoundedWriter.patchBytes_append [] (zeros 4) Tilemaxsimd.magic
      (zeros 2 ++ (zeros 2 ++ (zeros 8 ++ (zeros 8 ++ body)))) 0 limit rfl rfl
  have front : Tilemaxsimd.magic.length = 4 := rfl
  rw [patchHeader, magic, patch, patch, patch,
    patch, patchBytes_append front (by simp [zeros]),
    ← append_assoc, patchBytes_append (by simp [front]) (by simp [zeros]),
    ← append_assoc, patchBytes_append (by simp [front]) (by simp [zeros]),
    ← append_assoc, patchBytes_append (by simp [front]) (by simp [zeros])]
  simp only [headerOf, append_assoc]

theorem encodeHeader_step (requestId : UInt64) (version candidateCount : Nat)
    (shape rest : List UInt8) (limit : Nat) :
    (encodeHeader requestId version (List.replicate 24 (0 : UInt8) ++ shape).length
        candidateCount).step ⟨List.replicate 24 0 ++ shape ++ (le 4 0 ++ rest), limit⟩ =
      (.ok (), ⟨headerOf requestId.toNat version (shape ++ (le 4 candidateCount ++ rest)).length ++
        (shape ++ (le 4 candidateCount ++ rest)), limit⟩) := by
  have counted : (⟨replicate 24 0 ++ shape ++ (le 4 0 ++ rest), limit⟩ :
        BoundedWriter).patch (replicate 24 (0 : UInt8) ++ shape).length 4 candidateCount =
      ⟨replicate 24 0 ++ (shape ++ (le 4 candidateCount ++ rest)), limit⟩ := by
    rw [patch, patchBytes_append rfl (by rw [length_le, length_le]), append_assoc]
  have length : checkedSub (replicate 24 (0 : UInt8) ++
      (shape ++ (le 4 candidateCount ++ rest))).length 24 =
      some (shape ++ (le 4 candidateCount ++ rest)).length := by
    rw [length_append, length_replicate, checkedSub_eq (Nat.le_add_right _ _),
      Nat.add_sub_cancel_left]
  rw [encodeHeader, step_bind_ok (step_modify _ _), counted, step_bind_ok (length_step _), length]
  exact congrArg (Prod.mk _) (patchHeader_eq _ _ _)

theorem bodyBytes_eq (dtype : TensorDtype) (dimension : Nat) :
    le 4 dimension ++ le 4 query.length ++ (le 4 descriptors.length ++
        (identityBytes dtype modelContractId scheduling timeoutMillis ++
          (queryBytes query ++ descriptorsBytes 0 descriptors))) =
      bodyBytes dtype dimension modelContractId query descriptors scheduling timeoutMillis := by
  simp only [bodyBytes, append_assoc]

theorem length_headerOf (requestId version bodyLen : Nat) :
    (headerOf requestId version bodyLen).length = 24 := by
  have front : Tilemaxsimd.magic.length = 4 := rfl
  simp [headerOf, front]

theorem fits_body (dtype : TensorDtype) (dimension : Nat) :
    BoundedWriter.Fits (append (append ⟨[], maxBatchBytes⟩
        (List.replicate 24 0 ++ (le 4 dimension ++ le 4 query.length))) (le 4 0 ++
          (identityBytes dtype modelContractId scheduling timeoutMillis ++
            (queryBytes query ++ descriptorsBytes 0 descriptors)))) ↔
      24 + (bodyBytes dtype dimension modelContractId query descriptors scheduling
        timeoutMillis).length ≤ min maxBatchBytes usizeMax := by
  rw [fits_append, ← bodyBytes_eq, append]
  simp only [length_append, length_replicate, length_le, length_nil]
  omega

/-- What a call checks that succeeds. -/
structure Encodes {κ : Type} (modelContractId : String) (query : List OwnedVector)
    (descriptors : List (ExternalTensorDescriptor κ)) (maxBatchTokens maxBatchBytes : Nat)
    (scheduling : Option TileMaxsimScheduling) (timeoutMillis : Nat) (dtype : TensorDtype)
    (dimension : Nat) : Prop where
  identity : validateIdentity modelContractId scheduling = .ok ()
  metadata : tensorMetadata query = .ok (dtype, dimension)
  rows : query.length < 2 ^ 32
  tokens : query.length ≤ maxBatchTokens
  range : declaredBytes dimension dtype query.length ≤ usizeMax
  declared : declaredBytes dimension dtype query.length ≤ maxBatchBytes
  contract : (utf8 modelContractId).length < 2 ^ 32
  tenant : (tenantBytes scheduling).length < 2 ^ 32
  typed : ∀ vector ∈ query, vector.dtype = some dtype
  count : descriptors.length ≤ 65536
  fit : Fit dimension dtype maxBatchTokens maxBatchBytes
    ⟨query.length, declaredBytes dimension dtype query.length, []⟩ descriptors
  frame : 24 + (bodyBytes dtype dimension modelContractId query descriptors scheduling
    timeoutMillis).length ≤ min maxBatchBytes usizeMax

/-- What it returns. -/
def requestOf {κ : Type} (requestId : UInt64) (modelContractId : String) (query : List OwnedVector)
    (descriptors : List (ExternalTensorDescriptor κ)) (scheduling : Option TileMaxsimScheduling)
    (timeoutMillis : Nat) (dtype : TensorDtype) (dimension : Nat) : EncodedRequest κ :=
  let body := bodyBytes dtype dimension modelContractId query descriptors scheduling timeoutMillis
  ⟨headerOf requestId.toNat (versionOf scheduling) body.length ++ body,
    descriptors.map ExternalTensorDescriptor.heapKey, versionOf scheduling⟩

theorem encodeExternalDescriptors_eq_ok {requestId : UInt64} {encoded : EncodedRequest κ} :
    encodeExternalDescriptors requestId modelContractId query descriptors maxBatchTokens
        maxBatchBytes scheduling timeoutMillis = .ok encoded ↔
      ∃ dtype dimension, Encodes modelContractId query descriptors maxBatchTokens maxBatchBytes
          scheduling timeoutMillis dtype dimension ∧
        encoded = requestOf requestId modelContractId query descriptors scheduling timeoutMillis
          dtype dimension := by
  have empty : BoundedWriter.Fits ⟨[], maxBatchBytes⟩ := ⟨Nat.zero_le _, Nat.zero_le _⟩
  have keys : ∀ batch : Batch κ, batch.heapKeys = [] → ∀ dimension dtype,
      (descriptors.foldl (Batch.push dimension dtype) batch).heapKeys =
        descriptors.map ExternalTensorDescriptor.heapKey := by
    intro batch none dimension dtype
    rw [heapKeys_foldl, none, nil_append]
  constructor
  · intro done
    rcases whole : (encodeFrame requestId modelContractId query descriptors maxBatchTokens
      maxBatchBytes scheduling timeoutMillis).step ⟨[], maxBatchBytes⟩ with ⟨result, last⟩
    rw [encodeExternalDescriptors, whole] at done
    cases done
    rcases step_lift_bind_eq_ok.mp whole with ⟨_, identity, body⟩
    rcases step_lift_bind_eq_ok.mp body with ⟨⟨dtype, dimension⟩, metadata, body⟩
    rcases step_lift_bind_eq_ok.mp body with ⟨queryRows, length, body⟩
    rcases step_require_bind_eq_ok.mp body with ⟨tokens, body⟩
    rcases step_lift_bind_eq_ok.mp body with ⟨_, size, body⟩
    rcases step_require_bind_eq_ok.mp body with ⟨declared, body⟩
    rcases step_bind_eq_ok.mp body with ⟨_, _, shape, body⟩
    rcases step_bind_eq_ok.mp body with ⟨offset, _, place, body⟩
    cases place
    rcases step_bind_eq_ok.mp body with ⟨⟨version, batch⟩, _, rest, body⟩
    rcases step_lift_bind_eq_ok.mp body with ⟨candidateCount, number, body⟩
    rcases step_bind_eq_ok.mp body with ⟨_, _, header, body⟩
    obtain ⟨rows, rfl⟩ := tryU32_eq_ok.mp length
    obtain ⟨range, rfl⟩ := tensorBytes_eq_ok.mp size
    obtain ⟨_, rfl⟩ := tryU32_eq_ok.mp number
    obtain ⟨_, _, rfl, fits⟩ := (encodeShape_emits _ _ _ _ _ empty).mp shape
    obtain ⟨⟨contract, tenant, typed, count, fit⟩, same, rfl, fits⟩ :=
      (encodeRest_emits _ _ _ _ _ _ fits).mp rest
    cases same
    cases (encodeHeader_step _ _ _ _ _ _).symm.trans header
    cases body
    refine ⟨dtype, dimension, ⟨identity, metadata, rows, tokens, range, declared, contract, tenant,
      typed, count, fit, (fits_body _ _).mp fits⟩, ?_⟩
    rw [keys _ rfl, length_map, bodyBytes_eq]
    rfl
  · rintro ⟨dtype, dimension, encodes, rfl⟩
    have fits := (fits_body _ _).mpr encodes.frame
    have first := (encodeShape_emits dimension query.length _ _ () empty).mpr
      ⟨trivial, rfl, rfl, fits.of_append⟩
    have second := (encodeRest_emits dtype dimension _ _ _ _ fits.of_append).mpr
      ⟨⟨encodes.contract, encodes.tenant, encodes.typed, encodes.count, encodes.fit⟩, rfl, rfl,
        fits⟩
    have number := tryU32_eq_ok.mpr ⟨lt_of_le_of_lt encodes.count (by decide), rfl⟩
    have last := encodeHeader_step requestId (versionOf scheduling) descriptors.length
      (le 4 dimension ++ le 4 query.length) (identityBytes dtype modelContractId scheduling
        timeoutMillis ++ (queryBytes query ++ descriptorsBytes 0 descriptors)) maxBatchBytes
    rw [encodeExternalDescriptors, encodeFrame, step_bind_ok (by rw [encodes.identity]; rfl),
      step_bind_ok (by rw [encodes.metadata]; rfl),
      step_bind_ok (by rw [tryU32_eq_ok.mpr ⟨encodes.rows, rfl⟩]; rfl),
      step_bind_ok (step_require encodes.tokens _ _),
      step_bind_ok (by rw [tensorBytes_eq_ok.mpr ⟨encodes.range, rfl⟩]; rfl),
      step_bind_ok (step_require encodes.declared _ _),
      step_bind_ok first, step_bind_ok (BoundedWriter.length_step _), step_bind_ok second]
    dsimp only
    rw [keys _ rfl, length_map, step_bind_ok (by rw [number]; rfl)]
    rw [bodyBytes_eq] at last
    exact congrArg Prod.fst (step_bind_ok last _)

end

end VectorChord.Maxsim
