import VectorChord.Collections.Table
import VectorChord.Collections.TopK
import VectorChord.Maxsim.Batches
import VectorChord.Maxsim.Candidates

/-!
# Reranking a set of candidates

`execute_rerank` scores the external tensors of the candidates that a query names.  The
descriptors of all visible ones are loaded, the daemon scores them batch by batch, and a
heap keeps the nearest.  How the candidates are cut into batches does not show in the rows.
-/

namespace VectorChord.Maxsim

open Codec Collections Transition List Fallible AList
open Tilemaxsimd (success resultBytes responseHeader)

/-! ## Candidates -/

/-- `candidate_for_ordinal`. -/
def candidateForOrdinal (ordinal : Nat) : Except RerankError (PageCandidate Distance) := do
  let ordinal ← tryU32 ordinal
  pure ⟨Distance.fromF32 0, toLex (word 0, toLex (word (ordinal / 2 ^ 16), word ordinal))⟩

/-- `validate_top_k`. -/
def validateTopK (candidateCount : Nat) (topK : Int) : Except RerankError Unit :=
  if topK ≤ 0 ∨ candidateCount < topK.toNat then
    throw (.configuration "top_k must be positive and no greater than candidate_ids length")
  else pure ()

/-! ## Descriptors -/

/-- A row of the descriptor query; a column may be NULL. -/
structure DescriptorRow where
  publicId : Option Int
  tensorRef : Option String
  tensorRows : Option Int
  tensorDimension : Option Int
  tensorDtype : Option String
  tensorChecksum : Option String

/-- `required_heap_column`. -/
def requiredHeapColumn {α : Type} (column : Option α) : Except RerankError α :=
  column.elim (throw (.invalidDescriptor "descriptor query returned NULL")) pure

/-- A positive `u32` up to a maximum. -/
def positiveUpTo (maximum : Nat) (message : String) (value : Int) : Except RerankError Nat :=
  if 1 ≤ value ∧ value ≤ maximum then pure value.toNat else throw (.invalidDescriptor message)

/-- `ExternalTensorDtype` by its name. -/
def dtypeNamed (dtype : String) : Except RerankError TensorDtype :=
  if dtype = "float32" then pure .f32
  else if dtype = "float16" then pure .f16
  else throw (.invalidDescriptor "tensor dtype must be float16 or float32")

/-- `validate_descriptor`.  The public ID stays outside the descriptor. -/
def validateDescriptor (candidate : PageCandidate Distance) (tensorRef : String)
    (rows dimension : Int) (dtype checksum : String) :
    Except RerankError (ExternalTensorDescriptor HeapKey) := do
  if improperText 4096 tensorRef then
    throw (.invalidDescriptor
      "tensor reference is empty, oversized, or contains control characters")
  let rows ← positiveUpTo 65536 "tensor row count is invalid" rows
  let dimension ← positiveUpTo 60000 "tensor dimension is invalid" dimension
  let dtype ← dtypeNamed dtype
  if 512 < (utf8 checksum).length ∨
      (Tilemaxsimd.stripPrefix "sha256:" checksum).any Tilemaxsimd.isDigest = false then
    throw (.invalidDescriptor "tensor checksum must be a lowercase sha256 digest")
  pure ⟨candidate.heapKey, tensorRef, rows, dimension, dtype, checksum⟩

/-- What PostgreSQL answers. -/
structure Database where
  /-- The model contract of the source, unless the snapshot, the registration, the locks or
  the privileges are not as required. -/
  binding : Except RerankError String
  /-- The rows of the descriptor query for some public IDs. -/
  select : List Int → Except RerankError (List DescriptorRow)

/-- The candidates by their public IDs. -/
def candidatesById (table : Table Int (PageCandidate Distance)) :
    (ordinal : Nat) → List Int → Except RerankError (Table Int (PageCandidate Distance))
  | _, [] => pure table
  | ordinal, publicId :: publicIds => do
    let candidate ← candidateForOrdinal ordinal
    candidatesById (table.insert publicId candidate) (ordinal + 1) publicIds

/-- `MaterializedDescriptorSource` and the public IDs of its candidates. -/
structure Visible where
  descriptors : Table HeapKey (ExternalTensorDescriptor HeapKey)
  publicIds : Table HeapKey Int

/-- One iteration of the loop over rows. -/
def loadRow (candidates : Table Int (PageCandidate Distance)) (visible : Visible)
    (row : DescriptorRow) : Except RerankError Visible := do
  let publicId ← requiredHeapColumn row.publicId
  match candidates.lookup publicId with
  | none => throw (.registry "descriptor query returned an unknown public ID")
  | some candidate => do
    let tensorRef ← requiredHeapColumn row.tensorRef
    let tensorRows ← requiredHeapColumn row.tensorRows
    let tensorDimension ← requiredHeapColumn row.tensorDimension
    let tensorDtype ← requiredHeapColumn row.tensorDtype
    let tensorChecksum ← requiredHeapColumn row.tensorChecksum
    let descriptor ← validateDescriptor candidate tensorRef tensorRows tensorDimension
      tensorDtype tensorChecksum
    if (visible.descriptors.lookup candidate.heapKey).isSome ∨
        (visible.publicIds.lookup candidate.heapKey).isSome then
      throw (.registry "descriptor query returned a duplicate public ID")
    else
      pure ⟨visible.descriptors.insert candidate.heapKey descriptor,
        visible.publicIds.insert candidate.heapKey publicId⟩

/-- The loop over rows. -/
def loadRows (candidates : Table Int (PageCandidate Distance)) :
    List DescriptorRow → Visible → Except RerankError Visible
  | [], visible => pure visible
  | row :: rows, visible => do
    let visible ← loadRow candidates visible row
    loadRows candidates rows visible

/-- `load_visible_descriptors`.  The query returns at most one row for each candidate. -/
def loadVisibleDescriptors (database : Database) (candidateIds : List Int) :
    Except RerankError Visible := do
  let candidates ← candidatesById ∅ 0 candidateIds
  let rows ← database.select candidateIds
  loadRows candidates (rows.take candidateIds.length) ⟨∅, ∅⟩

/-- `MaterializedDescriptorSource::fetch`. -/
def materialized : Fetch (Table HeapKey (ExternalTensorDescriptor HeapKey))
    (PageCandidate Distance) HeapKey :=
  fun candidate =>
    Fallible.act fun table => (table.lookup candidate.heapKey, table.erase candidate.heapKey)

/-! ## Reranking -/

/-- A row: a distance, and the public ID that breaks ties. -/
abbrev Row := Distance ×ₗ Int

/-- The order in which `RerankResults` hands out its items. -/
def nearestFirst (result : Distance × HeapKey) : (Distance ×ₗ HeapKey)ᵒᵈ :=
  OrderDual.toDual (toLex result)

section

variable [Heap]

/-- The callback for a batch; the state is the heap of the nearest rows. -/
def consumeResults (publicIds : Table HeapKey Int) (limit : Nat) :
    List (Distance × HeapKey) → Fallible RerankError (List Row) Unit
  | [] => pure ()
  | (distance, heapKey) :: results =>
    match publicIds.lookup heapKey with
    | none => throw (.protocol "sidecar result has no visible public ID")
    | some publicId => do
      modify fun best => retain limit best (toLex (distance, publicId))
      consumeResults publicIds limit results

/-- The callback of `execute_rerank`. -/
def consumeBatch (publicIds : Table HeapKey Int) (limit : Nat) (batch : RerankResults HeapKey) :
    Fallible RerankError (List Row) Unit :=
  consumeResults publicIds limit (Heap.drain nearestFirst batch.inner)

/-- `PostgresMaxsimBackend`. -/
inductive PostgresMaxsimBackend where
  | coarseOnly
  | cpuExact
  | gpu
  | auto
  deriving DecidableEq, Repr

/-- The settings that `execute_rerank` reads; the endpoint belongs to the transport. -/
structure Gucs where
  backend : PostgresMaxsimBackend
  gpuTimeoutMs : Nat
  gpuMaxBatchTokens : Nat
  gpuMaxBatchBytes : Nat
  tenant : Option String
  priority : Int

/-- The backend for some settings. -/
def Gucs.external (gucs : Gucs) (modelContractId : String) : GpuExternalTileMaxsimBackend where
  modelContractId := modelContractId
  timeout := gucs.gpuTimeoutMs * 10 ^ 6
  maxBatchTokens := gucs.gpuMaxBatchTokens
  maxBatchBytes := gucs.gpuMaxBatchBytes
  scheduling := gucs.tenant.map fun tenant => ⟨tenant, gucs.priority⟩

/-- What outlives a call: the outside, and `NEXT_REQUEST_ID`. -/
structure Session (τ : Type) where
  transport : τ
  nextRequestId : UInt64

section

variable {τ : Type}

/-- The candidates of `execute_rerank`, in the order of their heap keys. -/
def Visible.candidates (visible : Visible) : List (PageCandidate Distance) :=
  (visible.publicIds.keys.insertionSort (· ≤ ·)).map fun heapKey =>
    ⟨Distance.fromF32 0, heapKey⟩

/-- The batches of `execute_rerank`, and the nearest rows of all; `none` if the fuel has run
out. -/
def rerankVisible (backend : GpuExternalTileMaxsimBackend) (transport : Transport τ)
    (query : List OwnedVector) (visible : Visible) (limit : Nat) :
    Fallible RerankError (Session τ) (Option (List Row)) :=
  Fallible.focus
    (fun session => (⟨⟨visible.candidates, visible.descriptors, none⟩, session.transport,
      session.nextRequestId, []⟩ : Rerank _ τ (List Row) (PageCandidate Distance) HeapKey))
    (fun _ state => ⟨state.transport, state.nextRequestId⟩)
    (do
      let done ← rerankBatches backend query materialized transport
        (consumeBatch visible.publicIds limit) (visible.candidates.length + 1)
      let state ← get
      pure (done.map fun _ => state.consumed))

variable [Sorting]

/-- The rows that are returned: public ID and similarity. -/
def outputRows (limit : Nat) (best : List Row) : List (Int × BitVec 32) :=
  ((Sorting.sort id best).take limit).map fun row =>
    ((ofLex row).2, negF32 (ofLex row).1.toF32)

/-- `execute_rerank`.  Profiles are left out. -/
def executeRerank (database : Database) (gucs : Gucs) (transport : Transport τ)
    (query : List OwnedVector) (candidateIds : List Int) (topK : Int) :
    Fallible RerankError (Session τ) (Option (List (Int × BitVec 32))) := do
  Fallible.lift (validateTopK candidateIds.length topK)
  Fallible.require (gucs.backend = .gpu) (.configuration
    "external TileMaxSim rerank requires vchordrq.maxsim_backend = 'gpu'")
  let modelContractId ← Fallible.lift database.binding
  let visible ← Fallible.lift (loadVisibleDescriptors database candidateIds)
  let best ← rerankVisible (gucs.external modelContractId) transport query visible topK.toNat
  pure (best.map (outputRows topK.toNat))

end

end

/-! ## Scores -/

section

variable {κ τ : Type}

/-- The distance of a similarity. -/
def distanceOf (similarity : ExternalTensorDescriptor κ → BitVec 32)
    (descriptor : ExternalTensorDescriptor κ) : Distance :=
  Distance.fromF32 (negF32 (similarity descriptor))

/-- The daemon gives a descriptor the same similarity in every request of a query. -/
def Transport.Scores (transport : Transport τ) (modelContractId : String)
    (query : List OwnedVector) (similarity : ExternalTensorDescriptor κ → BitVec 32) : Prop :=
  ∀ requestId descriptors maxBatchTokens maxBatchBytes scheduling timeoutMillis encoded timeout
    maxResponseBytes outside outside' sent,
    encodeExternalDescriptors requestId modelContractId query descriptors maxBatchTokens
      maxBatchBytes scheduling timeoutMillis = .ok encoded →
    (transport.roundTrip encoded.frame timeout maxResponseBytes).step outside =
      (.ok (success (UInt16.ofNat encoded.version) requestId sent), outside') →
    ∀ result ∈ sent, ∀ descriptor, descriptors[result.1.toNat]? = some descriptor →
      result.2 = similarity descriptor

variable {descriptors : List (ExternalTensorDescriptor κ)} {sent : List (UInt32 × BitVec 32)}
  {results : List (Distance × κ)} {similarity : ExternalTensorDescriptor κ → BitVec 32}

theorem Accepted.map_some {ids : List Nat}
    (accepted : Accepted (descriptors.map ExternalTensorDescriptor.heapKey) ids sent results)
    (scored : ∀ result ∈ sent, ∀ descriptor, descriptors[result.1.toNat]? = some descriptor →
      result.2 = similarity descriptor) :
    results.map some = (sent.map fun result => result.1.toNat).map fun id =>
      descriptors[id]?.map fun descriptor =>
        (distanceOf similarity descriptor, descriptor.heapKey) := by
  induction accepted with
  | nil => rfl
  | cons known _ _ _ ih =>
    obtain ⟨first, others⟩ := forall_mem_cons.mp scored
    rw [getElem?_map] at known
    obtain ⟨descriptor, found, rfl⟩ := Option.map_eq_some_iff.mp known
    have score := first descriptor found
    dsimp only at score
    simp only [map_cons, ih others, found, Option.map_some, distanceOf, score]

/-- The results of a batch: one for each of its descriptors, at the distance of its
similarity. -/
theorem Accepted.perm_map
    (accepted : Accepted (descriptors.map ExternalTensorDescriptor.heapKey) [] sent results)
    (length : sent.length = descriptors.length)
    (scored : ∀ result ∈ sent, ∀ descriptor, descriptors[result.1.toNat]? = some descriptor →
      result.2 = similarity descriptor) :
    results.Perm (descriptors.map fun descriptor =>
      (distanceOf similarity descriptor, descriptor.heapKey)) := by
  have order := accepted.perm (length.trans (length_map _).symm)
  rw [length_map] at order
  have listed : (range descriptors.length).map (fun id =>
      descriptors[id]?.map fun descriptor =>
        (distanceOf similarity descriptor, descriptor.heapKey)) =
      (descriptors.map fun descriptor =>
        (distanceOf similarity descriptor, descriptor.heapKey)).map some := by
    apply ext_getElem?
    intro i
    by_cases inside : i < descriptors.length
    · simp [inside]
    · simp [inside]
  have same := order.map fun id => descriptors[id]?.map fun descriptor =>
    (distanceOf similarity descriptor, descriptor.heapKey)
  rw [← accepted.map_some scored, listed] at same
  simpa using same.filterMap id

end

/-! ## What a rerank consumes -/

section

variable {κ τ χ ω γ : Type} {transport : Transport τ} {backend : GpuExternalTileMaxsimBackend}
    {query : List OwnedVector} {fetch : Fetch ω χ κ}
    {consume : RerankResults κ → Fallible RerankError γ Unit}
    {similarity : ExternalTensorDescriptor κ → BitVec 32}

/-- A request hands the results of its descriptors to the callback. -/
theorem rerankBatch_consumes (scores : transport.Scores backend.modelContractId query similarity)
    {deadline : Nat} {descriptors : List (ExternalTensorDescriptor κ)}
    {state state' : Rerank ω τ γ χ κ}
    (done : (rerankBatch backend query transport consume deadline descriptors).step state =
      (.ok (), state')) :
    ∃ results, results.inner.Perm (descriptors.map fun descriptor =>
        (distanceOf similarity descriptor, descriptor.heapKey)) ∧
      (consume results).step state.consumed = (.ok (), state'.consumed) := by
  obtain ⟨_, _, _, _, _, _, _, _, _, results, encode, answer, decode, step⟩ :=
    rerankBatch_eq_ok done
  obtain ⟨sent, rfl, length, _, accepted⟩ := decodeResponseForVersion_eq_ok.mp decode
  obtain ⟨_, _, _, rfl⟩ := encodeExternalDescriptors_eq_ok.mp encode
  rw [requestOf] at accepted length
  rw [length_map] at length
  exact ⟨results, accepted.perm_map length (scores _ _ _ _ _ _ _ _ _ _ _ _ encode answer), step⟩

section

variable (holds : List (ExternalTensorDescriptor κ) → γ → Prop)
  (scores : transport.Scores backend.modelContractId query similarity)
  (each : ∀ before batch results consumed consumed', holds before consumed →
    results.inner.Perm (batch.map fun descriptor =>
      (distanceOf similarity descriptor, descriptor.heapKey)) →
    (consume results).step consumed = (.ok (), consumed') → holds (before ++ batch) consumed')

include holds scores each

/-- What the callback keeps true of the descriptors so far holds at the end of all that the
supply yields. -/
theorem rerankLoop_consumes {deadline fuel : Nat} {before : List (ExternalTensorDescriptor κ)}
    {state state' : Rerank ω τ γ χ κ}
    (done : (rerankLoop backend query fetch transport consume deadline fuel).step state =
      (.ok (some ()), state')) (start : holds before state.consumed) :
    ∃ descriptors source, state.supply.Yields fetch descriptors source ∧
      holds (before ++ descriptors) state'.consumed := by
  induction fuel generalizing before state with
  | zero => cases done
  | succ fuel ih =>
    obtain ⟨collected, middle, first, next⟩ := step_bind_eq_ok.mp done
    obtain ⟨supply, part, rfl⟩ := step_focus_eq_ok.mp first
    obtain ⟨_, collects⟩ := collectExternalBatch_spec part
    split at next
    next empty =>
      cases next
      refine ⟨[], _, collects.ends (isEmpty_iff.mp empty), ?_⟩
      rw [append_nil]
      exact start
    next =>
      obtain ⟨_, last, request, next⟩ := step_bind_eq_ok.mp next
      obtain ⟨results, scored, consumed⟩ := rerankBatch_consumes scores request
      obtain ⟨others, source, yields, final⟩ := ih next (each _ _ _ _ _ start scored consumed)
      obtain ⟨new, whole, earlier⟩ := collects.yields
      rw [nil_append] at whole
      rw [(rerankBatch_eq_ok request).1] at yields
      refine ⟨new ++ others, source, earlier _ _ yields, ?_⟩
      rw [← append_assoc, ← whole]
      exact final

theorem rerankBatches_consumes
    {fuel : Nat} {state state' : Rerank ω τ γ χ κ} (start : holds [] state.consumed)
    (done : (rerankBatches backend query fetch transport consume fuel).step state =
      (.ok (some ()), state')) :
    ∃ descriptors source, (fetchAll fetch state.supply.candidates).step state.supply.source =
        (.ok descriptors, source) ∧ holds descriptors state'.consumed := by
  obtain ⟨_, started, time, done⟩ := step_bind_eq_ok.mp done
  cases time
  obtain ⟨_, done⟩ := step_require_bind_eq_ok.mp done
  obtain ⟨descriptors, source, ⟨rest, yields, same⟩, final⟩ :=
    rerankLoop_consumes holds scores each done start
  cases same
  exact ⟨rest, source, yields, final⟩

end

end

/-! ## What is visible -/

/-- The descriptors and the public IDs belong to the same candidates. -/
structure Visible.Aligned (visible : Visible) : Prop where
  keys : ∀ key, key ∈ visible.descriptors ↔ key ∈ visible.publicIds
  heapKey : ∀ key descriptor, visible.descriptors.lookup key = some descriptor →
    descriptor.heapKey = key

theorem heapKey_of_validateDescriptor {candidate : PageCandidate Distance} {tensorRef : String}
    {rows dimension : Int} {dtype checksum : String}
    {descriptor : ExternalTensorDescriptor HeapKey}
    (done : validateDescriptor candidate tensorRef rows dimension dtype checksum =
      .ok descriptor) : descriptor.heapKey = candidate.heapKey := by
  simp only [validateDescriptor] at done
  obtain ⟨_, done⟩ := guard_eq_ok.mp done
  obtain ⟨_, _, done⟩ := bind_eq_ok.mp done
  obtain ⟨_, _, done⟩ := bind_eq_ok.mp done
  obtain ⟨_, _, done⟩ := bind_eq_ok.mp done
  obtain ⟨_, done⟩ := guard_eq_ok.mp done
  cases done
  rfl

variable {candidates : Table Int (PageCandidate Distance)} {visible : Visible}

theorem Visible.Aligned.loadRow {after : Visible} {row : DescriptorRow} (aligned : visible.Aligned)
    (done : loadRow candidates visible row = .ok after) : after.Aligned := by
  obtain ⟨publicId, _, done⟩ := bind_eq_ok.mp done
  cases found : candidates.lookup publicId with
  | none =>
    rw [found] at done
    cases done
  | some candidate =>
    rw [found] at done
    obtain ⟨_, _, done⟩ := bind_eq_ok.mp done
    obtain ⟨_, _, done⟩ := bind_eq_ok.mp done
    obtain ⟨_, _, done⟩ := bind_eq_ok.mp done
    obtain ⟨_, _, done⟩ := bind_eq_ok.mp done
    obtain ⟨_, _, done⟩ := bind_eq_ok.mp done
    obtain ⟨descriptor, valid, done⟩ := bind_eq_ok.mp done
    obtain ⟨_, done⟩ := guard_eq_ok.mp done
    cases done
    constructor
    · intro key
      simp only [mem_insert, aligned.keys key]
    · intro key other known
      rcases Table.lookup_insert_iff.mp known with ⟨rfl, rfl⟩ | ⟨_, known⟩
      · exact heapKey_of_validateDescriptor valid
      · exact aligned.heapKey key other known

theorem Visible.Aligned.loadRows {rows : List DescriptorRow} {after : Visible}
    (aligned : visible.Aligned) (done : loadRows candidates rows visible = .ok after) :
    after.Aligned := by
  induction rows generalizing visible with
  | nil =>
    cases done
    exact aligned
  | cons row rows ih =>
    obtain ⟨middle, first, done⟩ := bind_eq_ok.mp done
    exact ih (aligned.loadRow first) done

theorem aligned_of_loadVisibleDescriptors {database : Database} {candidateIds : List Int}
    (done : loadVisibleDescriptors database candidateIds = .ok visible) : visible.Aligned := by
  obtain ⟨candidates, _, done⟩ := bind_eq_ok.mp done
  obtain ⟨rows, _, done⟩ := bind_eq_ok.mp done
  have empty : Visible.Aligned ⟨∅, ∅⟩ := by
    constructor
    · intro key
      exact Iff.rfl
    · intro key descriptor known
      cases known
  exact empty.loadRows done

/-- The source yields the descriptor of each of its candidates. -/
theorem fetchAll_materialized {keys : List HeapKey} (unique : keys.Nodup)
    (table : Table HeapKey (ExternalTensorDescriptor HeapKey)) (distance : Distance) :
    ∃ table', (fetchAll materialized (keys.map fun key => ⟨distance, key⟩)).step table =
      (.ok (keys.filterMap table.lookup), table') := by
  induction keys generalizing table with
  | nil => exact ⟨table, rfl⟩
  | cons key keys ih =>
    obtain ⟨new, unique⟩ := nodup_cons.mp unique
    obtain ⟨table', rest⟩ := ih unique (table.erase key)
    have same : keys.filterMap (table.erase key).lookup = keys.filterMap table.lookup := by
      apply filterMap_congr
      intro other member
      apply lookup_erase_ne
      intro equal
      rw [equal] at member
      exact new member
    have first : (materialized ⟨distance, key⟩).step table =
      (.ok (table.lookup key), table.erase key) := rfl
    refine ⟨table', ?_⟩
    rw [map_cons, fetchAll, step_bind_ok first, step_bind_ok rest, same, step_pure, filterMap_cons]
    cases table.lookup key <;> rfl

/-! ## The nearest rows -/

/-- The row of a descriptor, if its public ID is known. -/
def rowOf (publicIds : Table HeapKey Int)
    (similarity : ExternalTensorDescriptor HeapKey → BitVec 32)
    (descriptor : ExternalTensorDescriptor HeapKey) : Option Row :=
  (publicIds.lookup descriptor.heapKey).map fun publicId =>
    toLex (distanceOf similarity descriptor, publicId)

section

variable [Heap] {publicIds : Table HeapKey Int} {limit : Nat}

theorem consumeResults_eq_ok {results : List (Distance × HeapKey)} {best best' : List Row}
    (done : (consumeResults publicIds limit results).step best = (.ok (), best')) :
    best' = (results.filterMap fun result => (publicIds.lookup result.2).map fun publicId =>
      toLex (result.1, publicId)).foldl (retain limit) best := by
  induction results generalizing best with
  | nil =>
    cases done
    rfl
  | cons result results ih =>
    rw [consumeResults] at done
    cases found : publicIds.lookup result.2 with
    | none =>
      rw [found] at done
      cases done
    | some publicId =>
      rw [found] at done
      rw [ih done, filterMap_cons, found]
      rfl

/-- The callback keeps the nearest of all rows so far. -/
theorem consumeBatch_smallest {similarity : ExternalTensorDescriptor HeapKey → BitVec 32}
    {before batch : List (ExternalTensorDescriptor HeapKey)} {results : RerankResults HeapKey}
    {best best' : List Row}
    (smallest : Smallest limit best (before.filterMap (rowOf publicIds similarity)))
    (scored : results.inner.Perm (batch.map fun descriptor =>
      (distanceOf similarity descriptor, descriptor.heapKey)))
    (done : (consumeBatch publicIds limit results).step best = (.ok (), best')) :
    Smallest limit best' ((before ++ batch).filterMap (rowOf publicIds similarity)) := by
  have rows : ((Heap.drain nearestFirst results.inner).filterMap fun result =>
      (publicIds.lookup result.2).map fun publicId => toLex (result.1, publicId)).Perm
      (batch.filterMap (rowOf publicIds similarity)) := by
    have order := ((Heap.drain_perm nearestFirst results.inner).trans scored).filterMap
      fun result => (publicIds.lookup result.2).map fun publicId => toLex (result.1, publicId)
    rw [filterMap_map] at order
    exact order
  rw [consumeResults_eq_ok done, filterMap_append]
  apply (smallest.foldl_retain _).perm
  exact (rows.append_right _).trans perm_append_comm

end

/-- The rows of all visible candidates. -/
def Visible.rows (visible : Visible)
    (similarity : ExternalTensorDescriptor HeapKey → BitVec 32) : List Row :=
  (visible.publicIds.keys.filterMap visible.descriptors.lookup).filterMap
    (rowOf visible.publicIds similarity)

/-- The nearest visible candidates, the nearest one first and ties in the order of their
public IDs: public ID and similarity. -/
def Visible.nearest (visible : Visible)
    (similarity : ExternalTensorDescriptor HeapKey → BitVec 32) (count : Nat) :
    List (Int × BitVec 32) :=
  (((visible.rows similarity).insertionSort (· ≤ ·)).take count).map fun row =>
    ((ofLex row).2, negF32 (ofLex row).1.toF32)

/-- Every visible candidate has a row. -/
theorem Visible.Aligned.length_rows (aligned : visible.Aligned)
    (similarity : ExternalTensorDescriptor HeapKey → BitVec 32) :
    (visible.rows similarity).length = visible.publicIds.keys.length := by
  rw [Visible.rows, filterMap_filterMap]
  have each : ∀ key ∈ visible.publicIds.keys, ((visible.descriptors.lookup key).bind
      (rowOf visible.publicIds similarity)).isSome = true := by
    intro key member
    obtain ⟨publicId, found⟩ := Table.mem_iff_lookup.mp (mem_keys.mpr member)
    obtain ⟨descriptor, known⟩ :=
      Table.mem_iff_lookup.mp ((aligned.keys key).mpr (mem_keys.mpr member))
    rw [known, Option.bind_some, rowOf, aligned.heapKey key descriptor known, found]
    rfl
  exact filterMap_length_eq_length.mpr each

section

variable [Heap] {τ : Type} {transport : Transport τ}
    {similarity : ExternalTensorDescriptor HeapKey → BitVec 32}

/-- All batches together leave the nearest rows. -/
theorem rerankVisible_smallest {backend : GpuExternalTileMaxsimBackend} {query : List OwnedVector}
    {limit : Nat} {result : Option (List Row)} {session session' : Session τ}
    (done : (rerankVisible backend transport query visible limit).step session =
      (.ok result, session')) (scores : transport.Scores backend.modelContractId query similarity) :
    ∃ best, result = some best ∧ Smallest limit best (visible.rows similarity) := by
  obtain ⟨final, done, _⟩ := step_focus_eq_ok.mp done
  obtain ⟨ended, middle, batches, done⟩ := step_bind_eq_ok.mp done
  cases done
  cases ended with
  | none => exact absurd (congrArg Prod.fst batches) (rerankBatches_terminates (Nat.lt_succ_self _))
  | some ended =>
    obtain ⟨descriptors, source, yields, smallest⟩ := rerankBatches_consumes
      (fun before best => Smallest limit best
        (before.filterMap (rowOf visible.publicIds similarity))) scores
      (fun _ _ _ _ _ kept scored step => consumeBatch_smallest kept scored step)
      .nil batches
    have order := visible.publicIds.keys.perm_insertionSort (· ≤ ·)
    obtain ⟨source', all⟩ := fetchAll_materialized
      (order.symm.nodup visible.publicIds.nodupKeys) visible.descriptors (Distance.fromF32 0)
    cases all.symm.trans yields
    exact ⟨_, rfl, smallest.perm ((order.filterMap _).filterMap _)⟩

variable [Sorting]

omit [Heap] in
theorem outputRows_eq {limit : Nat} {best : List Row}
    (smallest : Smallest limit best (visible.rows similarity)) :
    outputRows limit best = visible.nearest similarity limit := by
  have order : Sorting.sort id best = best.insertionSort (· ≤ ·) :=
    List.Perm.eq_of_pairwise'
      (show (Sorting.sort id best).Pairwise (· ≤ ·) from Sorting.sort_sorted id best)
      (best.pairwise_insertionSort _)
      ((Sorting.sort_perm id best).trans (best.perm_insertionSort _).symm)
  rw [outputRows, Visible.nearest, order, smallest.insertionSort_eq, take_take, Nat.min_self]

/-- Rows do not depend on batches: whatever the limits of a batch are, a call that succeeds
returns the nearest visible candidates. -/
theorem executeRerank_batching (database : Database) (query : List OwnedVector)
    (candidateIds : List Int) (topK : Int)
    (similarity : ExternalTensorDescriptor HeapKey → BitVec 32) :
    ∃ rows : List (Int × BitVec 32), ∀ (modelContractId : String) (gucs : Gucs) (τ : Type)
      (transport : Transport τ) (session session' : Session τ)
      (result : Option (List (Int × BitVec 32))),
      database.binding = .ok modelContractId →
      transport.Scores modelContractId query similarity →
      (executeRerank database gucs transport query candidateIds topK).step session =
        (.ok result, session') →
      result = some rows ∧ ∃ visible, loadVisibleDescriptors database candidateIds = .ok visible ∧
        rows = visible.nearest similarity topK.toNat ∧
        rows.length = min topK.toNat visible.publicIds.keys.length := by
  cases loaded : loadVisibleDescriptors database candidateIds with
  | error failure =>
    -- then no call succeeds
    refine ⟨[], ?_⟩
    intro modelContractId gucs τ transport session session' result _ _ done
    obtain ⟨_, _, done⟩ := step_lift_bind_eq_ok.mp done
    obtain ⟨_, done⟩ := step_require_bind_eq_ok.mp done
    obtain ⟨_, _, done⟩ := step_lift_bind_eq_ok.mp done
    obtain ⟨visible, visibly, _⟩ := step_lift_bind_eq_ok.mp done
    cases loaded.symm.trans visibly
  | ok visible =>
    refine ⟨visible.nearest similarity topK.toNat, ?_⟩
    intro modelContractId gucs τ transport session session' result bound scores done
    obtain ⟨_, _, done⟩ := step_lift_bind_eq_ok.mp done
    obtain ⟨_, done⟩ := step_require_bind_eq_ok.mp done
    obtain ⟨contract, bound', done⟩ := step_lift_bind_eq_ok.mp done
    cases bound.symm.trans bound'
    obtain ⟨_, visibly, done⟩ := step_lift_bind_eq_ok.mp done
    cases loaded.symm.trans visibly
    obtain ⟨_, middle, reranked, done⟩ := step_bind_eq_ok.mp done
    obtain ⟨best, rfl, smallest⟩ := rerankVisible_smallest reranked scores
    cases done
    refine ⟨congrArg some (outputRows_eq smallest), visible, rfl, rfl, ?_⟩
    rw [Visible.nearest, length_map, length_take, length_insertionSort,
      (aligned_of_loadVisibleDescriptors loaded).length_rows]

end

/-- A daemon that answers every request with one result, and no similarity. -/
def zeroSidecar : Transport UInt64 where
  now state := (0, state)
  roundTrip _ _ _ := Fallible.act fun id => (success 2 id [(0, 0)], id + 1)

theorem zeroSidecar_scores (modelContractId : String) (query : List OwnedVector) :
    zeroSidecar.Scores modelContractId query
      (fun _ : ExternalTensorDescriptor HeapKey => (0 : BitVec 32)) := by
  intro requestId _ _ _ _ _ encoded _ _ outside _ sent _ answer result member _ _
  have same : success 2 outside [(0, 0)] = success (UInt16.ofNat encoded.version) requestId sent :=
    Except.ok.inj (Prod.mk.inj answer).1
  have bodies := (append_inj same (by
    rw [length_responseHeader, length_responseHeader])).2
  have length := congrArg length bodies
  rw [length_results, length_results, length_singleton] at length
  obtain ⟨only, rfl⟩ := length_eq_one_iff.mp (by omega : sent.length = 1)
  cases mem_singleton.mp member
  have results := (append_inj (append_inj bodies rfl).2 (by simp)).2
  rw [flatMap_singleton, flatMap_singleton] at results
  have bits := congrArg fromLe (append_inj results (by simp)).2
  rw [fromLe_le_of_lt (by decide), fromLe_le_of_lt result.2.isLt] at bits
  exact (BitVec.eq_of_toNat_eq bits).symm

/-- Two rows for the candidates 9 and 5. -/
def sampleDatabase : Database where
  binding := .ok "m"
  select _ := .ok ([9, 5].map fun publicId =>
    ⟨some publicId, some "t", some 1, some 1, some "float32", some ("sha256:" ++ sampleDigest.1)⟩)

def sampleGucs : Gucs := ⟨.gpu, 1, 2, 1000, none, 0⟩

/-- Each candidate is in a batch of its own, and the one that comes later wins the tie. -/
theorem executeRerank_batching_two :
    letI := Heap.selection
    letI := Sorting.insertion
    ∃ session' visible, (executeRerank sampleDatabase sampleGucs zeroSidecar sampleQuery [9, 5]
        1).step ⟨1, 1⟩ = (.ok (some [(5, 0)]), session') ∧
      loadVisibleDescriptors sampleDatabase [9, 5] = .ok visible ∧
      visible.nearest (fun _ => 0) 1 = [(5, 0)] := by
  let _ := Heap.selection
  let _ := Sorting.insertion
  have returned : ((executeRerank sampleDatabase sampleGucs zeroSidecar sampleQuery [9, 5]
      1).step ⟨1, 1⟩).1.toOption = some (some [(5, 0)]) := by decide +kernel
  rcases done : (executeRerank sampleDatabase sampleGucs zeroSidecar sampleQuery [9, 5]
      1).step ⟨1, 1⟩ with ⟨_ | result, session'⟩
  · rw [done] at returned
    cases returned
  · rw [done] at returned
    cases returned
    obtain ⟨rows, same⟩ := executeRerank_batching sampleDatabase sampleQuery [9, 5] 1 fun _ => 0
    obtain ⟨first, visible, loaded, nearest, _⟩ :=
      same "m" sampleGucs UInt64 zeroSidecar ⟨1, 1⟩ session' _ rfl (zeroSidecar_scores _ _) done
    cases first
    exact ⟨session', visible, rfl, loaded, nearest.symm⟩

end VectorChord.Maxsim
