import VectorChord.Maxsim.Acceptance

/-!
# Batches are complete and can be encoded

The collector foresees the length of every frame, so the encoder accepts what it has
collected; and it neither loses nor repeats a descriptor.
-/

namespace VectorChord.Maxsim

open Codec Collections Transition List Fallible Option

/-! ## What the collector keeps track of -/

section

variable {κ : Type} {backend : GpuExternalTileMaxsimBackend} {query : List OwnedVector}
    {dtype : TensorDtype} {dimension : Nat} {descriptors : List (ExternalTensorDescriptor κ)}

/-- The totals are those of the descriptors that were collected. -/
structure Tracks (backend : GpuExternalTileMaxsimBackend) (query : List OwnedVector)
    (dtype : TensorDtype) (dimension : Nat) (collected : Collected κ) : Prop where
  identity : validateIdentity backend.modelContractId backend.scheduling = .ok ()
  metadata : tensorMetadata query = .ok (dtype, dimension)
  rows : query.length < 2 ^ 32
  valid : ∀ descriptor ∈ collected.batch,
    validateExternalForRequest descriptor dimension dtype 4096 512 = .ok ()
  tokens : collected.totalTokens = query.length + totalRows collected.batch
  tokens_range : collected.totalTokens ≤ usizeMax
  declared : collected.declaredTensorBytes =
    declaredBytes dimension dtype (query.length + totalRows collected.batch)
  declared_range : collected.declaredTensorBytes ≤ usizeMax
  frame : collected.frameBytes = baseLength backend.modelContractId backend.scheduling
    (declaredBytes dimension dtype query.length) + (collected.batch.map descriptorLength).sum
  frame_range : collected.frameBytes ≤ usizeMax

theorem eq_of_externalRequestBaseBytes {modelContractId : String}
    {scheduling : Option TileMaxsimScheduling} {bytes size : Nat}
    (done : externalRequestBaseBytes modelContractId scheduling bytes = .ok size) :
    size = baseLength modelContractId scheduling bytes ∧ size ≤ usizeMax := by
  unfold externalRequestBaseBytes at done
  dsimp only at done
  split at done
  next => cases done
  next known =>
    cases done
    obtain ⟨middle, inner, outer⟩ := bind_eq_some_iff.mp known
    obtain ⟨first, contract, tenant⟩ := bind_eq_some_iff.mp inner
    have whole := eq_of_checkedAdd outer
    rw [(eq_of_checkedAdd tenant).1, (eq_of_checkedAdd contract).1] at whole
    exact whole

theorem tracks_base {base : Collected κ}
    (done : Collected.base backend query = .ok (dtype, dimension, base)) :
    Tracks backend query dtype dimension base ∧ base.batch = [] := by
  obtain ⟨_, identity, done⟩ := bind_eq_ok.mp done
  obtain ⟨⟨_, _⟩, metadata, done⟩ := bind_eq_ok.mp done
  obtain ⟨_, number, done⟩ := bind_eq_ok.mp done
  obtain ⟨_, size, done⟩ := bind_eq_ok.mp done
  obtain ⟨_, length, done⟩ := bind_eq_ok.mp done
  cases done
  obtain ⟨rows, rfl⟩ := tryU32_eq_ok.mp number
  obtain ⟨declaredRange, rfl⟩ := tensorBytes_eq_ok.mp size
  obtain ⟨rfl, frameRange⟩ := eq_of_externalRequestBaseBytes length
  refine ⟨⟨identity, metadata, rows, forall_mem_nil _, rfl, ?_, rfl, declaredRange, rfl,
    frameRange⟩, rfl⟩
  exact le_trans (le_of_lt rows) (by decide)

theorem Tracks.push {collected next : Collected κ} {descriptor : ExternalTensorDescriptor κ}
    (tracks : Tracks backend query dtype dimension collected)
    (done : collected.push dimension dtype descriptor = .ok next) :
    Tracks backend query dtype dimension next ∧ next.batch = collected.batch ++ [descriptor] := by
  obtain ⟨_, valid, done⟩ := bind_eq_ok.mp done
  obtain ⟨_, tokens, done⟩ := bind_eq_ok.mp done
  obtain ⟨_, bytes, done⟩ := bind_eq_ok.mp done
  obtain ⟨_, declared, done⟩ := bind_eq_ok.mp done
  obtain ⟨_, reference, done⟩ := bind_eq_ok.mp done
  obtain ⟨_, checksum, done⟩ := bind_eq_ok.mp done
  obtain ⟨_, frame, done⟩ := bind_eq_ok.mp done
  cases done
  obtain ⟨tokensRange, rfl⟩ := addOr_eq_ok.mp tokens
  obtain ⟨_, rfl⟩ := tensorBytes_eq_ok.mp bytes
  obtain ⟨declaredRange, rfl⟩ := addOr_eq_ok.mp declared
  obtain ⟨_, rfl⟩ := addOr_eq_ok.mp reference
  obtain ⟨_, rfl⟩ := addOr_eq_ok.mp checksum
  obtain ⟨frameRange, rfl⟩ := addOr_eq_ok.mp frame
  have rows : totalRows (collected.batch ++ [descriptor]) =
      totalRows collected.batch + descriptor.rows := by
    simp [totalRows]
  constructor
  · constructor
    · exact tracks.identity
    · exact tracks.metadata
    · exact tracks.rows
    · intro other member
      rcases mem_append.mp member with earlier | new
      · exact tracks.valid other earlier
      · rw [mem_singleton.mp new]
        exact valid
    · rw [rows, tracks.tokens, add_assoc]
    · exact tokensRange
    · rw [rows, tracks.declared, ← declaredBytes_add, add_assoc]
    · exact declaredRange
    · rw [tracks.frame, map_append, sum_append, add_assoc]
      simp [descriptorLength]
    · exact frameRange
  · rfl

/-- A batch within the limits can be encoded. -/
theorem Tracks.encodable {collected : Collected κ}
    (tracks : Tracks backend query dtype dimension collected)
    (within : ¬ collected.exceeds backend) (count : collected.batch.length ≤ 65536) :
    Encodable backend query dtype dimension collected.batch := by
  rw [Collected.exceeds, not_or, not_or, not_lt, not_lt, not_lt] at within
  have tokens := tracks.tokens
  have range := tracks.tokens_range
  constructor
  · exact tracks.identity
  · exact tracks.metadata
  · exact tracks.rows
  · exact count
  · exact tracks.valid
  · rw [← tracks.declared, ← tracks.tokens]
    exact ⟨within.1, tracks.tokens_range, within.2.1, tracks.declared_range⟩
  · rw [← tracks.frame]
    exact ⟨by omega, by omega, within.2.2, tracks.frame_range⟩

end

/-! ## What the source yields -/

section

variable {χ κ ω : Type} {fetch : Fetch ω χ κ} {descriptor : ExternalTensorDescriptor κ}
  {supply supply' : Supply ω χ κ} {backend : GpuExternalTileMaxsimBackend}
  {query : List OwnedVector} {dtype : TensorDtype} {dimension : Nat}

/-- All descriptors that the source has for some candidates. -/
def fetchAll (fetch : Fetch ω χ κ) :
    List χ → Fallible RerankError ω (List (ExternalTensorDescriptor κ))
  | [] => pure []
  | candidate :: candidates => do
    let found ← fetch candidate
    let rest ← fetchAll fetch candidates
    pure (found.toList ++ rest)

/-- The supply yields these descriptors and leaves the source in this state. -/
def Supply.Yields (fetch : Fetch ω χ κ) (supply : Supply ω χ κ)
    (descriptors : List (ExternalTensorDescriptor κ)) (source : ω) : Prop :=
  ∃ rest, (fetchAll fetch supply.candidates).step supply.source = (.ok rest, source) ∧
    descriptors = supply.pending.toList ++ rest

/-- A bound on what the supply yields. -/
def Supply.size (supply : Supply ω χ κ) : Nat :=
  supply.candidates.length + supply.pending.toList.length

theorem fetchFirst_none {candidates rest : List χ} {source source' : ω}
    (done : (fetchFirst fetch candidates).step source = (.ok (none, rest), source')) :
    (fetchAll fetch candidates).step source = (.ok [], source') ∧ rest = [] := by
  induction candidates generalizing source with
  | nil =>
    cases done
    exact ⟨rfl, rfl⟩
  | cons candidate candidates ih =>
    obtain ⟨found, middle, first, next⟩ := step_bind_eq_ok.mp done
    cases found with
    | some descriptor => cases next
    | none =>
      have last := ih next
      rw [fetchAll, step_bind_ok first, step_bind_ok last.1]
      exact ⟨rfl, last.2⟩

theorem fetchFirst_some {candidates rest : List χ} {source source' : ω}
    (done : (fetchFirst fetch candidates).step source = (.ok (some descriptor, rest), source')) :
    rest.length < candidates.length ∧ ∀ others source'',
      (fetchAll fetch rest).step source' = (.ok others, source'') →
        (fetchAll fetch candidates).step source = (.ok (descriptor :: others), source'') := by
  induction candidates generalizing source with
  | nil => cases done
  | cons candidate candidates ih =>
    obtain ⟨found, middle, first, next⟩ := step_bind_eq_ok.mp done
    cases found with
    | some descriptor =>
      cases next
      refine ⟨Nat.lt_succ_self _, fun others source'' more => ?_⟩
      rw [fetchAll, step_bind_ok first, step_bind_ok more]
      rfl
    | none =>
      refine ⟨Nat.lt_succ_of_lt (ih next).1, fun others source'' more => ?_⟩
      rw [fetchAll, step_bind_ok first, step_bind_ok ((ih next).2 others source'' more)]
      rfl

/-- The next descriptor is the first one that the supply yields. -/
theorem nextDescriptor_some
    (done : (nextDescriptor fetch).step supply = (.ok (some descriptor), supply')) :
    supply'.pending = none ∧ supply'.size < supply.size ∧
      ∀ descriptors source, supply'.Yields fetch descriptors source →
        supply.Yields fetch (descriptor :: descriptors) source := by
  rw [nextDescriptor, step_bind_get] at done
  cases carried : supply.pending with
  | some pending =>
    rw [carried] at done
    cases done
    refine ⟨rfl, ?_, ?_⟩
    · simp [Supply.size, carried]
    · rintro descriptors source ⟨rest, yields, same⟩
      exact ⟨rest, yields, by rw [carried, same]; rfl⟩
  | none =>
    rw [carried] at done
    obtain ⟨⟨found, candidates⟩, middle, first, next⟩ := step_bind_eq_ok.mp done
    obtain ⟨source', fetched, rfl⟩ := step_focus_eq_ok.mp first
    cases next
    obtain ⟨shorter, found⟩ := fetchFirst_some fetched
    refine ⟨carried, ?_, ?_⟩
    · simp only [Supply.size, carried]
      exact Nat.add_lt_add_right shorter _
    · rintro descriptors source ⟨rest, yields, same⟩
      refine ⟨descriptor :: rest, found _ _ yields, ?_⟩
      rw [same, carried]
      rfl

theorem nextDescriptor_none (done : (nextDescriptor fetch).step supply = (.ok none, supply')) :
    supply'.candidates = [] ∧ supply'.pending = none ∧
      supply.Yields fetch [] supply'.source := by
  rw [nextDescriptor, step_bind_get] at done
  cases carried : supply.pending with
  | some pending =>
    rw [carried] at done
    cases done
  | none =>
    rw [carried] at done
    obtain ⟨⟨found, candidates⟩, middle, first, next⟩ := step_bind_eq_ok.mp done
    obtain ⟨source', fetched, rfl⟩ := step_focus_eq_ok.mp first
    cases next
    have nothing := fetchFirst_none fetched
    exact ⟨nothing.2, carried, [], nothing.1, by rw [carried]; rfl⟩

/-! ## Batches -/

/-- What a call has collected: the descriptors are taken from the supply in order, and only an
empty supply gives an empty batch. -/
structure Collects (fetch : Fetch ω χ κ) (supply supply' : Supply ω χ κ)
    (before after : List (ExternalTensorDescriptor κ)) : Prop where
  shrinks : supply'.size + after.length ≤ supply.size + before.length
  yields : ∃ new, after = before ++ new ∧ ∀ descriptors source,
    supply'.Yields fetch descriptors source → supply.Yields fetch (new ++ descriptors) source
  ends : after = [] → supply.Yields fetch [] supply'.source

theorem collectDescriptors_spec {room : Nat} {collected after : Collected κ}
    (tracks : Tracks backend query dtype dimension collected) (within : ¬ collected.exceeds backend)
    (positive : 0 < room) (count : collected.batch.length + room = 65536)
    (done : (collectDescriptors backend dimension dtype fetch room collected).step supply =
      (.ok after, supply')) :
    Tracks backend query dtype dimension after ∧ ¬ after.exceeds backend ∧
      after.batch.length ≤ 65536 ∧
      Collects fetch supply supply' collected.batch after.batch := by
  induction room generalizing collected supply with
  | zero => exact absurd positive (lt_irrefl 0)
  | succ room ih =>
    obtain ⟨found, middle, first, next⟩ := step_bind_eq_ok.mp done
    cases found with
    | none =>
      cases next
      obtain ⟨empty, none, yields⟩ := nextDescriptor_none first
      refine ⟨tracks, within, by omega, ?_, ⟨[], (append_nil _).symm, ?_⟩, ?_⟩
      · have size : supply'.size = 0 := by simp [Supply.size, empty, none]
        omega
      · rintro descriptors source ⟨rest, all, same⟩
        rw [empty] at all
        rw [none] at same
        cases all
        rw [same]
        exact yields
      · exact fun _ => yields
    | some descriptor =>
      obtain ⟨pending, smaller, yields⟩ := nextDescriptor_some first
      obtain ⟨more, pushed, next⟩ := step_lift_bind_eq_ok.mp next
      obtain ⟨tracks', batch⟩ := tracks.push pushed
      have longer : more.batch.length = collected.batch.length + 1 := by
        rw [batch, length_append]
        rfl
      split at next
      next =>
        split at next
        next => cases next
        next nonempty =>
          -- the descriptor is carried over
          cases next
          refine ⟨tracks, within, by omega, ?_, ⟨[], (append_nil _).symm, ?_⟩, ?_⟩
          · simp only [Supply.size, pending] at smaller ⊢
            simp at smaller ⊢
            omega
          · rintro descriptors source ⟨rest, all, rfl⟩
            exact yields _ _ ⟨rest, all, by rw [pending]; rfl⟩
          · intro empty
            rw [empty] at nonempty
            exact absurd rfl nonempty
      next fits =>
        cases room with
        | zero =>
          cases next
          refine ⟨tracks', fits, by omega, by omega, ⟨[descriptor], batch, ?_⟩, ?_⟩
          · exact yields
          · intro empty
            rw [empty] at batch
            simp at batch
        | succ room =>
          obtain ⟨tracks'', fits', count', collects⟩ :=
            ih tracks' fits (Nat.succ_pos room) (by omega) next
          obtain ⟨new, whole, yields'⟩ := collects.yields
          refine ⟨tracks'', fits', count', ?_, ⟨descriptor :: new, ?_, ?_⟩, ?_⟩
          · have shrinks := collects.shrinks
            omega
          · rw [whole, batch, append_assoc]
            rfl
          · intro descriptors source all
            exact yields _ _ (yields' _ _ all)
          · intro empty
            rw [empty, batch] at whole
            simp at whole

/-- The batch fits into a request, and the length of the frame was foreseen. -/
def Foreseen (backend : GpuExternalTileMaxsimBackend) (query : List OwnedVector)
    (collected : Collected κ) : Prop :=
  ∃ dtype dimension, Encodable backend query dtype dimension collected.batch ∧
    collected.frameBytes = baseLength backend.modelContractId backend.scheduling
      (declaredBytes dimension dtype query.length) + (collected.batch.map descriptorLength).sum

theorem collectExternalBatch_spec {after : Collected κ}
    (done : (collectExternalBatch backend query fetch).step supply = (.ok after, supply')) :
    Foreseen backend query after ∧ Collects fetch supply supply' [] after.batch := by
  obtain ⟨⟨dtype, dimension, base⟩, known, done⟩ := step_lift_bind_eq_ok.mp done
  obtain ⟨within, done⟩ := step_require_bind_eq_ok.mp done
  obtain ⟨tracks, empty⟩ := tracks_base known
  obtain ⟨tracks', within', count, collects⟩ := collectDescriptors_spec tracks within
    (Nat.succ_pos 65535) (by rw [empty, length_nil, zero_add]) done
  rw [empty] at collects
  exact ⟨⟨dtype, dimension, tracks'.encodable within' count, tracks'.frame⟩, collects⟩

/-- Successive calls up to the first empty batch; `none` if the fuel has run out. -/
def collectBatches (backend : GpuExternalTileMaxsimBackend) (query : List OwnedVector)
    (fetch : Fetch ω χ κ) :
    (fuel : Nat) → Fallible RerankError (Supply ω χ κ) (Option (List (Collected κ)))
  | 0 => pure none
  | fuel + 1 => do
    let collected ← collectExternalBatch backend query fetch
    if collected.batch.isEmpty then pure (some [])
    else do
      let rest ← collectBatches backend query fetch fuel
      pure (rest.map (collected :: ·))

theorem Collects.nonempty_shrinks {batch : List (ExternalTensorDescriptor κ)}
    (collects : Collects fetch supply supply' [] batch) (nonempty : ¬ batch.isEmpty) :
    supply'.size < supply.size := by
  have shrinks := collects.shrinks
  have positive : 0 < batch.length := by
    apply length_pos_iff.mpr
    intro empty
    rw [empty] at nonempty
    exact nonempty rfl
  rw [length_nil] at shrinks
  omega

variable {fuel : Nat} {τ γ : Type} {transport : Transport τ}
  {consume : RerankResults κ → Fallible RerankError γ Unit} {deadline : Nat}
  {state : Rerank ω τ γ χ κ}

theorem collectBatches_spec {batches : List (Collected κ)}
    (done : (collectBatches backend query fetch fuel).step supply = (.ok (some batches), supply')) :
    (∀ collected ∈ batches, collected.batch ≠ [] ∧ Foreseen backend query collected) ∧
      supply.Yields fetch (batches.flatMap Collected.batch) supply'.source := by
  induction fuel generalizing supply batches with
  | zero => cases done
  | succ fuel ih =>
    obtain ⟨collected, middle, first, next⟩ := step_bind_eq_ok.mp done
    obtain ⟨encodable, collects⟩ := collectExternalBatch_spec first
    split at next
    next empty =>
      cases next
      exact ⟨forall_mem_nil _, collects.ends (isEmpty_iff.mp empty)⟩
    next nonempty =>
      obtain ⟨rest, last, second, next⟩ := step_bind_eq_ok.mp next
      cases rest with
      | none => cases next
      | some rest =>
        cases next
        obtain ⟨others, yields⟩ := ih second
        obtain ⟨new, whole, before⟩ := collects.yields
        constructor
        · rw [forall_mem_cons]
          refine ⟨⟨?_, encodable⟩, others⟩
          intro empty
          rw [empty] at nonempty
          exact nonempty rfl
        · rw [flatMap_cons, whole]
          exact before _ _ yields

theorem collectBatches_terminates (enough : supply.size < fuel) :
    ((collectBatches backend query fetch fuel).step supply).1 ≠ .ok none := by
  induction fuel generalizing supply with
  | zero => exact absurd enough (Nat.not_lt_zero _)
  | succ fuel ih =>
    intro exhausted
    have done : (collectBatches backend query fetch (fuel + 1)).step supply = (.ok none, _) :=
      Prod.ext exhausted rfl
    obtain ⟨collected, middle, first, next⟩ := step_bind_eq_ok.mp done
    obtain ⟨_, collects⟩ := collectExternalBatch_spec first
    split at next
    next => cases next
    next nonempty =>
      have smaller := collects.nonempty_shrinks nonempty
      obtain ⟨rest, last, second, next⟩ := step_bind_eq_ok.mp next
      cases rest with
      | some rest => cases next
      | none => exact ih (by omega) (congrArg Prod.fst second)

variable {state' : Rerank ω τ γ χ κ}

theorem remainingLogicalTimeout_eq_ok {remaining : Nat}
    (done : (remainingLogicalTimeout transport deadline).step state = (.ok remaining, state')) :
    ∃ outside, state' = { state with transport := outside } := by
  obtain ⟨_, middle, time, done⟩ := step_bind_eq_ok.mp done
  cases time
  obtain ⟨_, done⟩ := step_require_bind_eq_ok.mp done
  cases done
  exact ⟨_, rfl⟩

/-- A request is encoded, sent and answered, and its results go to the callback; it leaves
the supply alone. -/
theorem rerankBatch_eq_ok {descriptors : List (ExternalTensorDescriptor κ)}
    (done : (rerankBatch backend query transport consume deadline descriptors).step state =
      (.ok (), state')) :
    state'.supply = state.supply ∧
    ∃ requestId timeoutMillis encoded timeout maxResponseBytes outside response outside' results,
      encodeExternalDescriptors requestId backend.modelContractId query descriptors
        backend.maxBatchTokens backend.maxBatchBytes backend.scheduling timeoutMillis =
          .ok encoded ∧
      (transport.roundTrip encoded.frame timeout maxResponseBytes).step outside =
        (.ok response, outside') ∧
      decodeResponseForVersion response (UInt16.ofNat encoded.version) requestId
        encoded.heapKeys = .ok results ∧
      (consume results).step state.consumed = (.ok (), state'.consumed) := by
  obtain ⟨_, _, time, done⟩ := step_bind_eq_ok.mp done
  obtain ⟨_, rfl⟩ := remainingLogicalTimeout_eq_ok time
  obtain ⟨_, _, number, done⟩ := step_bind_eq_ok.mp done
  cases number
  obtain ⟨_, encode, done⟩ := step_lift_bind_eq_ok.mp done
  obtain ⟨_, _, done⟩ := step_lift_bind_eq_ok.mp done
  obtain ⟨_, _, time', done⟩ := step_bind_eq_ok.mp done
  obtain ⟨_, rfl⟩ := remainingLogicalTimeout_eq_ok time'
  obtain ⟨_, _, sent, done⟩ := step_bind_eq_ok.mp done
  obtain ⟨_, answer, rfl⟩ := step_focus_eq_ok.mp sent
  obtain ⟨_, decode, done⟩ := step_lift_bind_eq_ok.mp done
  obtain ⟨_, step, rfl⟩ := step_focus_eq_ok.mp done
  exact ⟨rfl, _, _, _, _, _, _, _, _, _, encode, answer, decode, step⟩

theorem rerankLoop_terminates (enough : state.supply.size < fuel) :
    ((rerankLoop backend query fetch transport consume deadline fuel).step state).1 ≠
      .ok none := by
  induction fuel generalizing state with
  | zero => exact absurd enough (Nat.not_lt_zero _)
  | succ fuel ih =>
    intro exhausted
    have done : (rerankLoop backend query fetch transport consume deadline (fuel + 1)).step state =
      (.ok none, _) := Prod.ext exhausted rfl
    obtain ⟨collected, middle, first, next⟩ := step_bind_eq_ok.mp done
    obtain ⟨supply, part, rfl⟩ := step_focus_eq_ok.mp first
    obtain ⟨_, collects⟩ := collectExternalBatch_spec part
    split at next
    next => cases next
    next nonempty =>
      have smaller := collects.nonempty_shrinks nonempty
      obtain ⟨_, last, sent, next⟩ := step_bind_eq_ok.mp next
      have same := (rerankBatch_eq_ok sent).1
      apply ih _ (congrArg Prod.fst next)
      rw [same]
      dsimp only
      omega

theorem rerankBatches_terminates (enough : state.supply.candidates.length < fuel) :
    ((rerankBatches backend query fetch transport consume fuel).step state).1 ≠ .ok none := by
  intro exhausted
  have done : (rerankBatches backend query fetch transport consume fuel).step state =
    (.ok none, _) := Prod.ext exhausted rfl
  obtain ⟨_, middle, time, done⟩ := step_bind_eq_ok.mp done
  cases time
  obtain ⟨_, done⟩ := step_require_bind_eq_ok.mp done
  apply rerankLoop_terminates _ (congrArg Prod.fst done)
  simpa [Supply.size] using enough

/-- Batching is complete: if no call fails, the batches are not empty and are together what
the source yields, in order; the encoder accepts each of them under the same limits, in a
frame of the length that was kept track of; and the successive calls, like the loop of
`rerank_batches`, come to an end. -/
theorem collectBatches_complete (backend : GpuExternalTileMaxsimBackend)
    (query : List OwnedVector) (fetch : Fetch ω χ κ) (candidates : List χ) (source : ω) :
    (∀ fuel batches supply', (collectBatches backend query fetch fuel).step
        ⟨candidates, source, none⟩ = (.ok (some batches), supply') →
      (∀ collected ∈ batches, collected.batch ≠ []) ∧
      (fetchAll fetch candidates).step source =
        (.ok (batches.flatMap Collected.batch), supply'.source) ∧
      ∀ collected ∈ batches, ∀ requestId timeoutMillis, ∃ encoded,
        encodeExternalDescriptors requestId backend.modelContractId query collected.batch
          backend.maxBatchTokens backend.maxBatchBytes backend.scheduling timeoutMillis =
            .ok encoded ∧
        encoded.frame.length = collected.frameBytes) ∧
    (∀ fuel, candidates.length < fuel →
      ((collectBatches backend query fetch fuel).step ⟨candidates, source, none⟩).1 ≠ .ok none) ∧
    ∀ (τ γ : Type) (transport : Transport τ)
      (consume : RerankResults κ → Fallible RerankError γ Unit) (state : Rerank ω τ γ χ κ)
      (fuel : Nat), state.supply.candidates.length < fuel →
      ((rerankBatches backend query fetch transport consume fuel).step state).1 ≠ .ok none := by
  refine ⟨?_, ?_, ?_⟩
  · intro fuel batches supply' done
    obtain ⟨each, rest, all, same⟩ := collectBatches_spec done
    refine ⟨fun collected member => (each collected member).1, ?_, ?_⟩
    · rw [same]
      exact all
    · intro collected member requestId timeoutMillis
      obtain ⟨_, dtype, dimension, encodable, foreseen⟩ := each collected member
      rw [foreseen]
      exact encodable.encode requestId timeoutMillis
  · intro fuel enough
    apply collectBatches_terminates
    simpa [Supply.size] using enough
  · intro τ γ transport consume state fuel enough
    exact rerankBatches_terminates enough

end

/-- A backend with room for three tokens, and a source without a descriptor for candidate
0. -/
def sampleBackend : GpuExternalTileMaxsimBackend := ⟨"m", 1, 3, 1000, none⟩

def sampleFetch : Fetch Unit Nat Nat := fun candidate =>
  pure (if candidate = 0 then none else some sampleDescriptor)

theorem collectBatches_sampleFetch :
    ∃ batches supply', (collectBatches sampleBackend sampleQuery sampleFetch 4).step
        ⟨[1, 0, 2], (), none⟩ = (.ok (some batches), supply') ∧
      batches.flatMap Collected.batch = [sampleDescriptor, sampleDescriptor] ∧
      ∀ collected ∈ batches, ∀ requestId timeoutMillis, ∃ encoded,
        encodeExternalDescriptors requestId "m" sampleQuery collected.batch 3 1000 none
          timeoutMillis = .ok encoded ∧ encoded.frame.length = collected.frameBytes := by
  have succeeds : (((collectBatches sampleBackend sampleQuery sampleFetch 4).step
      ⟨[1, 0, 2], (), none⟩).1.toOption.join).isSome = true := by decide +kernel
  have complete := collectBatches_complete sampleBackend sampleQuery sampleFetch [1, 0, 2] ()
  rcases done : (collectBatches sampleBackend sampleQuery sampleFetch 4).step
      ⟨[1, 0, 2], (), none⟩ with ⟨_ | (_ | batches), supply'⟩
  · rw [done] at succeeds
    cases succeeds
  · exact absurd (congrArg Prod.fst done) (complete.2.1 4 (by decide))
  · obtain ⟨_, all, encodes⟩ := complete.1 4 batches supply' done
    have batch := Except.ok.inj (Prod.mk.inj all).1
    exact ⟨batches, supply', rfl, batch.symm, encodes⟩

end VectorChord.Maxsim
