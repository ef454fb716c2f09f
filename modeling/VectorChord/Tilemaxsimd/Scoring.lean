import VectorChord.Tilemaxsimd.Rounds

/-!
# Scores

Each score that a round writes is that of the tensor of its candidate.  Round after round
the missing tensors are scored, and with the duplicates every candidate is.
-/

namespace VectorChord.Tilemaxsimd

open Collections Transition List Fallible

variable {n : Nat} {ρ σ : Type}

/-! ## Lists of scores -/

section

variable {value : Descriptor → σ} {candidates : List Descriptor} {scores scores' : List (Option σ)}

/-- The candidate has a score. -/
def Scored (scores : List (Option σ)) (index : Nat) : Prop :=
  ∃ score, scores[index]? = some (some score)

/-- Every score is that of its candidate. -/
structure Sound (value : Descriptor → σ) (candidates : List Descriptor)
    (scores : List (Option σ)) : Prop where
  length : scores.length = candidates.length
  values : ∀ (index : Nat) (score : σ), scores[index]? = some (some score) →
    ∃ candidate, candidates[index]? = some candidate ∧ score = value candidate

theorem Sound.replicate (value : Descriptor → σ) (candidates : List Descriptor) :
    Sound value candidates (List.replicate candidates.length none) where
  length := length_replicate
  values index score known := by
    rw [getElem?_replicate] at known
    split at known <;> cases known

variable {candidate : Descriptor}

/-- The score of a candidate is written. -/
theorem Sound.set (sound : Sound value candidates scores) {index : Nat}
    (known : candidates[index]? = some candidate) :
    Sound value candidates (scores.set index (some (value candidate))) where
  length := by rw [length_set, sound.length]
  values other score found := by
    rw [getElem?_set] at found
    split at found
    next here =>
      split at found
      next =>
        cases found
        exact ⟨candidate, here ▸ known, rfl⟩
      next => cases found
    next => exact sound.values other score found

theorem scored_set (sound : Sound value candidates scores) {index : Nat}
    (known : candidates[index]? = some candidate) (score : σ) :
    Scored (scores.set index (some score)) index := by
  have inside : index < scores.length := by
    rw [sound.length]
    exact (List.getElem?_eq_some_iff.mp known).1
  exact ⟨score, List.getElem?_set_self inside⟩

theorem Scored.set {index other : Nat} (scored : Scored scores other) (score : σ) :
    Scored (scores.set index (some score)) other := by
  rcases scored with ⟨old, known⟩
  have inside := (List.getElem?_eq_some_iff.mp known).1
  by_cases here : index = other
  · rw [here]
    exact ⟨score, List.getElem?_set_self inside⟩
  · exact ⟨old, (getElem?_set_ne here).trans known⟩

/-- Scores were added, also for the candidates of a list. -/
structure Adds (value : Descriptor → σ) (candidates : List Descriptor)
    (scores scores' : List (Option σ)) (indices : List Nat) : Prop where
  sound : Sound value candidates scores'
  kept : ∀ index, Scored scores index → Scored scores' index
  added : ∀ index ∈ indices, Scored scores' index

theorem Adds.nil (sound : Sound value candidates scores) : Adds value candidates scores scores [] :=
  ⟨sound, fun _ scored => scored, fun _ member => (by cases member)⟩

theorem Adds.append {last : List (Option σ)} {indices indices' : List Nat}
    (first : Adds value candidates scores scores' indices)
    (second : Adds value candidates scores' last indices') :
    Adds value candidates scores last (indices ++ indices') where
  sound := second.sound
  kept index scored := second.kept index (first.kept index scored)
  added index member := by
    rcases mem_append.mp member with before | behind
    · exact second.kept index (first.added index before)
    · exact second.added index behind

/-- The loop that writes scores. -/
theorem Adds.foldl (sound : Sound value candidates scores) {written : List (Nat × σ)}
    (right : ∀ scored ∈ written, ∃ candidate, candidates[scored.1]? = some candidate ∧
      scored.2 = value candidate) :
    Adds value candidates scores
      (written.foldl (fun scores scored => scores.set scored.1 (some scored.2)) scores)
      (written.map Prod.fst) := by
  induction written generalizing scores with
  | nil => exact .nil sound
  | cons first written ih =>
    rcases right first mem_cons_self with ⟨candidate, known, score⟩
    have one : Adds value candidates scores (scores.set first.1 (some first.2)) [first.1] := by
      constructor
      · rw [score]
        exact sound.set known
      · exact fun index scored => scored.set first.2
      · intro index member
        rw [mem_singleton.mp member]
        exact scored_set sound known first.2
    exact one.append (ih one.sound fun scored member => right scored (mem_cons_of_mem _ member))

end

/-- The score of a candidate: what the kernel computes from the query and its tensor. -/
def Request.value (request : Request) (kernel : Kernel σ) (store : ShardStore)
    (candidate : Descriptor) : σ :=
  kernel request.query request.queryRows request.dimension request.dtype candidate.rows
    (store.payload candidate)

theorem SameTensor.value {left right : Descriptor} (same : SameTensor left right)
    (request : Request) (kernel : Kernel σ) (store : ShardStore) :
    request.value kernel store left = request.value kernel store right := by
  rw [Request.value, Request.value, same.rows, same.payload]

namespace Engine

/-! ## Rounds -/

variable {store : ShardStore} {engine : Engine n ρ} {request : Request} {kernel : Kernel σ}
  {chunks : Fin n → List (ResidentTensor n)} {ready : ResidentTensor n → Prop}
  {scores : List (Option σ)} {environment : Environment n} {filling : Filling n}
  {taken : List MissingTensor}

/-- The tensor is that of its candidate. -/
def Represents (request : Request) (tensor : ResidentTensor n) : Prop :=
  ∃ candidate, request.candidates[tensor.candidateIndex]? = some candidate ∧
    cacheKey candidate = tensor.key

/-- A kernel sees the bytes of the tensor of the candidate. -/
theorem Holds.document_eq {held : List (ResidentTensor n)} (ok : Holds store engine held ready)
    {tensor : ResidentTensor n} (member : tensor ∈ held) (isReady : ready tensor)
    {candidate : Descriptor} (known : candidate ∈ request.candidates)
    (key : cacheKey candidate = tensor.key) :
    tensor.rows = candidate.rows ∧
      engine.document request tensor.device tensor = store.payload candidate := by
  have holding := ok.holding tensor.device
  rcases holding.present tensor ⟨member, rfl⟩ with ⟨entry, found, holds⟩
  rcases holding.described tensor.key entry found with ⟨descriptor, key', describes⟩
  have describes' := describes.sameTensor (cacheKey_inj (key'.trans key.symm))
  have rows : tensor.rows = candidate.rows := holds.rows.symm.trans describes'.rows
  have length : tensor.rows * request.dimension * scalarBytes request.dtype =
      (store.payload candidate).length := by
    rcases request.uniform candidate known with ⟨dimension, dtype⟩
    rw [(shardTensorBytes_eq_ok describes'.fits).1, rows, dimension, dtype]
  have loaded := holding.loaded tensor.key entry found (holds.ready.mpr isReady)
  rw [LoadedAt, ← key, ShardStore.bytes_cacheKey, holds.offset] at loaded
  constructor
  · exact rows
  · rw [document, length]
    exact loaded

section

variable (ok : Holds store engine (flat chunks) ready)
  (allReady : ∀ tensor ∈ flat chunks, ready tensor)
  (tagged : ∀ device, ∀ tensor ∈ chunks device, tensor.device = device)
  (represents : ∀ tensor ∈ flat chunks, Represents request tensor)
  (sound : Sound (request.value kernel store) request.candidates scores)
  (failures : Fin n → Option String)

include ok allReady tagged represents sound

/-- What `score_devices` returns. -/
theorem Holds.scoreDevices_spec :
    match engine.scoreDevices kernel failures request chunks scores with
    | .error error => ∃ device, failures device = some error
    | .ok scores' => Adds (request.value kernel store) request.candidates scores scores'
        ((flat chunks).map ResidentTensor.candidateIndex) := by
  unfold scoreDevices
  cases workers : (finRange n).mapM (engine.scoreDevice kernel failures request chunks) with
  | error error =>
    rcases mapM_eq_error workers with ⟨device, _, failed⟩
    unfold scoreDevice at failed
    split at failed
    next => cases failed
    next =>
      split at failed
      next known =>
        cases failed
        exact ⟨device, known⟩
      next => cases failed
  | ok completed =>
    -- The scores are those of all tensors, device by device.
    have all : completed.flatten = (flat chunks).map fun tensor =>
        (tensor.candidateIndex,
          kernel request.query request.queryRows request.dimension request.dtype tensor.rows
            (engine.document request tensor.device tensor)) := by
      have each : ∀ device scored, engine.scoreDevice kernel failures request chunks device =
          .ok scored → scored = (chunks device).map fun tensor =>
            (tensor.candidateIndex,
              kernel request.query request.queryRows request.dimension request.dtype
                tensor.rows (engine.document request tensor.device tensor)) := by
        intro device scored done
        unfold scoreDevice at done
        split at done
        next none =>
          cases done
          rw [isEmpty_iff.mp none, map_nil]
        next =>
          split at done
          next => cases done
          next =>
            cases done
            apply map_congr_left
            intro tensor member
            rw [tagged device tensor member]
      rw [eq_map_of_mapM_eq_ok each workers, flat, map_flatMap, flatMap_def]
    have right : ∀ scored ∈ completed.flatten, ∃ candidate,
        request.candidates[scored.1]? = some candidate ∧
          scored.2 = request.value kernel store candidate := by
      intro scored member
      rw [all] at member
      rcases mem_map.mp member with ⟨tensor, isHeld, rfl⟩
      rcases represents tensor isHeld with ⟨candidate, known, key⟩
      rcases ok.document_eq isHeld (allReady tensor isHeld) (mem_of_getElem? known) key with
        ⟨rows, document⟩
      refine ⟨candidate, known, ?_⟩
      rw [document, rows]
      rfl
    have adds := Adds.foldl sound right
    have indices : completed.flatten.map Prod.fst =
        (flat chunks).map ResidentTensor.candidateIndex := by
      rw [all, map_map]
      rfl
    rw [indices] at adds
    exact adds

/-- A round that has its tensors scores them and gives them up. -/
theorem Holds.wp_scoreChunks [Priority ρ] :
    Fallible.wp (scoreChunks kernel failures request chunks scores)
      (fun scores' engine' => Holds store engine' [] ready ∧
        Adds (request.value kernel store) request.candidates scores scores'
          ((flat chunks).map ResidentTensor.candidateIndex))
      (fun error engine' => Holds store engine' [] ready ∧
        ∃ device, failures device = some error) engine := by
  have spec := ok.scoreDevices_spec allReady tagged represents sound failures
  rw [scoreChunks, wp_bind_get]
  rw [wp_bind, wp_attempt, releaseChunks]
  apply wp_mono (ok.wp_settle fun tensor member _ => allReady tensor member) _
    fun _ _ impossible => impossible.elim
  intro _ engine' clean
  cases result : engine.scoreDevices kernel failures request chunks scores with
  | error | ok =>
    rw [result] at spec
    exact ⟨clean, spec⟩

end

/-- Why a request may fail, and leave the engine as it is. -/
inductive Fault [Priority ρ] [KeyHash] [IterationOrder] (store : ShardStore)
    (environment : Environment n) (request : Request) (last : Engine n ρ) : String → Prop
  | read {error : String} (failed : environment.read = some error) :
      Fault store environment request last error
  | resolve {error : String} {candidate : Descriptor} (member : candidate ∈ request.candidates)
      (failed : store.resolve candidate = .error error) : Fault store environment request last error
  | upload {error : String} {round : Nat} {device : Fin n} {bytes : Nat → UInt8}
      (failed : environment.upload round device = some (error, bytes)) :
      Fault store environment request last error
  | kernel {error : String} {round : Nat} {device : Fin n}
      (failed : environment.kernel round device = some error) :
      Fault store environment request last error
  | unschedulable (refused : Refused store request.candidates request.tenant last) :
      Fault store environment request last unschedulable

/-- What a filling has taken are tensors of candidates. -/
theorem Filled.represents (filled : Filled store engine filling taken)
    (missing : ∀ tensor ∈ taken, Missing store request.candidates tensor) :
    ∀ tensor ∈ flat filling.chunks, Represents request tensor := by
  intro tensor member
  have pair := filled.matched.mem_iff.mp
    (mem_map_of_mem (f := fun tensor => (tensor.candidateIndex, tensor.key)) member)
  rcases mem_map.mp pair with ⟨source, inside, same⟩
  rcases Prod.mk.inj same with ⟨index, key⟩
  refine ⟨source.descriptor, ?_, (missing source inside).key.trans key⟩
  rw [← index]
  exact (missing source inside).candidate

/-- What a round has taken is uploaded, scored and released. -/
theorem Filled.wp_round [Priority ρ] [KeyHash] [IterationOrder]
    (filled : Filled store engine filling taken)
    (missing : ∀ tensor ∈ taken, Missing store request.candidates tensor)
    (sound : Sound (request.value kernel store) request.candidates scores) (round : Nat)
    {rest : List (Option σ) → Fallible String (Engine n ρ) (List (Option σ))}
    {ok : List (Option σ) → Engine n ρ → Prop}
    (next : ∀ scores' engine', Holds store engine' [] Uploaded →
      Adds (request.value kernel store) request.candidates scores scores'
        (taken.map MissingTensor.candidateIndex) →
      Fallible.wp (rest scores') ok (fun error engine' => Holds store engine' [] Uploaded ∧
        Fault store environment request engine' error) engine') :
    Fallible.wp (do
      match ← uploadDevices (environment.upload round) filling.chunks filling.uploads with
      | (some error, uploadSucceeded) => do
        cleanupAfterUploadFailure filling.chunks uploadSucceeded
        throw error
      | (none, _) => do
        let scores ←
          scoreChunks kernel (environment.kernel round) request filling.chunks scores
        rest scores)
      ok (fun error engine' => Holds store engine' [] Uploaded ∧
        Fault store environment request engine' error) engine := by
  apply wp_call filled.wp_uploadDevices
  rintro ⟨firstError, succeeded⟩ uploaded ⟨held, outcome⟩
  cases firstError with
  | some error =>
    rcases outcome with ⟨device, bytes, failed⟩
    apply wp_call held.wp_cleanupAfterUploadFailure
    intro _ last nothing
    exact ⟨nothing, .upload failed⟩
  | none =>
    rw [wp_bind]
    apply wp_mono (held.wp_scoreChunks
      (fun tensor _ => .inr (outcome tensor.device)) filled.tagged
      (filled.represents missing) sound (environment.kernel round))
    · rintro scores' scored ⟨nothing, adds⟩
      have pairs := filled.matched.map Prod.fst
      rw [map_map, map_map] at pairs
      exact next scores' scored (nothing.nil _) ⟨adds.sound, adds.kept,
        fun index member => adds.added index (pairs.mem_iff.mpr member)⟩
    · rintro error last ⟨nothing, device, failed⟩
      exact ⟨nothing.nil _, .kernel failed⟩

/-- Round after round all missing tensors are scored, and nothing is held between rounds
or after an error. -/
theorem Holds.wp_scorePending [Priority ρ] [KeyHash] [IterationOrder]
    (clean : Holds store engine [] Uploaded)
    (sound : Sound (request.value kernel store) request.candidates scores)
    {pending : List MissingTensor}
    (missing : ∀ tensor ∈ pending, Missing store request.candidates tensor)
    (distinct : (pending.map MissingTensor.key).Nodup) (round : Nat) :
    Fallible.wp (scorePending kernel environment request round pending scores)
      (fun scores' engine' => Holds store engine' [] Uploaded ∧
        Adds (request.value kernel store) request.candidates scores scores'
          (pending.map MissingTensor.candidateIndex))
      (fun error engine' => Holds store engine' [] Uploaded ∧
        Fault store environment request engine' error) engine := by
  induction size : pending.length using Nat.strong_induction_on
    generalizing engine scores pending round with
  | _ length ih =>
    rw [scorePending]
    cases pending with
    | nil => exact ⟨clean, .nil sound⟩
    | cons head tail =>
      rw [isEmpty_cons, if_neg Bool.false_ne_true, wp_bind]
      apply wp_mono
        ((Filled.empty clean).wp_fill request.tenant missing distinct)
      · rintro filling middle ⟨front, back, split, filled, ended⟩
        rw [nil_append] at filled
        have progress : filling.consumed ≠ 0 := by
          rcases ended with rfl | some
          · rw [filled.consumed, ← append_nil front, ← split]
            exact Nat.succ_ne_zero _
          · exact filled.consumed_ne_zero some
        have consumed : (head :: tail).drop filling.consumed = back := by
          rw [split, filled.consumed, drop_left]
        have fewer : back.length < length := by
          rw [← size, split, length_append, ← filled.consumed]
          exact Nat.lt_add_of_pos_left (pos_of_ne_zero progress)
        rw [split] at missing distinct
        rw [map_append] at distinct
        rw [if_neg progress, consumed]
        apply filled.wp_round
          (fun tensor member => missing tensor (mem_append_left _ member)) sound
        intro scores' scored clean' adds
        apply wp_mono (ih back.length fewer clean' adds.sound
          (fun tensor member => missing tensor (mem_append_right _ member))
          (nodup_append.mp distinct).2.1 (round + 1) rfl) _ fun _ _ failed => failed
        rintro scores'' last ⟨clean'', adds'⟩
        refine ⟨clean'', ?_⟩
        rw [split, map_append]
        exact adds.append adds'
      · rintro error last ⟨nothing, rfl, refused⟩
        exact ⟨nothing, .unschedulable refused⟩

end Engine

end VectorChord.Tilemaxsimd
