import VectorChord.Tilemaxsimd.Scoring

/-!
# `Engine::score`

From a clean engine every request is answered with the scores of its candidates in their
order, or with an error that has a cause outside the engine.  Either way the engine is
clean again.
-/

namespace VectorChord.Tilemaxsimd.Engine

open Collections Transition List Fallible AList

variable {n : Nat} {ρ σ : Type} {store : ShardStore} {engine : Engine n ρ} {request : Request}
  {index : Nat} {classified classified' : Classified n} {descriptor : Descriptor}

/-! ## Candidates -/

/-- The candidate was found in a cache or will be read. -/
def Covered (classified : Classified n) (index : Nat) : Prop :=
  index ∈ (flat classified.hitChunks).map ResidentTensor.candidateIndex ∨
    index ∈ classified.missing.map Prod.fst

/-- What the first loop knows about the candidates it has seen. -/
structure Classifies (store : ShardStore) (engine : Engine n ρ) (request : Request)
    (index : Nat) (classified : Classified n) : Prop where
  holds : Holds store engine (flat classified.hitChunks) Uploaded
  tagged : ∀ device, ∀ tensor ∈ classified.hitChunks device, tensor.device = device
  hits : ∀ tensor ∈ flat classified.hitChunks, Uploaded tensor ∧ Represents request tensor ∧
    tensor.key ∈ classified.firstCandidateByKey
  missing : ∀ item ∈ classified.missing, request.candidates[item.1]? = some item.2 ∧
    cacheKey item.2 ∈ classified.firstCandidateByKey
  distinct : (classified.missing.map fun item => cacheKey item.2).Nodup
  first : ∀ key index, classified.firstCandidateByKey.lookup key = some index →
    Covered classified index ∧
      ∃ candidate, request.candidates[index]? = some candidate ∧ cacheKey candidate = key
  duplicates : ∀ duplicate ∈ classified.duplicateCandidates, Covered classified duplicate.2 ∧
    ∃ candidate original, request.candidates[duplicate.1]? = some candidate ∧
      request.candidates[duplicate.2]? = some original ∧ SameTensor original candidate
  covered : ∀ seen < index, Covered classified seen ∨
    seen ∈ classified.duplicateCandidates.map Prod.fst

/-- Nothing is seen yet. -/
theorem Classifies.empty (clean : Holds store engine [] Uploaded) :
    Classifies store engine request 0 .empty := by
  have none : flat (Classified.empty : Classified n).hitChunks = [] :=
    flatMap_eq_nil_iff.mpr fun _ _ => rfl
  constructor
  case holds =>
    rw [none]
    exact clean
  case hits =>
    rw [none]
    exact fun _ member => (by cases member)
  case distinct => exact nodup_nil
  case tagged => exact fun _ _ member => (by cases member)
  case missing => exact fun _ member => (by cases member)
  case first => exact fun _ _ known => (by cases known)
  case duplicates => exact fun _ member => (by cases member)
  case covered => exact fun seen below => absurd below (Nat.not_lt_zero seen)

/-- A duplicate of a candidate that was seen before. -/
theorem Classifies.duplicate (classifies : Classifies store engine request index classified)
    (known : request.candidates[index]? = some descriptor) {first : Nat}
    (found : classified.firstCandidateByKey.lookup (cacheKey descriptor) = some first) :
    Classifies store engine request (index + 1) { classified with
      duplicateCandidates := classified.duplicateCandidates ++ [(index, first)] } where
  holds := classifies.holds
  tagged := classifies.tagged
  hits := classifies.hits
  missing := classifies.missing
  distinct := classifies.distinct
  first := classifies.first
  duplicates duplicate member := by
    rcases mem_append.mp member with before | last
    · exact classifies.duplicates duplicate before
    · rw [mem_singleton.mp last]
      rcases classifies.first _ first found with ⟨covered, original, known', key⟩
      exact ⟨covered, descriptor, original, known, known', cacheKey_inj key⟩
  covered seen below := by
    rcases Nat.lt_succ_iff_lt_or_eq.mp below with before | rfl
    · apply (classifies.covered seen before).imp id
      intro member
      rw [map_append]
      exact mem_append_left _ member
    · right
      rw [map_append]
      exact mem_append_right _ mem_cons_self

/-- Nobody holds a tensor that was not seen. -/
theorem Classifies.unheld (classifies : Classifies store engine request index classified)
    {key : String} (unseen : classified.firstCandidateByKey.lookup key = none) :
    ∀ tensor ∈ flat classified.hitChunks, tensor.key ≠ key := by
  rintro tensor member rfl
  exact lookup_eq_none.mp unseen (classifies.hits tensor member).2.2

section

variable {engine' : Engine n ρ} (classifies : Classifies store engine request index classified)
  (known : request.candidates[index]? = some descriptor)

include classifies known

/-- What does not depend on whether a new candidate is cached. -/
theorem Classifies.extend (firsts : classified'.firstCandidateByKey =
      classified.firstCandidateByKey.insert (cacheKey descriptor) index)
    (duplicates : classified'.duplicateCandidates = classified.duplicateCandidates)
    (more : ∀ seen, Covered classified seen → Covered classified' seen)
    (here : Covered classified' index)
    (holds : Holds store engine' (flat classified'.hitChunks) Uploaded)
    (tagged : ∀ device, ∀ tensor ∈ classified'.hitChunks device, tensor.device = device)
    (hits : ∀ tensor ∈ flat classified'.hitChunks, tensor ∈ flat classified.hitChunks ∨
      Uploaded tensor ∧ tensor.candidateIndex = index ∧ tensor.key = cacheKey descriptor)
    (missing : ∀ item ∈ classified'.missing, item ∈ classified.missing ∨ item = (index, descriptor))
    (distinct : (classified'.missing.map fun item => cacheKey item.2).Nodup) :
    Classifies store engine' request (index + 1) classified' where
  holds := holds
  tagged := tagged
  distinct := distinct
  hits tensor member := by
    rw [firsts, mem_insert]
    rcases hits tensor member with old | ⟨uploaded, same, key⟩
    · rcases classifies.hits tensor old with ⟨uploaded, represents, seen⟩
      exact ⟨uploaded, represents, .inr seen⟩
    · refine ⟨uploaded, ⟨descriptor, ?_, key.symm⟩, .inl key⟩
      rw [same]
      exact known
  missing item member := by
    rw [firsts, mem_insert]
    rcases missing item member with old | rfl
    · rcases classifies.missing item old with ⟨candidate, seen⟩
      exact ⟨candidate, .inr seen⟩
    · exact ⟨known, .inl rfl⟩
  first key seen found := by
    rw [firsts] at found
    rcases Table.lookup_insert_iff.mp found with ⟨rfl, rfl⟩ | ⟨_, before⟩
    · exact ⟨here, descriptor, known, rfl⟩
    · rcases classifies.first key seen before with ⟨covered, candidate⟩
      exact ⟨more seen covered, candidate⟩
  duplicates duplicate member := by
    rw [duplicates] at member
    rcases classifies.duplicates duplicate member with ⟨covered, same⟩
    exact ⟨more duplicate.2 covered, same⟩
  covered seen below := by
    rw [duplicates]
    rcases Nat.lt_succ_iff_lt_or_eq.mp below with before | rfl
    · exact (classifies.covered seen before).imp (more seen) id
    · exact .inl here

/-- A new candidate that is cached. -/
theorem Classifies.hit {tensor : ResidentTensor n}
    (holds : Holds store engine' (tensor :: flat classified.hitChunks) Uploaded)
    (uploaded : Uploaded tensor) (same : tensor.candidateIndex = index)
    (key : tensor.key = cacheKey descriptor) :
    Classifies store engine' request (index + 1) { classified with
      hitChunks := push classified.hitChunks tensor.device tensor
      firstCandidateByKey :=
        classified.firstCandidateByKey.insert (cacheKey descriptor) index } := by
  have pushed := flat_push classified.hitChunks tensor.device tensor
  apply classifies.extend known
  case firsts => rfl
  case duplicates => rfl
  case more =>
    intro seen covered
    apply covered.imp _ id
    intro member
    apply (pushed.map _).mem_iff.mpr
    exact mem_cons_of_mem _ member
  case here =>
    left
    apply (pushed.map _).mem_iff.mpr
    rw [map_cons, same]
    exact mem_cons_self
  case holds => exact holds.congr pushed fun _ _ => Iff.rfl
  case tagged => exact tagged_push classifies.tagged tensor
  case hits =>
    intro other member
    rcases mem_cons.mp (pushed.mem_iff.mp member) with rfl | before
    · exact .inr ⟨uploaded, same, key⟩
    · exact .inl before
  case missing => exact fun _ member => .inl member
  case distinct => exact classifies.distinct

/-- A new candidate that has to be read. -/
theorem Classifies.miss
    (unseen : classified.firstCandidateByKey.lookup (cacheKey descriptor) = none)
    (holds : Holds store engine' (flat classified.hitChunks) Uploaded) :
    Classifies store engine' request (index + 1) { classified with
      missing := classified.missing ++ [(index, descriptor)]
      firstCandidateByKey :=
        classified.firstCandidateByKey.insert (cacheKey descriptor) index } := by
  apply classifies.extend known
  case firsts => rfl
  case duplicates => rfl
  case more =>
    intro seen covered
    apply covered.imp id
    intro member
    rw [map_append]
    exact mem_append_left _ member
  case here =>
    right
    rw [map_append]
    exact mem_append_right _ mem_cons_self
  case holds => exact holds
  case tagged => exact classifies.tagged
  case hits => exact fun _ member => .inl member
  case missing =>
    intro item member
    exact (mem_append.mp member).imp id mem_singleton.mp
  case distinct =>
    rw [map_append, map_singleton, nodup_append]
    refine ⟨classifies.distinct, nodup_singleton _, ?_⟩
    intro key member other last equal
    rw [mem_singleton.mp last] at equal
    rcases mem_map.mp member with ⟨item, old, rfl⟩
    apply lookup_eq_none.mp unseen
    rw [← equal]
    exact (classifies.missing item old).2

end

section

variable [Priority ρ] [KeyHash]

theorem Classifies.wp_classifyOne (classifies : Classifies store engine request index classified)
    (known : request.candidates[index]? = some descriptor) :
    Fallible.wp (classifyOne index descriptor classified)
      (fun classified' engine' => Classifies store engine' request (index + 1) classified')
      (fun _ _ => False) engine := by
  unfold classifyOne
  cases first : classified.firstCandidateByKey.lookup (cacheKey descriptor) with
  | some original => exact classifies.duplicate known first
  | none =>
    rw [classifyFirst, wp_bind_get]
    cases position : (finRange n).find? fun device =>
        (engine.devices device).cache.contains (cacheKey descriptor) with
    | some device =>
      have contained := find?_some position
      apply wp_call
        (classifies.holds.wp_get contained (classifies.unheld first))
      rintro result engine' ⟨entry, rfl, ⟨descriptor', key, describes⟩, takes⟩
      have valid := (describes.sameTensor (cacheKey_inj key)).validateEntry
      rw [wp_bind, valid]
      have holds := takes ⟨index, device, cacheKey descriptor, entry.offset, entry.rows, false,
        false⟩ rfl rfl rfl rfl rfl
      exact classifies.hit known holds rfl rfl rfl
    | none =>
      apply classifies.miss known first
      exact classifies.holds.reduced
        ((classifies.holds.inv engine.nextDevice).counters _ _ _ _ _ _)
        ((GpuCache.Reduced.refl "" _).counters _ _ _ _ _ _)

/-- The first loop sees all candidates and does not fail. -/
theorem Classifies.wp_classify {rest front : List Descriptor}
    (classifies : Classifies store engine request front.length classified)
    (split : request.candidates = front ++ rest) :
    Fallible.wp (classify front.length rest classified)
      (fun classified' engine' =>
        Classifies store engine' request request.candidates.length classified')
      (fun _ _ => False) engine := by
  induction rest generalizing engine classified front with
  | nil =>
    rw [append_nil] at split
    rw [← split] at classifies ⊢
    exact classifies
  | cons descriptor rest ih =>
    have known : request.candidates[front.length]? = some descriptor := by
      rw [split, getElem?_append_right (Nat.le_refl _), Nat.sub_self]
      rfl
    apply wp_call (classifies.wp_classifyOne known)
    intro classified' engine' next
    have longer : (front ++ [descriptor]).length = front.length + 1 := length_append
    rw [← longer] at next ⊢
    apply ih next
    rw [append_assoc]
    exact split

end

/-! ## Results -/

section

variable {value : Descriptor → σ} {candidates : List Descriptor} {scores : List (Option σ)}

/-- Duplicates get the scores of their originals, which are theirs. -/
theorem adds_copyDuplicates (same : ∀ left right, SameTensor left right → value left = value right)
    (sound : Sound value candidates scores) {duplicates : List (Nat × Nat)}
    (scored : ∀ duplicate ∈ duplicates, Scored scores duplicate.2)
    (originals : ∀ duplicate ∈ duplicates, ∃ candidate original,
      candidates[duplicate.1]? = some candidate ∧ candidates[duplicate.2]? = some original ∧
        SameTensor original candidate) :
    Adds value candidates scores (copyDuplicates duplicates scores)
      (duplicates.map Prod.fst) := by
  induction duplicates generalizing scores with
  | nil => exact .nil sound
  | cons duplicate duplicates ih =>
    rcases originals duplicate mem_cons_self with
      ⟨candidate, original, known, known', equal⟩
    rcases scored duplicate mem_cons_self with ⟨score, written⟩
    have right : score = value candidate := by
      rcases sound.values _ score written with ⟨other, known'', rfl⟩
      rw [known'] at known''
      cases known''
      exact same original candidate equal
    have copied : scores.getD duplicate.2 none = some (value candidate) := by
      rw [getD_eq_getElem?_getD, written, right, Option.getD_some]
    have one : Adds value candidates scores
        (scores.set duplicate.1 (some (value candidate))) [duplicate.1] := by
      constructor
      · exact sound.set known
      · exact fun index scored => scored.set _
      · intro index member
        rw [mem_singleton.mp member]
        exact scored_set sound known _
    rw [copyDuplicates, foldl_cons, copied]
    exact one.append (ih one.sound
      (fun other member => one.kept _ (scored other (mem_cons_of_mem _ member)))
      fun other member => originals other (mem_cons_of_mem _ member))

theorem collect_append (sound : Sound value candidates scores)
    (all : ∀ index < candidates.length, Scored scores index) {front rest : List Descriptor}
    (split : candidates = front ++ rest) : collect scores front.length rest =
      .ok (rest.map fun candidate => (candidate.candidateId, value candidate)) := by
  induction rest generalizing front with
  | nil => rfl
  | cons descriptor rest ih =>
    have known : candidates[front.length]? = some descriptor := by
      rw [split, getElem?_append_right (Nat.le_refl _), Nat.sub_self]
      rfl
    rcases all front.length (List.getElem?_eq_some_iff.mp known).1 with ⟨score, written⟩
    rcases sound.values _ score written with ⟨candidate, known', rfl⟩
    rw [known] at known'
    cases known'
    have longer : (front ++ [descriptor]).length = front.length + 1 := length_append
    have split' : candidates = (front ++ [descriptor]) ++ rest := by
      rw [append_assoc]
      exact split
    have others := ih split'
    rw [longer] at others
    rw [collect, getD_eq_getElem?_getD, written, Option.getD_some]
    rw [others]
    rfl

end

/-- The tensors that were read are those that were missing. -/
theorem missingTensors_eq {missing : List (Nat × Descriptor)} {payloads : List (List UInt8)}
    (read : payloads = (missing.map Prod.snd).map store.payload) :
    missingTensors missing payloads = missing.map fun item =>
      ⟨item.1, item.2, cacheKey item.2, store.payload item.2⟩ := by
  have zipped : missing.zip payloads = missing.map fun item => (item, store.payload item.2) := by
    rw [read, map_map, zip_map_right, zip_eq_zipWith, zipWith_self, map_map]
    rfl
  rw [missingTensors, zipped, map_map]
  rfl

/-! ## Requests -/

/-- Every entry is ready, not in use and has the bytes of its tensor in its range.  The
counters and ranges of each cache are as its own operations leave them, and its keys and
shapes are those of tensors of the store. -/
structure Clean (store : ShardStore) (engine : Engine n ρ) : Prop where
  inv : ∀ device, (engine.devices device).cache.Inv
  idle : ∀ device key entry, (engine.devices device).cache.entries.lookup key = some entry →
    entry.ready = true ∧ entry.references = 0
  loaded : ∀ device key entry, (engine.devices device).cache.entries.lookup key = some entry →
    ∃ descriptor, cacheKey descriptor = key ∧ Describes store descriptor entry ∧
      slice (engine.devices device).arena entry.offset entry.payloadBytes =
        store.payload descriptor

theorem clean_iff : Clean store engine ↔ Holds store engine [] Uploaded := by
  constructor
  · intro clean
    refine ⟨nodup_nil, clean.inv, fun device => ?_⟩
    constructor
    case described =>
      intro key entry found
      rcases clean.loaded device key entry found with ⟨descriptor, same, describes, _⟩
      exact ⟨descriptor, same, describes⟩
    case loaded =>
      intro key entry found _
      rcases clean.loaded device key entry found with ⟨descriptor, rfl, describes, bytes⟩
      rw [LoadedAt, ShardStore.bytes_cacheKey, ← describes.payloadBytes]
      exact bytes
    case present => exact fun _ isHeld => (by cases isHeld.1)
    case idle =>
      intro key entry found _
      exact (clean.idle device key entry found).symm
  · intro ok
    have idle : ∀ device key entry,
        (engine.devices device).cache.entries.lookup key = some entry →
        entry.ready = true ∧ entry.references = 0 := by
      intro device key entry found
      exact ((ok.holding device).idle key entry found fun _ isHeld => (by cases isHeld.1)).symm
    refine ⟨ok.inv, idle, fun device key entry found => ?_⟩
    rcases (ok.holding device).described key entry found with ⟨descriptor, rfl, describes⟩
    have loaded := (ok.holding device).loaded _ entry found (idle device _ entry found).1
    rw [LoadedAt, ShardStore.bytes_cacheKey, ← describes.payloadBytes] at loaded
    exact ⟨descriptor, rfl, describes, loaded⟩

/-- An engine whose caches are new is clean, whatever its arenas contain. -/
theorem clean_of_new [Priority ρ] {capacity : Fin n → Nat}
    {blockBytes tenantMaxPercent pinnedMaxPercent : Nat} {reservations : Table String Nat}
    (bounded : ∀ device, capacity device ≤ usizeMax)
    (built : ∀ device, GpuCache.newWithLimits (capacity device) blockBytes tenantMaxPercent
      pinnedMaxPercent reservations = .ok (engine.devices device).cache) : Clean store engine := by
  have none : ∀ device key entry,
      (engine.devices device).cache.entries.lookup key ≠ some entry := by
    intro device key entry found
    rw [(GpuCache.newWithLimits_eq_ok (built device)).2.1] at found
    cases found
  constructor
  · exact fun device => (GpuCache.newWithLimits_inv (bounded device) (built device)).1
  all_goals exact fun device key entry found => absurd found (none device key entry)

section

variable {kernel : Kernel σ} {environment : Environment n}

/-- Once the tensors that were found and those that were missing are scored, all
candidates are. -/
theorem Classifies.collect_eq
    (classifies : Classifies store engine request request.candidates.length classified)
    {start scores : List (Option σ)}
    (adds : Adds (request.value kernel store) request.candidates start scores
      ((flat classified.hitChunks).map ResidentTensor.candidateIndex ++
        classified.missing.map Prod.fst)) :
    collect (copyDuplicates classified.duplicateCandidates scores) 0 request.candidates =
      .ok (request.candidates.map fun candidate =>
        (candidate.candidateId, request.value kernel store candidate)) := by
  have scored : ∀ index, Covered classified index → Scored scores index :=
    fun index covered => adds.added index (mem_append.mpr covered)
  have copied := adds_copyDuplicates (fun _ _ same => same.value request kernel store) adds.sound
    (fun duplicate member => scored _ (classifies.duplicates duplicate member).1)
    (fun duplicate member => (classifies.duplicates duplicate member).2)
  apply collect_append copied.sound _ (nil_append _).symm
  intro index below
  rcases classifies.covered index below with covered | duplicate
  · exact copied.kept index (scored index covered)
  · exact copied.added index duplicate

variable [Priority ρ] [KeyHash] [IterationOrder]

/-- The result of a request and the engine afterwards. -/
theorem Clean.wp_score (clean : Clean store engine) (kernel : Kernel σ)
    (environment : Environment n) (request : Request) :
    Fallible.wp (score kernel store environment request)
      (fun result engine' => Holds store engine' [] Uploaded ∧
        result = request.candidates.map fun candidate =>
          (candidate.candidateId, request.value kernel store candidate))
      (fun error engine' => Holds store engine' [] Uploaded ∧
        Fault store environment request engine' error) engine := by
  unfold score
  split
  next none =>
    rw [isEmpty_iff.mp none]
    exact ⟨clean_iff.mp clean, rfl⟩
  next =>
    rw [wp_bind]
    apply wp_mono ((Classifies.empty (clean_iff.mp clean)).wp_classify (nil_append _).symm) _
      fun _ _ impossible => impossible.elim
    intro classified engine classifies
    rw [wp_bind]
    apply wp_mono (classifies.holds.wp_scoreChunks
      (fun tensor member => (classifies.hits tensor member).1) classifies.tagged
      (fun tensor member => (classifies.hits tensor member).2.1)
      (.replicate (request.value kernel store) request.candidates) (environment.kernel 0))
    · rintro scores middle ⟨clean, hits⟩
      have spec := store.resolveMany_spec environment.read (classified.missing.map Prod.snd)
      rw [wp_bind, wp_lift]
      cases resolved : store.resolveMany environment.read (classified.missing.map Prod.snd) with
      | error error =>
        rw [resolved] at spec
        rcases spec with failed | ⟨descriptor, member, failed⟩
        · exact ⟨clean, .read failed⟩
        · rcases mem_map.mp member with ⟨item, isMissing, rfl⟩
          have known := (classifies.missing item isMissing).1
          exact ⟨clean, .resolve (mem_of_getElem? known) failed⟩
      | ok payloads =>
        rw [resolved] at spec
        dsimp only
        rw [wp_bind, missingTensors_eq spec.1]
        apply wp_mono (clean.wp_scorePending hits.sound _ (by
          rw [map_map]
          exact classifies.distinct) 1) _ fun _ _ failed => failed
        · intro tensor member
          rcases mem_map.mp member with ⟨item, isMissing, rfl⟩
          exact ⟨(classifies.missing item isMissing).1, rfl, rfl,
            spec.2 item.2 (mem_map_of_mem isMissing)⟩
        · rintro scores' last ⟨clean', rest⟩
          rw [map_map] at rest
          rw [wp_lift, classifies.collect_eq (hits.append rest)]
          exact ⟨clean', rfl⟩
    · rintro error last ⟨clean, device, failed⟩
      exact ⟨clean, .kernel failed⟩

/-- From a clean engine, whatever reads, uploads and kernels do: the engine is clean
afterwards, a result has the score of every candidate's own tensor in the order of the
request, and an error comes from a read, an upload, a kernel or a tensor that does not
fit. -/
theorem score_correct (clean : Clean store engine) (kernel : Kernel σ)
    (environment : Environment n) (request : Request) :
    Clean store ((score kernel store environment request).step engine).2 ∧
      match ((score kernel store environment request).step engine).1 with
      | .ok scores => scores = request.candidates.map fun candidate =>
        (candidate.candidateId, request.value kernel store candidate)
      | .error error => Fault store environment request
        ((score kernel store environment request).step engine).2 error := by
  have spec := clean.wp_score kernel environment request
  unfold wp at spec
  revert spec
  rcases (score kernel store environment request).step engine with ⟨result, after⟩
  cases result with
  | ok | error => exact fun spec => ⟨clean_iff.mpr spec.1, spec.2⟩

end

/-- A digest of 64 zeros. -/
def zeroDigest : Digest :=
  ⟨"0000000000000000000000000000000000000000000000000000000000000000", by
  decide +kernel⟩

/-- A request with the same tensor for both of its candidates. -/
def repeatedTensor : Request where
  protocolVersion := 2
  requestId := 1
  tenant := "red"
  priority := 0
  timeoutMs := 0
  queryRows := 1
  dimension := 1
  dtype := 2
  query := [0, 60]
  candidates := [⟨5, "m", zeroDigest, 2, 1, 2⟩, ⟨6, "m", zeroDigest, 2, 1, 2⟩]
  uniform := .cons ⟨rfl, rfl⟩ (.cons ⟨rfl, rfl⟩ (forall_mem_nil _))

/-- The second time, the engine finds the tensor that it has uploaded the first time. -/
theorem score_correct_repeatedTensor :
    let _ := GpuCache.wholePriority
    let _ : KeyHash := ⟨fun _ _ => 0⟩
    let _ := IterationOrder.insertion
    let store : ShardStore := ⟨fun _ _ => [0, 60, 0, 64]⟩
    let environment : Environment 1 := ⟨none, fun _ _ => none, fun _ _ => none⟩
    let kernel : Kernel (List UInt8) := fun _ _ _ _ _ document => document
    let score := score kernel store environment repeatedTensor
    ∃ cache : GpuCache Nat, GpuCache.newWithLimits 1024 256 100 100 ∅ = .ok cache ∧
      let used := (score.step (⟨fun _ => ⟨fun _ => 0, cache, 0, 0⟩, 0⟩ : Engine 1 Nat)).2
      (used.devices 0).h2dBytes = 4 ∧ ((score.step used).2.devices 0).h2dBytes = 4 ∧
        (score.step used).1 = .ok [(5, [0, 60, 0, 64]), (6, [0, 60, 0, 64])] ∧
        Clean store (score.step used).2 := by
  intro _ _ _ store environment kernel score
  have clean : ∀ cache : GpuCache Nat, GpuCache.newWithLimits 1024 256 100 100 ∅ = .ok cache →
      Clean store (⟨fun _ => ⟨fun _ => 0, cache, 0, 0⟩, 0⟩ : Engine 1 Nat) := by
    intro cache built
    exact @clean_of_new 1 Nat store _ _ (fun _ => 1024) 256 100 100 ∅ (fun _ => by decide)
      fun _ => built
  have first := score_correct (clean _ rfl) kernel environment repeatedTensor
  have second := score_correct first.1 kernel environment repeatedTensor
  refine ⟨_, rfl, ?_, ?_, ?_, second.1⟩
  · decide +kernel
  · decide +kernel
  · decide +kernel

end VectorChord.Tilemaxsimd.Engine
