import VectorChord.Tilemaxsimd.Chunks

/-!
# Rounds

A round takes as many missing tensors as there is room for.  Uploads only write to ranges
of tensors that are not ready, so whatever a failed one leaves there is never seen.
-/

namespace VectorChord.Tilemaxsimd

open Collections Transition List Fallible

variable {n : Nat} {ρ : Type}

namespace Engine

/-! ## Filling chunks -/

/-- A missing tensor as it was read for one of the candidates. -/
structure Missing (store : ShardStore) (candidates : List Descriptor) (tensor : MissingTensor) :
    Prop where
  candidate : candidates[tensor.candidateIndex]? = some tensor.descriptor
  key : cacheKey tensor.descriptor = tensor.key
  payload : tensor.payload = store.payload tensor.descriptor
  fits : store.Fits tensor.descriptor

/-- New tensors are not ready before they are uploaded. -/
def Uploaded (tensor : ResidentTensor n) : Prop := tensor.newlyAdmitted = false

/-- A filling that has taken some of the missing tensors. -/
structure Filled (store : ShardStore) (engine : Engine n ρ) (filling : Filling n)
    (taken : List MissingTensor) : Prop where
  holds : Holds store engine (flat filling.chunks) Uploaded
  tagged : ∀ device, ∀ tensor ∈ filling.chunks device, tensor.device = device
  matched : ((flat filling.chunks).map fun tensor => (tensor.candidateIndex, tensor.key)).Perm
    (taken.map fun tensor => (tensor.candidateIndex, tensor.key))
  uploads : ∀ device, filling.uploads device =
    ((filling.chunks device).filter fun tensor => tensor.newlyAdmitted).map
      fun tensor => (tensor.offset, store.bytes tensor.key)
  consumed : filling.consumed = taken.length

variable {store : ShardStore} {engine engine' : Engine n ρ} {filling filling' : Filling n}
  {taken : List MissingTensor} {candidates : List Descriptor} {tensor : MissingTensor}

/-- Nothing is taken yet. -/
theorem Filled.empty {ready : ResidentTensor n → Prop} (clean : Holds store engine [] ready) :
    Filled store engine .empty [] := by
  have none : flat (Filling.empty : Filling n).chunks = [] := flatMap_eq_nil_iff.mpr fun _ _ => rfl
  constructor
  case holds =>
    rw [none]
    exact clean.nil _
  case tagged =>
    intro device tensor member
    cases member
  case matched =>
    rw [none]
    exact .refl _
  case uploads => exact fun _ => rfl
  case consumed => rfl

/-- One more tensor is taken. -/
theorem Filled.push (filled : Filled store engine filling taken) {resident : ResidentTensor n}
    (holds : Holds store engine' (resident :: flat filling.chunks) Uploaded)
    (index : resident.candidateIndex = tensor.candidateIndex) (key : resident.key = tensor.key)
    (chunks : filling'.chunks = push filling.chunks resident.device resident)
    (uploads : filling'.uploads =
      if resident.newlyAdmitted then
        push filling.uploads resident.device (resident.offset, store.bytes resident.key)
      else filling.uploads) (consumed : filling'.consumed = filling.consumed + 1) :
    Filled store engine' filling' (taken ++ [tensor]) where
  holds := by
    rw [chunks]
    exact holds.congr (flat_push ..) fun _ _ => Iff.rfl
  tagged := by
    rw [chunks]
    exact tagged_push filled.tagged resident
  matched := by
    rw [chunks, map_append, map_singleton, ← index, ← key]
    apply ((flat_push ..).map _).trans
    exact (filled.matched.cons _).trans (perm_append_singleton ..).symm
  uploads device := by
    rw [chunks, uploads]
    by_cases here : device = resident.device
    · rw [here, push_self, filter_append, map_append]
      cases new : resident.newlyAdmitted with
      | true =>
        rw [if_pos rfl, push_self, filled.uploads, filter_cons_of_pos new]
        rfl
      | false =>
        have last : [resident].filter (fun tensor => tensor.newlyAdmitted) = [] :=
          filter_cons_of_neg (by rw [new]; exact Bool.false_ne_true)
        rw [if_neg Bool.false_ne_true, filled.uploads, last, map_nil, append_nil]
    · rw [push_of_ne _ here, ← filled.uploads device]
      cases resident.newlyAdmitted with
      | true => rw [if_pos rfl, push_of_ne _ here]
      | false => rw [if_neg Bool.false_ne_true]
  consumed := by
    rw [consumed, filled.consumed, length_append, length_singleton]

theorem Filled.key_ne (filled : Filled store engine filling taken) {key : String}
    (fresh : ∀ tensor ∈ taken, tensor.key ≠ key) :
    ∀ other ∈ flat filling.chunks, other.key ≠ key := by
  intro other member equal
  have pair := filled.matched.mem_iff.mp
    (mem_map_of_mem (f := fun tensor => (tensor.candidateIndex, tensor.key)) member)
  rcases mem_map.mp pair with ⟨tensor, inside, same⟩
  exact fresh tensor inside ((congrArg Prod.snd same).trans equal)

theorem Filling.isEmpty_iff : filling.isEmpty = true ↔ flat filling.chunks = [] := by
  simp only [Filling.isEmpty, all_eq_true, List.isEmpty_iff, flat, flatMap_eq_nil_iff]

theorem Missing.admissible (missing : Missing store candidates tensor) (tenant : String)
    (force : Bool) : Admissible store tensor.descriptor (admission tenant force tensor) :=
  ⟨missing.fits, missing.key, congrArg _ missing.payload, rfl, rfl, rfl⟩

theorem Missing.bytes (missing : Missing store candidates tensor) :
    store.bytes tensor.key = tensor.payload := by
  rw [← missing.key, ShardStore.bytes_cacheKey, missing.payload]

section
variable [Priority ρ] [KeyHash] [IterationOrder] {tensor : MissingTensor}

/-- With nothing in use, no device has taken the tensor of a candidate, not even by force. -/
def Refused (store : ShardStore) (candidates : List Descriptor) (tenant : String)
    (last : Engine n ρ) : Prop :=
  ∃ (tensor : MissingTensor) (start engine : Engine n ρ), Missing store candidates tensor ∧
    Holds store engine [] Uploaded ∧
    (admitAny (admission tenant true tensor) start.rotation).step engine = (.ok none, last)

/-- The only error of a round before its uploads. -/
def unschedulable : String :=
  "one tensor cannot be scheduled in any configured Rust GPU block cache"

section
variable (filled : Filled store engine filling taken) (missing : Missing store candidates tensor)
  (fresh : ∀ other ∈ taken, other.key ≠ tensor.key) (tenant : String)

include filled missing fresh

/-- An admission either takes the tensor or leaves what was taken before. -/
theorem Filled.wp_admitMissing :
    Fallible.wp (admitMissing tenant tensor filling)
      (fun result engine' =>
        match result with
        | some (device, offset, transient) =>
          Filled store engine' (filling.take tensor device offset transient)
            (taken ++ [tensor])
        | none => Holds store engine' (flat filling.chunks) Uploaded ∧
          (filling.isEmpty = true → Refused store candidates tenant engine'))
      (fun _ _ => False) engine := by
  have unheld := filled.key_ne fresh
  have admitted : ∀ (engine' : Engine n ρ) force device offset transient,
      Stores store engine' (flat filling.chunks) Uploaded (admission tenant force tensor)
        (some (device, offset)) →
      Filled store engine' (filling.take tensor device offset transient)
        (taken ++ [tensor]) := by
    intro engine' force device offset transient stores
    have holds := stores ⟨tensor.candidateIndex, device, tensor.key, offset,
      tensor.descriptor.rows, transient, true⟩ rfl rfl rfl rfl (fun old => (by cases old))
    apply filled.push holds rfl rfl rfl _ rfl
    rw [if_pos rfl, missing.bytes]
    rfl
  rw [admitMissing, wp_bind_get]
  apply wp_call
    (filled.holds.wp_admitAny (missing.admissible tenant false) unheld engine.rotation)
  intro result middle stores
  cases result with
  | some range => exact admitted middle false range.1 range.2 false stores
  | none =>
    dsimp only
    split
    next none =>
      have idle : Holds store middle [] Uploaded := by
        rw [← Filling.isEmpty_iff.mp none]
        exact stores
      apply wp_call (wp_done
        (Holds.wp_admitAny stores (missing.admissible tenant true) unheld engine.rotation))
      rintro result' last ⟨stores', done⟩
      cases result' with
      | some range => exact admitted last true range.1 range.2 true stores'
      | none => exact ⟨stores', fun _ => ⟨tensor, engine, middle, missing, idle, done⟩⟩
    next some => exact ⟨stores, fun none => absurd none some⟩

theorem Filled.wp_fillNext :
    Fallible.wp (fillNext tenant tensor filling)
      (fun result engine' =>
        match result with
        | some filling' => Filled store engine' filling' (taken ++ [tensor])
        | none => Filled store engine' filling taken ∧ filling.isEmpty = false)
      (fun error engine' => Holds store engine' [] Uploaded ∧ error = unschedulable ∧
        Refused store candidates tenant engine') engine := by
  apply wp_call
    (filled.holds.wp_acquireAny (filled.key_ne fresh) (finRange n))
  intro result middle acquired
  cases result with
  | some found =>
    rcases found with ⟨device, entry⟩
    have holds := acquired ⟨tensor.candidateIndex, device, tensor.key, entry.offset, entry.rows,
      false, false⟩ rfl rfl rfl rfl rfl
    apply filled.push holds rfl rfl rfl _ rfl
    exact (if_neg Bool.false_ne_true).symm
  | none =>
    have filled' : Filled store middle filling taken := { filled with holds := acquired }
    apply wp_call (filled'.wp_admitMissing missing fresh tenant)
    intro result' last admitted
    cases result' with
    | some range => exact admitted
    | none =>
      dsimp only at admitted ⊢
      split
      next none =>
        have nothing := admitted.1
        rw [Filling.isEmpty_iff.mp none] at nothing
        exact ⟨nothing, rfl, admitted.2 none⟩
      next some => exact ⟨{ filled with holds := admitted.1 }, Bool.eq_false_of_not_eq_true some⟩

end

/-- A round takes the first of the missing tensors, at least one if there is any. -/
theorem Filled.wp_fill (filled : Filled store engine filling taken) (tenant : String)
    {pending : List MissingTensor}
    (missing : ∀ tensor ∈ pending, Missing store candidates tensor)
    (distinct : ((taken ++ pending).map MissingTensor.key).Nodup) :
    Fallible.wp (fill tenant pending filling)
      (fun filling' engine' => ∃ front back, pending = front ++ back ∧
        Filled store engine' filling' (taken ++ front) ∧
        (back = [] ∨ filling'.isEmpty = false))
      (fun error engine' => Holds store engine' [] Uploaded ∧ error = unschedulable ∧
        Refused store candidates tenant engine') engine := by
  induction pending generalizing engine filling taken with
  | nil =>
    refine ⟨[], [], rfl, ?_, .inl rfl⟩
    rw [append_nil]
    exact filled
  | cons tensor pending ih =>
    have fresh : ∀ other ∈ taken, other.key ≠ tensor.key := by
      intro other member equal
      rw [map_append, nodup_append] at distinct
      exact distinct.2.2 other.key (mem_map_of_mem member) tensor.key
        (mem_map_of_mem mem_cons_self) equal
    apply wp_seq
      (filled.wp_fillNext (missing tensor mem_cons_self) fresh tenant)
    intro result middle next
    cases result with
    | none =>
      refine ⟨[], tensor :: pending, rfl, ?_, .inr next.2⟩
      rw [append_nil]
      exact next.1
    | some filling' =>
      have distinct' : ((taken ++ [tensor] ++ pending).map MissingTensor.key).Nodup := by
        rw [append_assoc]
        exact distinct
      apply wp_mono (ih next
        (fun other member => missing other (mem_cons_of_mem _ member)) distinct') _
        fun _ _ failed => failed
      rintro filling'' last ⟨front, back, split, filled'', ended⟩
      refine ⟨tensor :: front, back, congrArg _ split, ?_, ended⟩
      rw [append_cons]
      exact filled''

end

/-- A filling that is not empty has taken something. -/
theorem Filled.consumed_ne_zero (filled : Filled store engine filling taken)
    (some : filling.isEmpty = false) : filling.consumed ≠ 0 := by
  intro zero
  have none : taken = [] := length_eq_zero_iff.mp (filled.consumed.symm.trans zero)
  have matched := filled.matched
  rw [none, map_nil, perm_nil, map_eq_nil_iff] at matched
  rw [Filling.isEmpty_iff.mpr matched] at some
  cases some

/-! ## Uploads -/

section

variable {outcomes : Fin n → Option (String × (Nat → UInt8))} {address : Nat} {device : Fin n}

theorem cache_uploadBatches (uploads : Fin n → List (Nat × List UInt8)) (device : Fin n) :
    ((engine.uploadBatches outcomes uploads).devices device).cache =
      (engine.devices device).cache := by
  unfold uploadBatches
  dsimp only
  split
  next => rfl
  next => cases outcomes device <;> rfl

theorem arena_uploadBatches {uploads : Fin n → List (Nat × List UInt8)}
    (outside : ¬ Targets (uploads device) address) :
    ((engine.uploadBatches outcomes uploads).devices device).arena address =
      (engine.devices device).arena address := by
  unfold uploadBatches
  dsimp only
  split
  next => rfl
  next =>
    cases outcomes device with
    | none => exact writeAll_of_not_targets outside
    | some failure => exact if_neg outside

section

variable (filled : Filled store engine filling taken)

include filled

/-- An upload does not touch the range of an entry that is ready. -/
theorem Filled.not_targets {key : String}
    {entry : CacheEntry ρ} (found : (engine.devices device).cache.entries.lookup key = some entry)
    (isReady : entry.ready = true) (low : entry.offset ≤ address)
    (high : address < entry.offset + (store.bytes key).length) :
    ¬ Targets (filling.uploads device) address := by
  rintro ⟨item, member, low', high'⟩
  rw [filled.uploads] at member
  rcases mem_map.mp member with ⟨tensor, inside, rfl⟩
  rcases mem_filter.mp inside with ⟨inChunk, new⟩
  have here := filled.tagged device tensor inChunk
  have holding := filled.holds.holding device
  rcases holding.present tensor ⟨mem_flat.mpr ⟨device, inChunk⟩, here⟩ with
    ⟨entry', found', holds⟩
  have different : key ≠ tensor.key := by
    intro equal
    rw [← equal, found] at found'
    cases found'
    have old : tensor.newlyAdmitted = false := holds.ready.mp isReady
    rw [new] at old
    cases old
  have fits := holding.length_bytes_le found
  have fits' := holding.length_bytes_le found'
  dsimp only at low' high'
  rw [← holds.offset] at low' high'
  rcases (filled.holds.inv device).disjoint found found' different with before | behind <;> omega

/-- Uploads leave what is held as it was. -/
theorem Filled.holds_uploadBatches :
    Holds store (engine.uploadBatches outcomes filling.uploads) (flat filling.chunks)
      Uploaded where
  distinct := filled.holds.distinct
  inv device := by
    rw [cache_uploadBatches]
    exact filled.holds.inv device
  holding device := by
    have holding := filled.holds.holding device
    rw [cache_uploadBatches]
    refine ⟨holding.described, ?_, holding.present, holding.idle⟩
    intro key entry found isReady
    apply Eq.trans _ (holding.loaded key entry found isReady)
    apply slice_congr
    intro address low high
    exact arena_uploadBatches (filled.not_targets found isReady low high)

/-- The ranges of uploads do not overlap. -/
theorem Filled.uploads_apart (device : Fin n) :
    (filling.uploads device).Pairwise fun left right =>
      left.1 + left.2.length ≤ right.1 ∨ right.1 + right.2.length ≤ left.1 := by
  have distinct : ((filling.chunks device).map ResidentTensor.key).Nodup :=
    ((sublist_flatten_of_mem (mem_map_of_mem (mem_finRange device))).map _).nodup
      filled.holds.distinct
  rw [filled.uploads, pairwise_map]
  apply List.Pairwise.filter
  apply List.Pairwise.imp_of_mem _ (pairwise_map.mp distinct)
  intro left right inLeft inRight different
  have holding := filled.holds.holding device
  have found : ∀ tensor ∈ filling.chunks device, ∃ entry,
      (engine.devices device).cache.entries.lookup tensor.key = some entry ∧
        entry.offset = tensor.offset := by
    intro tensor inChunk
    rcases holding.present tensor
      ⟨mem_flat.mpr ⟨device, inChunk⟩, filled.tagged device tensor inChunk⟩ with
      ⟨entry, known, holds⟩
    exact ⟨entry, known, holds.offset⟩
  rcases found left inLeft with ⟨entry, known, offset⟩
  rcases found right inRight with ⟨entry', known', offset'⟩
  have fits := holding.length_bytes_le known
  have fits' := holding.length_bytes_le known'
  dsimp only
  rcases (filled.holds.inv device).disjoint known known' different with before | behind
  · left
    omega
  · right
    omega

/-- What was uploaded to a device without an error is there. -/
theorem Filled.loaded {tensor : ResidentTensor n}
    (member : tensor ∈ flat filling.chunks) (new : tensor.newlyAdmitted = true)
    (succeeded : uploadErrors outcomes filling.uploads tensor.device = none) :
    LoadedAt store ((engine.uploadBatches outcomes filling.uploads).devices tensor.device).arena
      tensor.key tensor.offset := by
  rcases mem_flat.mp member with ⟨device, inChunk⟩
  have here := filled.tagged device tensor inChunk
  rw [here] at succeeded ⊢
  have item : (tensor.offset, store.bytes tensor.key) ∈ filling.uploads device := by
    rw [filled.uploads]
    exact mem_map.mpr ⟨tensor, mem_filter.mpr ⟨inChunk, new⟩, rfl⟩
  have some : ¬ (filling.uploads device).isEmpty = true := by
    rw [List.isEmpty_iff]
    exact ne_nil_of_mem item
  rw [uploadErrors, if_neg some, Option.map_eq_none_iff] at succeeded
  have arena : ((engine.uploadBatches outcomes filling.uploads).devices device).arena =
      writeAll (engine.devices device).arena (filling.uploads device) := by
    unfold uploadBatches
    dsimp only
    rw [if_neg some, succeeded]
    rfl
  rw [arena]
  exact slice_writeAll (filled.uploads_apart device) item

end

/-! ## Marks -/

variable {held : List (ResidentTensor n)} {ready : ResidentTensor n → Prop}
  {chunks : Fin n → List (ResidentTensor n)}

/-- All new tensors of a chunk are marked. -/
theorem Holds.wp_markChunk (ok : Holds store engine held ready) {chunk : List (ResidentTensor n)}
    (inside : ∀ tensor ∈ chunk, tensor ∈ held ∧ tensor.device = device)
    (loaded : ∀ tensor ∈ chunk, tensor.newlyAdmitted = true →
      LoadedAt store (engine.devices device).arena tensor.key tensor.offset) :
    Fallible.wp (markChunk device chunk)
      (fun result engine' => result = none ∧
        Holds store engine' held
          (fun tensor => ready tensor ∨ tensor ∈ chunk ∧ tensor.newlyAdmitted = true) ∧
        ∀ device, (engine'.devices device).arena = (engine.devices device).arena)
      (fun _ _ => False) engine := by
  induction chunk generalizing engine ready with
  | nil =>
    refine ⟨rfl, ok.congr (.refl _) fun tensor _ => ?_, fun _ => rfl⟩
    constructor
    · exact .inl
    · rintro (isReady | ⟨member, _⟩)
      · exact isReady
      · cases member
  | cons tensor chunk ih =>
    have inside' : ∀ other ∈ chunk, other ∈ held ∧ other.device = device :=
      fun other member => inside other (mem_cons_of_mem _ member)
    have loaded' : ∀ other ∈ chunk, other.newlyAdmitted = true →
        LoadedAt store (engine.devices device).arena other.key other.offset :=
      fun other member => loaded other (mem_cons_of_mem _ member)
    rw [markChunk]
    cases new : tensor.newlyAdmitted with
    | true =>
      rcases inside tensor mem_cons_self with ⟨isHeld, here⟩
      have present := loaded tensor mem_cons_self new
      subst here
      rw [if_pos rfl, wp_bind, wp_attempt]
      apply wp_mono (ok.wp_markReady isHeld present) _
        fun _ _ impossible => impossible.elim
      rintro _ middle ⟨marked, arenas⟩
      have loaded'' : ∀ other ∈ chunk, other.newlyAdmitted = true →
          LoadedAt store (middle.devices tensor.device).arena other.key other.offset := by
        rw [arenas]
        exact loaded'
      apply wp_mono (ih marked inside' loaded'') _ fun _ _ impossible => impossible
      rintro result last ⟨none, ok', arenas'⟩
      refine ⟨none, ok'.congr (.refl _) fun other _ => ?_,
        fun device => (arenas' device).trans (arenas device)⟩
      rw [mem_cons, or_assoc]
      apply or_congr_right
      constructor
      · rintro (rfl | ⟨member, isNew⟩)
        · exact ⟨.inl rfl, new⟩
        · exact ⟨.inr member, isNew⟩
      · rintro ⟨rfl | member, isNew⟩
        · exact .inl rfl
        · exact .inr ⟨member, isNew⟩
    | false =>
      apply wp_mono (ih ok inside' loaded') _ fun _ _ impossible => impossible
      rintro result last ⟨none, ok', arenas'⟩
      refine ⟨none, ok'.congr (.refl _) fun other _ => ?_, arenas'⟩
      rw [mem_cons]
      apply or_congr_right
      constructor
      · rintro ⟨member, isNew⟩
        exact ⟨.inr member, isNew⟩
      · rintro ⟨rfl | member, isNew⟩
        · rw [new] at isNew
          cases isNew
        · exact ⟨member, isNew⟩

/-- All chunks of devices that have succeeded are marked, which does not fail. -/
theorem Holds.wp_markChunks (succeeded : Fin n → Bool)
    (tagged : ∀ device, ∀ tensor ∈ chunks device, tensor.device = device) {rest : List (Fin n)}
    (distinct : rest.Nodup) (firstError : Option String)
    (ok : Holds store engine (flat chunks) fun tensor =>
      Uploaded tensor ∨ succeeded tensor.device = true ∧ tensor.device ∉ rest)
    (loaded : ∀ tensor ∈ flat chunks, tensor.newlyAdmitted = true →
      succeeded tensor.device = true →
      LoadedAt store (engine.devices tensor.device).arena tensor.key tensor.offset) :
    Fallible.wp (markChunks chunks rest firstError succeeded)
      (fun result engine' => result = (firstError, succeeded) ∧
        Holds store engine' (flat chunks)
          fun tensor => Uploaded tensor ∨ succeeded tensor.device = true)
      (fun _ _ => False) engine := by
  induction rest generalizing engine with
  | nil =>
    refine ⟨rfl, ok.congr (.refl _) fun tensor _ => or_congr_right ?_⟩
    exact and_iff_left not_mem_nil
  | cons device rest ih =>
    rcases nodup_cons.mp distinct with ⟨absent, distinct'⟩
    rw [markChunks]
    cases success : succeeded device with
    | true =>
      have inside : ∀ tensor ∈ chunks device, tensor ∈ flat chunks ∧ tensor.device = device :=
        fun tensor member => ⟨mem_flat.mpr ⟨device, member⟩, tagged device tensor member⟩
      have present : ∀ tensor ∈ chunks device, tensor.newlyAdmitted = true →
          LoadedAt store (engine.devices device).arena tensor.key tensor.offset := by
        intro tensor member new
        rcases inside tensor member with ⟨isHeld, rfl⟩
        exact loaded tensor isHeld new success
      apply wp_call (ok.wp_markChunk inside present)
      rintro result middle ⟨rfl, marked, arenas⟩
      apply ih distinct'
      · apply marked.congr (.refl _)
        intro tensor isHeld
        -- The chunk of the device has become ready, and the others are as before.
        rw [mem_cons, not_or]
        constructor
        · rintro ((old | ⟨done, _, behind⟩) | ⟨member, _⟩)
          · exact .inl old
          · exact .inr ⟨done, behind⟩
          · rw [tagged device tensor member]
            exact .inr ⟨success, absent⟩
        · rintro (old | ⟨done, behind⟩)
          · exact .inl (.inl old)
          · by_cases here : tensor.device = device
            · rcases mem_flat.mp isHeld with ⟨other, member⟩
              rw [← tagged other tensor member, here] at member
              cases new : tensor.newlyAdmitted with
              | true => exact .inr ⟨member, rfl⟩
              | false => exact .inl (.inl new)
            · exact .inl (.inr ⟨done, here, behind⟩)
      · intro tensor isHeld new done
        rw [arenas]
        exact loaded tensor isHeld new done
    | false =>
      apply ih distinct' _ loaded
      apply ok.congr (.refl _)
      intro tensor _
      apply or_congr_right
      apply and_congr_right
      intro done
      have elsewhere : tensor.device ≠ device := by
        intro here
        rw [here, success] at done
        cases done
      rw [mem_cons, or_iff_right elsewhere]

/-- After the uploads the tensors of the devices that have succeeded are ready, and
without an error those are all. -/
theorem Filled.wp_uploadDevices (filled : Filled store engine filling taken) :
    Fallible.wp (uploadDevices outcomes filling.chunks filling.uploads)
      (fun result engine' =>
        Holds store engine' (flat filling.chunks)
          (fun tensor => Uploaded tensor ∨ result.2 tensor.device = true) ∧
        match result.1 with
        | none => ∀ device, result.2 device = true
        | some error => ∃ device bytes, outcomes device = some (error, bytes))
      (fun _ _ => False) engine := by
  have start : Holds store (engine.uploadBatches outcomes filling.uploads) (flat filling.chunks)
      fun tensor => Uploaded tensor ∨
        (uploadErrors outcomes filling.uploads tensor.device).isNone = true ∧
          tensor.device ∉ finRange n := by
    apply filled.holds_uploadBatches.congr (.refl _)
    intro tensor _
    rw [or_iff_left]
    exact fun both => both.2 (mem_finRange _)
  apply wp_mono (Holds.wp_markChunks
    (fun device => (uploadErrors outcomes filling.uploads device).isNone) filled.tagged
    (nodup_finRange n) ((finRange n).findSome? (uploadErrors outcomes filling.uploads)) start
    fun tensor member new succeeded =>
      filled.loaded member new (Option.isNone_iff_eq_none.mp succeeded)) _
    fun _ _ impossible => impossible
  rintro result engine' ⟨rfl, ok⟩
  refine ⟨ok, ?_⟩
  cases first : (finRange n).findSome? (uploadErrors outcomes filling.uploads) with
  | none =>
    intro device
    have none := findSome?_eq_none_iff.mp first device (mem_finRange device)
    exact Option.isNone_iff_eq_none.mpr none
  | some error =>
    rcases exists_of_findSome?_eq_some first with ⟨device, _, failed⟩
    unfold uploadErrors at failed
    split at failed
    next => cases failed
    next =>
      rcases Option.map_eq_some_iff.mp failed with ⟨⟨message, bytes⟩, known, rfl⟩
      exact ⟨device, bytes, known⟩

/-- After a failed upload what is released was there before or has arrived. -/
theorem Holds.wp_cleanupAfterUploadFailure [Priority ρ] {succeeded : Fin n → Bool}
    (ok : Holds store engine (flat chunks)
      fun tensor => Uploaded tensor ∨ succeeded tensor.device = true) :
    Fallible.wp (cleanupAfterUploadFailure chunks succeeded)
      (fun _ engine' => Holds store engine' [] Uploaded) (fun _ _ => False) engine := by
  have safe : ∀ tensor ∈ flat chunks,
      (tensor.newlyAdmitted && (!succeeded tensor.device || tensor.transient)) = false →
      Uploaded tensor ∨ succeeded tensor.device = true := by
    intro tensor _ released
    cases new : tensor.newlyAdmitted with
    | false => exact .inl new
    | true =>
      rw [new, Bool.true_and, Bool.or_eq_false_iff, Bool.not_eq_false'] at released
      exact .inr released.1
  exact wp_mono (ok.wp_settle safe) (fun _ _ nothing => nothing.nil _)
    fun _ _ impossible => impossible

end

end Engine

end VectorChord.Tilemaxsimd
