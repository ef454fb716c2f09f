import VectorChord.Tilemaxsimd.HostAccounting

/-!
# Tensors are addressed by their content

Whatever `resolve_many` returns has the length of its descriptor.  If the digest of the
descriptor is proper, it also has that digest and is what the files of the contract have for
it: the host cache only has payloads that were checked before, and between proper digests its
keys determine the tensor.
-/

namespace VectorChord.Tilemaxsimd.Shards

open Codec Collections Transition List Fallible Table Option AList

/-! ## Host cache -/

namespace HostCache

variable {ρ : Type} {good : String → List UInt8 → Prop} {self : HostCache ρ}

/-- Every payload in the cache is good for its key. -/
def Keeps (good : String → List UInt8 → Prop) (self : HostCache ρ) : Prop :=
  ∀ key entry, self.entries.lookup key = some entry → good key entry.payload

theorem Keeps.get [Priority ρ] [KeyHash] (keeps : self.Keeps good) (key : String) :
    (self.get key).2.Keeps good ∧ ∀ payload, (self.get key).1 = some payload →
      good key payload := by
  unfold HostCache.get
  simp only
  cases found : self.entries.lookup key with
  | none =>
    constructor
    · exact keeps
    · intro payload hit
      cases hit
  | some entry =>
    constructor
    · intro other entry' found'
      rcases lookup_insert_iff.mp found' with ⟨rfl, rfl⟩ | ⟨_, found'⟩
      · exact keeps other entry found
      · exact keeps other entry' found'
    · intro payload hit
      cases hit
      exact keeps key entry found

theorem Keeps.remove (keeps : self.Keeps good) (key : String) : (self.remove key).Keeps good := by
  unfold HostCache.remove
  cases self.entries.lookup key with
  | none => exact keeps
  | some entry =>
    intro other entry' found
    exact keeps other entry' (lookup_erase_iff.mp found).2

theorem stable_keeps [Priority ρ] : Stable (Keeps (ρ := ρ) good) where
  evict _ key _ _ keeps := keeps.remove key
  reject _ keeps := keeps

variable {payload : List UInt8}

theorem Keeps.store [Priority ρ] (keeps : self.Keeps good) {key : String} (fits : good key payload)
    (tenant : String) (frequency : Nat) : (self.store tenant key frequency payload).Keeps good := by
  intro other entry found
  rcases lookup_insert_iff.mp found with ⟨rfl, rfl⟩ | ⟨_, found⟩
  · exact fits
  · exact keeps other entry found

theorem Keeps.put [HostPriority ρ] [KeyHash] [IterationOrder] (keeps : self.Keeps good)
    {key : String} (fits : good key payload) (tenant : String) :
    (self.put tenant key payload).Keeps good := by
  unfold HostCache.put
  split
  next => exact keeps
  next =>
    have first := (loops_makeTenantRoom tenant (max ((self.remove key).sketch.estimate key) 1)
      payload.length).keeps stable_keeps ((self.remove key).entries.keys.length + 1)
      (keeps.remove key)
    simp only
    split
    next tenantRoom =>
      rw [tenantRoom] at first
      exact first
    next _ roomy tenantRoom =>
      rw [tenantRoom] at first
      have second := (loops_makeRoom (max ((self.remove key).sketch.estimate key) 1)
        payload.length).keeps stable_keeps (roomy.entries.keys.length + 1) first
      split
      next room =>
        rw [room] at second
        exact second
      next room =>
        rw [room] at second
        exact second.store fits tenant _

end HostCache

/-! ## Slices -/

theorem readExactAt_eq_ok {file bytes : List UInt8} {offset length : Nat}
    (done : readExactAt file offset length = .ok bytes) :
    bytes = (file.drop offset).take length ∧ bytes.length = length := by
  unfold readExactAt at done
  split at done
  next none =>
    cases done
    rw [none]
    exact ⟨rfl, rfl⟩
  next =>
    obtain ⟨inside, done⟩ := require_eq_ok.mp done
    cases done
    constructor
    · rfl
    · rw [length_take, length_drop]
      omega

theorem sliceBetween_eq_some {bytes payload : List UInt8} {start stop : Nat}
    (done : sliceBetween bytes start stop = some payload) :
    start ≤ stop ∧ stop ≤ bytes.length ∧ payload = (bytes.drop start).take (stop - start) := by
  unfold sliceBetween at done
  split at done
  next inside =>
    cases done
    exact ⟨inside.1, inside.2, rfl⟩
  next => cases done

/-- Wrapping sums that are not below their first term have not wrapped. -/
theorem toNat_add_of_le {left right : UInt64} (ordered : left.toNat ≤ (left + right).toNat) :
    (left + right).toNat = left.toNat + right.toNat := by
  have bound := right.toNat_lt
  rw [UInt64.toNat_add] at ordered ⊢
  omega

/-! ## Ranges -/

/-- Items in the order of their offsets. -/
def Sorted (items : List Item) : Prop :=
  items.Pairwise fun left right => left.2.offset ≤ right.2.offset

theorem sorted_insertionSort (items : List Item) :
    Sorted (items.insertionSort fun left right => left.2.offset ≤ right.2.offset) := by
  have total : Std.Total fun left right : Item => left.2.offset ≤ right.2.offset :=
    ⟨fun _ _ => UInt64.le_total _ _⟩
  have trans : IsTrans Item fun left right => left.2.offset ≤ right.2.offset :=
    ⟨fun _ _ _ => UInt64.le_trans⟩
  exact pairwise_insertionSort _ items

/-- The items of a range and those behind it are the items that there were. -/
theorem extendRange_append (start stop : UInt64) (items : List Item) :
    (extendRange start stop items).2.1 ++ (extendRange start stop items).2.2 = items := by
  induction items generalizing stop with
  | nil => rfl
  | cons item items ih =>
    simp only [extendRange]
    split
    · rfl
    · exact congrArg (item :: ·) (ih _)

variable {items : List Item} {range : Range} {item : Item}

/-- Every item of a range is at or behind its start. -/
theorem start_le_of_mem_coalesce (sorted : Sorted items) (member : range ∈ coalesce items)
    (inside : item ∈ range.items) : item ∈ items ∧ range.start ≤ item.2.offset := by
  induction items using coalesce.induct with
  | case1 =>
    rw [coalesce] at member
    cases member
  | case2 first items extended ih =>
    have whole : extended.2.1 ++ extended.2.2 = items := extendRange_append _ _ _
    obtain ⟨least, sorted⟩ := pairwise_cons.mp sorted
    rw [coalesce] at member
    rcases mem_cons.mp member with rfl | later
    · rcases mem_cons.mp inside with rfl | among
      · exact ⟨mem_cons_self, UInt64.le_refl _⟩
      · have known : item ∈ items := by
          rw [← whole]
          exact mem_append_left _ among
        exact ⟨mem_cons_of_mem _ known, least item known⟩
    · have part : extended.2.2.Sublist items := by
        rw [← whole]
        exact sublist_append_right _ _
      obtain ⟨known, ordered⟩ := ih (sorted.sublist part) later
      exact ⟨mem_cons_of_mem _ (part.mem known), ordered⟩

theorem mem_of_mem_rangesOf (member : range ∈ rangesOf items) (inside : item ∈ range.items) :
    item ∈ items ∧ range.start ≤ item.2.offset := by
  obtain ⟨known, ordered⟩ := start_le_of_mem_coalesce (sorted_insertionSort items) member inside
  exact ⟨(mem_insertionSort _).mp known, ordered⟩

/-! ## Workers -/

/-- A payload that was cut out of a file for an item. -/
structure Cut [Sha256] (descriptors : List Descriptor) (file : List UInt8) (item : Item)
    (resolved : Nat × List UInt8) : Prop where
  index : resolved.1 = item.1
  checksum : ∃ descriptor, descriptors[item.1]? = some descriptor ∧
    Sha256.hex resolved.2 = descriptor.digest
  content : resolved.2 = (file.drop item.2.offset.toNat).take item.2.length.toNat
  length : resolved.2.length = item.2.length.toNat

section

variable [Sha256] {descriptors : List Descriptor} {file : List UInt8}
  {resolved : List (Nat × List UInt8)} {pair : Nat × List UInt8}

theorem cutItem_eq_ok {bytes : List UInt8} {item : Item} {resolved : Nat × List UInt8}
    (ordered : range.start ≤ item.2.offset)
    (read : bytes = (file.drop range.start.toNat).take bytes.length)
    (done : cutItem descriptors range.start bytes item = .ok resolved) :
    Cut descriptors file item resolved := by
  simp only [cutItem] at done
  split at done
  next payload descriptor slice known =>
    obtain ⟨same, done⟩ := guard_eq_ok.mp done
    cases done
    obtain ⟨low, high, content⟩ := sliceBetween_eq_some slice
    have sum := toNat_add_of_le low
    have start := UInt64.toNat_sub_of_le _ _ ordered
    have size : (item.2.offset - range.start + item.2.length).toNat -
        (item.2.offset - range.start).toNat = item.2.length.toNat := by
      rw [sum, Nat.add_sub_cancel_left]
    rw [size] at content
    refine ⟨rfl, ⟨descriptor, known, Decidable.not_not.mp same⟩, ?_, ?_⟩
    · have inside : item.2.offset.toNat - range.start.toNat + item.2.length.toNat ≤
          bytes.length := by
        rw [← start, ← sum]
        exact high
      rw [content, read, start, drop_take, take_take, drop_drop,
        Nat.add_sub_cancel' (UInt64.le_iff_toNat_le.mp ordered),
        min_eq_left (Nat.le_sub_of_add_le' inside)]
    · change payload.length = _
      rw [content, length_take, length_drop]
      omega
  next => cases done

theorem readRange_eq_ok (ordered : ∀ item ∈ range.items, range.start ≤ item.2.offset)
    (done : readRange descriptors file range = .ok resolved) (member : pair ∈ resolved) :
    ∃ item ∈ range.items, Cut descriptors file item pair := by
  unfold readRange at done
  simp only at done
  obtain ⟨_, done⟩ := guard_eq_ok.mp done
  split at done
  next => cases done
  next bytes read =>
    obtain ⟨item, inside, cut⟩ := exists_mem_of_mapM_eq_ok done member
    obtain ⟨content, length⟩ := readExactAt_eq_ok read
    rw [← length] at content
    exact ⟨item, inside, cutItem_eq_ok (ordered item inside) content cut⟩

omit [Sha256] in
theorem joinWorkers_eq_ok {workers : List (Except WorkerFailure (List (Nat × List UInt8)))}
    (done : joinWorkers workers = .ok resolved) (member : pair ∈ resolved) :
    ∃ part, .ok part ∈ workers ∧ pair ∈ part := by
  induction workers generalizing resolved with
  | nil =>
    cases done
    cases member
  | cons worker workers ih =>
    cases worker with
    | error failure =>
      cases failure <;>
      · simp only [joinWorkers] at done
        split at done <;> cases done
    | ok part =>
      obtain ⟨others, rest, done⟩ := bind_eq_ok.mp done
      cases done
      rcases mem_append.mp member with here | there
      · exact ⟨part, mem_cons_self, here⟩
      · obtain ⟨part', among, inside⟩ := ih rest there
        exact ⟨part', mem_cons_of_mem _ among, inside⟩

/-- What the workers read for a group was cut out for its items. -/
theorem readGroup_eq_ok {items : List Item}
    (done : readGroup descriptors file (rangesOf items) = .ok resolved) (member : pair ∈ resolved) :
    ∃ item ∈ items, Cut descriptors file item pair := by
  obtain ⟨part, among, inside⟩ := joinWorkers_eq_ok done member
  obtain ⟨chunk, chunked, worker⟩ := mem_map.mp among
  obtain ⟨parts, read, flat⟩ := bind_eq_ok.mp worker
  cases flat
  obtain ⟨part, among, inside⟩ := mem_flatten.mp inside
  obtain ⟨index, _, rfl⟩ := mem_map.mp chunked
  obtain ⟨range, member, read⟩ := exists_mem_of_mapM_eq_ok read among
  have known := mem_of_mem_drop (mem_of_mem_take member)
  obtain ⟨item, inside, cut⟩ := readRange_eq_ok
    (fun item inside => (mem_of_mem_rangesOf known inside).2) read inside
  exact ⟨item, (mem_of_mem_rangesOf known inside).1, cut⟩

end

/-! ## Contents -/

/-- The bytes that the files of a contract have for a digest. -/
def ContractStore.content (contract : ContractStore) (digest : String) : List UInt8 :=
  match contract.entries.lookup digest with
  | none => (openObject contract.root digest).toOption.getD []
  | some entry =>
    ((contract.shards.lookup entry.shard).map ShardFile.file).elim [] fun file =>
      (file.drop entry.offset.toNat).take entry.length.toNat

/-- The bytes that the files have for a reference. -/
def contentOf (contracts : Table String ContractStore) (contract digest : String) : List UInt8 :=
  (contracts.lookup contract).elim [] fun contract => contract.content digest

/-- A payload is that of its descriptor. -/
structure Proper [Sha256] (contracts : Table String ContractStore) (descriptor : Descriptor)
    (payload : List UInt8) : Prop where
  checksum : Sha256.hex payload = descriptor.digest
  length : shardTensorBytes descriptor.rows descriptor.dimension descriptor.dtype =
    .ok payload.length
  content : payload = contentOf contracts descriptor.contract descriptor.digest

/-- What a payload is known to be when it is returned: a key that was made from an improper
digest may be that of another tensor. -/
structure Served [Sha256] (contracts : Table String ContractStore) (descriptor : Descriptor)
    (payload : List UInt8) : Prop where
  length : shardTensorBytes descriptor.rows descriptor.dimension descriptor.dtype =
    .ok payload.length
  proper : isDigest descriptor.digest = true → Proper contracts descriptor payload

/-- A payload is proper for a descriptor with a key. -/
def Good [Sha256] (contracts : Table String ContractStore) (key : String)
    (payload : List UInt8) : Prop :=
  ∃ descriptor, cacheKey descriptor = key ∧ Proper contracts descriptor payload

section

variable [Sha256] {contracts : Table String ContractStore} {descriptor : Descriptor}
  {payload : List UInt8}

theorem Proper.served (proper : Proper contracts descriptor payload) :
    Served contracts descriptor payload :=
  ⟨proper.length, fun _ => proper⟩

/-- A payload with a checksum has a proper digest, so its key is not that of another tensor
with a proper digest. -/
theorem Good.served (good : Good contracts (cacheKey descriptor) payload) :
    Served contracts descriptor payload := by
  obtain ⟨other, equal, fits⟩ := good
  obtain ⟨_, rows, dimension, dtype⟩ := keyOf_shape equal
  have length := fits.length
  rw [rows, dimension, dtype] at length
  refine ⟨length, fun proper => ?_⟩
  have proper' : isDigest other.digest = true := by
    rw [← fits.checksum]
    exact Sha256.isDigest_hex payload
  obtain ⟨contract, digest⟩ := keyOf_reference proper' proper equal
  refine ⟨?_, length, ?_⟩
  · rw [← digest]
    exact fits.checksum
  · rw [← contract, ← digest]
    exact fits.content

end

/-- Two contracts with the same files; one of them may have verified more of them. -/
structure SameFiles (left right : ContractStore) : Prop where
  root : left.root = right.root
  entries : left.entries = right.entries
  shards : ∀ name, (left.shards.lookup name).map ShardFile.file =
    (right.shards.lookup name).map ShardFile.file

namespace ShardStore

variable {ρ : Type}

/-- The store has the contracts of its roots, and a cache of proper payloads. -/
structure Sound [Sha256] (roots : List (String × Root)) (contracts : Table String ContractStore)
    (store : ShardStore ρ) : Prop where
  fixed : store.roots = roots
  files : ∀ name contract, store.contracts.lookup name = some contract →
    ∃ opened, contracts.lookup name = some opened ∧ SameFiles contract opened
  cache : store.hostCache.Keeps (Good contracts)

/-- A program leaves the store sound even if it fails, and a result of it is good. -/
def Gives [Sha256] {α : Type} (roots : List (String × Root))
    (contracts : Table String ContractStore) (program : Fallible String (ShardStore ρ) α)
    (good : α → Prop) (self : ShardStore ρ) : Prop :=
  Fallible.wp program (fun value self => Sound roots contracts self ∧ good value)
    (fun _ => Sound roots contracts) self

/-- Every payload in the output is that of its descriptor. -/
structure Filled [Sha256] (contracts : Table String ContractStore) (descriptors : List Descriptor)
    (output : List (Option (List UInt8))) : Prop where
  length : output.length = descriptors.length
  served : ∀ (index : Nat) (payload : List UInt8), output[index]? = some (some payload) →
    ∃ descriptor, descriptors[index]? = some descriptor ∧ Served contracts descriptor payload

/-- An item has the entry of its descriptor. -/
structure Belongs (contracts : Table String ContractStore) (descriptors : List Descriptor)
    (contractName shardName : String) (item : Item) (descriptor : Descriptor)
    (contract : ContractStore) : Prop where
  known : descriptors[item.1]? = some descriptor
  named : descriptor.contract = contractName
  opened : contracts.lookup contractName = some contract
  listed : contract.entries.lookup descriptor.digest = some item.2
  shard : item.2.shard = shardName
  length : shardTensorBytes descriptor.rows descriptor.dimension descriptor.dtype =
    .ok item.2.length.toNat

/-- Every item of a group belongs to it. -/
def Group (contracts : Table String ContractStore) (descriptors : List Descriptor)
    (group : String × String) (items : List Item) : Prop :=
  ∀ item ∈ items, ∃ descriptor contract,
    Belongs contracts descriptors group.1 group.2 item descriptor contract

/-- What the first loop has found is right. -/
structure Located [Sha256] (contracts : Table String ContractStore) (descriptors : List Descriptor)
    (found : Found) : Prop where
  output : Filled contracts descriptors found.output
  groups : ∀ group items, found.groups.lookup group = some items →
    Group contracts descriptors group items

theorem checkEntry_eq_ok {descriptor : Descriptor} {entry : Entry} {value : Unit}
    (done : checkEntry entry descriptor = .ok value) :
    shardTensorBytes descriptor.rows descriptor.dimension descriptor.dtype =
      .ok entry.length.toNat := by
  unfold checkEntry at done
  obtain ⟨_, done⟩ := guard_eq_ok.mp done
  obtain ⟨bytes, counted, done⟩ := bind_eq_ok.mp done
  obtain ⟨same, done⟩ := guard_eq_ok.mp done
  rw [counted, Decidable.not_not.mp same]

section

variable [Sha256] {roots : List (String × Root)} {contracts : Table String ContractStore}
  {descriptors : List Descriptor} {self : ShardStore ρ} {index : Nat} {descriptor : Descriptor}
  {payload : List UInt8} {found : Found}

theorem filled_replicate :
    Filled contracts descriptors (List.replicate descriptors.length none) := by
  constructor
  · exact length_replicate
  · intro index payload known
    have absent := eq_of_mem_replicate (mem_of_getElem? known)
    cases absent

theorem Filled.set {output : List (Option (List UInt8))}
    (filled : Filled contracts descriptors output) (known : descriptors[index]? = some descriptor)
    (served : Served contracts descriptor payload) :
    Filled contracts descriptors (output.set index (some payload)) := by
  constructor
  · rw [length_set]
    exact filled.length
  · intro other payload' found
    rw [getElem?_set] at found
    split at found
    next same =>
      split at found
      next =>
        cases found
        exact ⟨descriptor, same ▸ known, served⟩
      next => cases found
    next => exact filled.served other payload' found

theorem Located.fill (located : Located contracts descriptors found)
    (known : descriptors[index]? = some descriptor) (served : Served contracts descriptor payload) :
    Located contracts descriptors (found.fill index payload) :=
  ⟨located.output.set known served, located.groups⟩

theorem Located.push {entry : Entry} {contract : ContractStore}
    (located : Located contracts descriptors found)
    (belongs : Belongs contracts descriptors descriptor.contract entry.shard (index, entry)
      descriptor contract) :
    Located contracts descriptors (found.push descriptor.contract (index, entry)) := by
  refine ⟨located.output, ?_⟩
  intro group items known
  rcases lookup_insert_iff.mp known with ⟨rfl, rfl⟩ | ⟨_, known⟩
  · intro item member
    rcases mem_append.mp member with before | last
    · cases earlier : found.groups.lookup (descriptor.contract, entry.shard) with
      | none =>
        rw [earlier] at before
        cases before
      | some items =>
        rw [earlier] at before
        exact located.groups _ items earlier item before
    · cases mem_singleton.mp last
      exact ⟨descriptor, contract, belongs⟩
  · exact located.groups group items known

variable {contractName shardName : String} {shard : ShardFile}
  {output : List (Option (List UInt8))} {items : List Item}

/-- What was cut out of the shard of a group is what the descriptor asks for. -/
theorem Group.proper (group : Group contracts descriptors (contractName, shardName) items)
    {contract opened : ContractStore} (listed : contracts.lookup contractName = some opened)
    (same : SameFiles contract opened) (sharded : contract.shards.lookup shardName = some shard)
    {item : Item} (member : item ∈ items) {pair : Nat × List UInt8}
    (cut : Cut descriptors shard.file item pair) :
    ∃ descriptor, descriptors[pair.1]? = some descriptor ∧ Proper contracts descriptor pair.2 := by
  obtain ⟨descriptor, contract', belongs⟩ := group item member
  obtain ⟨descriptor', known, checksum⟩ := cut.checksum
  cases belongs.known.symm.trans known
  cases belongs.opened.symm.trans listed
  have file : (opened.shards.lookup item.2.shard).map ShardFile.file = some shard.file := by
    rw [belongs.shard, ← same.shards, sharded]
    rfl
  refine ⟨descriptor, ?_, checksum, ?_, ?_⟩
  · rw [cut.index]
    exact known
  · rw [cut.length]
    exact belongs.length
  · rw [contentOf, belongs.named, listed, cut.content]
    simp only [elim_some, ContractStore.content, belongs.listed, file]

/-- An output without holes has a payload for every descriptor. -/
theorem Filled.forall₂ {payloads : List (List UInt8)} (filled : Filled contracts descriptors output)
    (done : (output.mapM fun payload =>
      payload.elim (throw "tensor resolution produced no payload" : Except String _) pure) =
        .ok payloads) : List.Forall₂ (Served contracts) descriptors payloads := by
  have whole : output = payloads.map some := by
    have all := mapM_eq_ok done
    clear done filled
    induction all with
    | nil => rfl
    | @cons payload _ _ _ first _ ih =>
      cases payload with
      | none => cases first
      | some payload =>
        cases first
        exact congrArg (some _ :: ·) ih
  have length := filled.length
  rw [whole, length_map] at length
  apply forall₂_iff_get.mpr
  refine ⟨length.symm, fun index low high => ?_⟩
  have known : output[index]? = some (some (payloads.get ⟨index, high⟩)) := by
    rw [whole, getElem?_map, getElem?_eq_getElem high]
    rfl
  obtain ⟨descriptor, there, served⟩ := filled.served index _ known
  rw [getElem?_eq_getElem low] at there
  cases there
  exact served

/-- The counters do not matter. -/
theorem Sound.counted (sound : Sound roots contracts self) (calls bytes : Nat) :
    Sound roots contracts { self with batchReadCalls := calls, batchReadBytes := bytes } :=
  ⟨sound.fixed, sound.files, sound.cache⟩

theorem Sound.wp_verify (sound : Sound roots contracts self) {contract : ContractStore}
    (contracted : self.contracts.lookup contractName = some contract)
    (sharded : contract.shards.lookup shardName = some shard) :
    Fallible.wp (verify contractName shardName contract shard) (fun _ => Sound roots contracts)
      (fun _ => Sound roots contracts) self := by
  unfold verify
  rw [wp_bind_get]
  split
  next =>
    cases verified : verifyShard shard with
    | error message => exact sound
    | ok shard' =>
      have file : shard'.file = shard.file := by
        unfold verifyShard at verified
        split at verified
        next =>
          cases verified
          rfl
        next =>
          obtain ⟨_, _, verified⟩ := bind_eq_ok.mp verified
          obtain ⟨_, verified⟩ := guard_eq_ok.mp verified
          cases verified
          rfl
      refine ⟨sound.fixed, ?_, sound.cache⟩
      intro name contract' found
      rcases lookup_insert_iff.mp found with ⟨rfl, rfl⟩ | ⟨_, found⟩
      · obtain ⟨opened, listed, same⟩ := sound.files _ _ contracted
        refine ⟨opened, listed, same.root, same.entries, ?_⟩
        intro name
        rw [← same.shards name]
        by_cases here : name = shardName
        · rw [here, lookup_insert, sharded]
          exact congrArg some file
        · rw [lookup_insert_ne here]
      · exact sound.files name contract' found
  next => exact sound

/-! ## Resolution -/

variable [HostPriority ρ] [KeyHash] [IterationOrder]

theorem Sound.wp_keep (sound : Sound roots contracts self) {payload : List UInt8}
    (proper : Proper contracts descriptor payload) (tenant : String) :
    Fallible.wp (keep tenant descriptor payload) (fun _ => Sound roots contracts)
      (fun _ => Sound roots contracts) self :=
  ⟨sound.fixed, sound.files, sound.cache.put ⟨descriptor, rfl, proper⟩ tenant⟩

theorem Sound.wp_resolveObject (sound : Sound roots contracts self) {opened : ContractStore}
    (known : contracts.lookup descriptor.contract = some opened)
    (absent : opened.entries.lookup descriptor.digest = none) (tenant : String) :
    Gives roots contracts (resolveObject tenant descriptor opened.root)
      (Proper contracts descriptor) self := by
  unfold Gives resolveObject
  rw [wp_bind, wp_lift]
  cases expected : shardTensorBytes descriptor.rows descriptor.dimension descriptor.dtype with
  | error message => exact sound
  | ok bytes =>
    simp only
    rw [wp_bind, wp_lift]
    cases read : openObject opened.root descriptor.digest with
    | error message => exact sound
    | ok payload =>
      simp only
      rw [wp_require_bind]
      refine ⟨fun length => ?_, fun _ => sound⟩
      rw [wp_require_bind]
      refine ⟨fun checksum => ?_, fun _ => sound⟩
      have proper : Proper contracts descriptor payload := by
        refine ⟨checksum, ?_, ?_⟩
        · rw [expected, length]
        · simp only [contentOf, known, elim_some, ContractStore.content, absent, read,
            Except.toOption, getD_some]
      rw [wp_bind_modify]
      apply wp_seq ((sound.counted _ _).wp_keep proper tenant)
      intro _ self' sound'
      exact ⟨sound', proper⟩

theorem Sound.wp_locate (sound : Sound roots contracts self)
    (located : Located contracts descriptors found) (known : descriptors[index]? = some descriptor)
    (tenant : String) :
    Gives roots contracts (locate tenant index descriptor found)
      (Located contracts descriptors) self := by
  unfold Gives locate
  rw [wp_bind_get]
  cases contracted : self.contracts.lookup descriptor.contract with
  | none => exact sound
  | some contract =>
    obtain ⟨opened, listed, same⟩ := sound.files _ _ contracted
    simp only [same.root, same.entries]
    cases entered : opened.entries.lookup descriptor.digest with
    | none =>
      apply wp_seq (sound.wp_resolveObject listed entered tenant)
      intro payload self' both
      exact ⟨both.1, located.fill known both.2.served⟩
    | some entry =>
      rw [wp_bind, wp_lift]
      cases checked : checkEntry entry descriptor with
      | error message => exact sound
      | ok value =>
        exact ⟨sound, located.push
          ⟨known, rfl, listed, entered, rfl, checkEntry_eq_ok checked⟩⟩

theorem Sound.wp_locateAll (sound : Sound roots contracts self)
    (located : Located contracts descriptors found) {rest : List Descriptor}
    (ahead : descriptors.drop index = rest) (tenant : String) :
    Gives roots contracts (locateAll tenant index rest found)
      (Located contracts descriptors) self := by
  induction rest generalizing index found self with
  | nil => exact ⟨sound, located⟩
  | cons descriptor rest ih =>
    obtain ⟨known, ahead'⟩ := of_drop_eq_cons ahead
    obtain ⟨keeps, hit⟩ := sound.cache.get (cacheKey descriptor)
    have looked : Sound roots contracts { self with
        hostCache := (self.hostCache.get (cacheKey descriptor)).2 } :=
      ⟨sound.fixed, sound.files, keeps⟩
    unfold Gives locateAll
    rw [wp_bind, wp_act]
    cases cached : (self.hostCache.get (cacheKey descriptor)).1 with
    | some payload =>
      have served := (hit payload cached).served
      exact ih looked (located.fill known served) ahead'
    | none =>
      apply wp_seq (looked.wp_locate located known tenant)
      intro found' self' both
      exact ih both.1 both.2 ahead'

theorem Sound.wp_keepAll (sound : Sound roots contracts self) {resolved : List (Nat × List UInt8)}
    (filled : Filled contracts descriptors output)
    (proper : ∀ pair ∈ resolved, ∃ descriptor, descriptors[pair.1]? = some descriptor ∧
      Proper contracts descriptor pair.2) (tenant : String) :
    Gives roots contracts (keepAll tenant descriptors resolved output)
      (Filled contracts descriptors) self := by
  induction resolved generalizing output self with
  | nil => exact ⟨sound, filled⟩
  | cons pair resolved ih =>
    obtain ⟨descriptor, known, fits⟩ := proper pair mem_cons_self
    simp only [keepAll, known]
    apply wp_seq (sound.wp_keep fits tenant)
    intro _ self' sound'
    apply ih sound' (filled.set known fits.served)
    intro other member
    exact proper other (mem_cons_of_mem _ member)

theorem Sound.wp_resolveGroup (sound : Sound roots contracts self)
    (filled : Filled contracts descriptors output)
    (group : Group contracts descriptors (contractName, shardName) items) (tenant : String) :
    Gives roots contracts (resolveGroup tenant descriptors contractName shardName items output)
      (Filled contracts descriptors) self := by
  unfold Gives resolveGroup
  rw [wp_bind_get]
  cases contracted : self.contracts.lookup contractName with
  | none => exact sound
  | some contract =>
    simp only
    cases sharded : contract.shards.lookup shardName with
    | none => exact sound
    | some shard =>
      obtain ⟨opened, listed, same⟩ := sound.files _ _ contracted
      apply wp_seq (sound.wp_verify contracted sharded)
      intro _ self' sound'
      rw [wp_bind, wp_lift]
      cases read : readGroup descriptors shard.file (rangesOf items) with
      | error message => exact sound'
      | ok resolved =>
        simp only
        apply (sound'.counted _ _).wp_keepAll filled
        intro pair member
        obtain ⟨item, inside, cut⟩ := readGroup_eq_ok read member
        exact group.proper listed same sharded inside cut

theorem Sound.wp_resolveGroups (sound : Sound roots contracts self)
    (filled : Filled contracts descriptors output)
    {groups : List ((_ : String × String) × List Item)}
    (all : ∀ group ∈ groups, Group contracts descriptors group.1 group.2) (tenant : String) :
    Gives roots contracts (resolveGroups tenant descriptors groups output)
      (Filled contracts descriptors) self := by
  induction groups generalizing output self with
  | nil => exact ⟨sound, filled⟩
  | cons group groups ih =>
    apply wp_seq (sound.wp_resolveGroup filled (all group mem_cons_self) tenant)
    intro output' self' both
    apply ih both.1 both.2
    intro other member
    exact all other (mem_cons_of_mem _ member)

/-- `resolve_many` serves its descriptors and keeps the cache proper, even if it fails. -/
theorem Sound.wp_resolveMany (sound : Sound roots contracts self) (descriptors : List Descriptor)
    (tenant : String) :
    Gives roots contracts (resolveMany descriptors tenant)
      (List.Forall₂ (Served contracts) descriptors) self := by
  have start : Located contracts descriptors ⟨replicate descriptors.length none, ∅⟩ := by
    refine ⟨filled_replicate, ?_⟩
    intro group items known
    cases known
  apply wp_seq (sound.wp_locateAll start drop_zero tenant)
  intro found self' both
  obtain ⟨sound', located⟩ := both
  have groups : ∀ group ∈ IterationOrder.arrange found.groups.entries,
      Group contracts descriptors group.1 group.2 := by
    intro group member
    have inside := (IterationOrder.perm _).mem_iff.mp member
    exact located.groups group.1 group.2 (mem_lookup_iff.mpr inside)
  apply wp_seq (sound'.wp_resolveGroups located.output groups tenant)
  intro output self'' both
  rw [wp_lift]
  split
  next payloads done => exact ⟨both.1, both.2.forall₂ done⟩
  next => exact both.1

theorem Sound.forall₂ (sound : Sound roots contracts self) {descriptors : List Descriptor}
    {tenant : String} {payloads : List (List UInt8)}
    (done : ((resolveMany descriptors tenant).step self).1 = .ok payloads) :
    List.Forall₂ (Served contracts) descriptors payloads := by
  have whole : (resolveMany descriptors tenant).step self = (.ok payloads, _) := Prod.ext done rfl
  exact ((wp_of_step_ok whole).mp (sound.wp_resolveMany descriptors tenant)).2

/-- For the descriptors of frames the store refines one that has the bytes behind each reference
and may fail. -/
theorem Sound.refines (sound : Sound roots contracts self)
    (descriptors : List Tilemaxsimd.Descriptor) (tenant : String) :
    ∃ failure, Tilemaxsimd.ShardStore.resolveMany
        ⟨fun contract digest => contentOf contracts contract digest.1⟩ failure descriptors =
      ((resolveMany (descriptors.map ofFrame) tenant).step self).1 := by
  cases done : ((resolveMany (descriptors.map ofFrame) tenant).step self).1 with
  | error message => exact ⟨some message, rfl⟩
  | ok payloads =>
    refine ⟨none, ?_⟩
    have all := forall₂_map_left_iff.mp (sound.forall₂ done)
    clear done
    change mapM _ descriptors = _
    induction all with
    | nil => rfl
    | @cons descriptor _ _ _ served _ ih =>
      rw [mapM_cons, bind_eq_ok]
      refine ⟨_, ?_, bind_eq_ok.mpr ⟨_, ih, rfl⟩⟩
      have proper := served.proper descriptor.digest.2
      have length : shardTensorBytes descriptor.rows descriptor.dimension descriptor.dtype = _ :=
        proper.length
      rw [Tilemaxsimd.ShardStore.resolve, length, proper.content]
      exact if_neg fun different => different rfl

end

/-! ## Runs -/

/-- A call of the engine. -/
inductive Call where
  | resolveMany (descriptors : List Descriptor) (tenant : String)
  | reload

section

variable [HostPriority ρ] [KeyHash] [IterationOrder] [Sha256] [IndexFormat]
  {roots : List (String × Root)} {contracts : Table String ContractStore} {self : ShardStore ρ}

/-- Serve a call; `reload` returns nothing. -/
def serve : Call → Fallible String (ShardStore ρ) (List (List UInt8))
  | .resolveMany descriptors tenant => resolveMany descriptors tenant
  | .reload => do
    reload
    pure []

/-- The store as it is called. -/
def machine : Machine (ShardStore ρ) Call (Except String (List (List UInt8))) where
  step self call := (((serve call).step self).2, ((serve call).step self).1)

omit [HostPriority ρ] [KeyHash] [IterationOrder] [Sha256] in
theorem foldlM_reopenRoot [DebugText] {start : Table String ContractStore}
    (opened : roots.foldlM openRoot start = .ok contracts) :
    roots.foldlM reopenRoot start = .ok contracts := by
  induction roots generalizing start with
  | nil => exact opened
  | cons root roots ih =>
    obtain ⟨next, first, rest⟩ := bind_eq_ok.mp opened
    have same : reopenRoot start root = .ok next := by
      unfold openRoot at first
      obtain ⟨_, first⟩ := guard_eq_ok.mp first
      exact first
    exact bind_eq_ok.mpr ⟨next, same, ih rest⟩

omit [KeyHash] [IterationOrder] in
theorem sound_open [DebugText] {hostCacheBytes hostTenantMaxPercent : Nat}
    {verifyFullShards : Bool}
    (opened : ShardStore.open roots hostCacheBytes hostTenantMaxPercent verifyFullShards =
      .ok self) :
    ∃ contracts, roots.foldlM reopenRoot ∅ = .ok contracts ∧ Sound roots contracts self := by
  obtain ⟨contracts, all, opened⟩ := bind_eq_ok.mp opened
  obtain ⟨_, opened⟩ := guard_eq_ok.mp opened
  cases opened
  refine ⟨contracts, foldlM_reopenRoot all, rfl, ?_, nofun⟩
  intro name contract found
  exact ⟨contract, found, rfl, rfl, fun _ => rfl⟩

section

variable (opened : roots.foldlM reopenRoot ∅ = .ok contracts) (sound : Sound roots contracts self)

include opened sound

omit [HostPriority ρ] [KeyHash] [IterationOrder] in
theorem Sound.wp_reload :
    Fallible.wp reload (fun _ => Sound roots contracts) (fun _ => Sound roots contracts) self := by
  unfold reload
  rw [wp_bind_get, sound.fixed, opened]
  refine ⟨rfl, ?_, sound.cache⟩
  intro name contract found
  exact ⟨contract, found, rfl, rfl, fun _ => rfl⟩

theorem Sound.step (call : Call) :
    Sound roots contracts (machine.step self call).1 := by
  apply state_of_wp
  cases call with
  | resolveMany descriptors tenant =>
    apply wp_mono (sound.wp_resolveMany descriptors tenant)
    · intro _ _ both
      exact both.1
    · intro _ _ sound'
      exact sound'
  | reload =>
    rw [serve, wp_bind]
    exact sound.wp_reload opened

theorem Sound.run (calls : List Call) :
    Sound roots contracts (machine.run self calls) :=
  Machine.run_invariant (fun _ call sound => sound.step opened call) sound calls

end

end

end ShardStore

/-! ## Ranges of an index -/

/-- The entry that an index gives. -/
def RawEntry.entry (raw : RawEntry) (dtype : Nat) : Entry :=
  ⟨raw.shard, raw.offset, raw.length, raw.rows, raw.dimension, dtype⟩

/-- The tensors of a contract lie inside their shards, so every slice that is taken from a range
of any group of them is in bounds. -/
structure ContractStore.Contained (contract : ContractStore) : Prop where
  inside : ∀ digest entry, contract.entries.lookup digest = some entry →
    ∃ shard, contract.shards.lookup entry.shard = some shard ∧
      entry.offset.toNat + entry.length.toNat ≤ shard.file.length
  slices : ∀ (items : List Item) (shard : ShardFile),
    (∀ item ∈ items, contract.shards.lookup item.2.shard = some shard ∧
      ∃ digest, contract.entries.lookup digest = some item.2) →
    ∀ range ∈ rangesOf items, ∃ bytes,
      readExactAt shard.file range.start.toNat (range.stop - range.start).toNat = .ok bytes ∧
      ∀ item ∈ range.items,
        (sliceBetween bytes (item.2.offset - range.start).toNat
          (item.2.offset - range.start + item.2.length).toNat).isSome

/-- No tensor of the index ends beyond the range of `u64`. -/
def Unwrapped [IndexFormat] (root : Root) : Prop :=
  ∀ raw, readIndex root = .ok (some raw) →
    ∀ entry ∈ raw.entries, entry.offset.toNat + entry.length.toNat < 2 ^ 64

section

variable {shards : Table String ShardFile}

/-- A shard has the size that the index gives. -/
def Sized (shards : Table String ShardFile) : Prop :=
  ∀ name shard, shards.lookup name = some shard → shard.file.length = shard.size.toNat

theorem sized_openShards {root : Root} {raw : List RawShard} {start : Table String ShardFile}
    (sized : Sized start) (done : raw.foldlM (openShard root) start = .ok shards) :
    Sized shards := by
  induction raw generalizing start with
  | nil =>
    cases done
    exact sized
  | cons first raw ih =>
    obtain ⟨next, opened, done⟩ := bind_eq_ok.mp done
    apply ih _ done
    unfold openShard at opened
    split at opened
    next => cases opened
    next =>
      obtain ⟨_, opened⟩ := guard_eq_ok.mp opened
      obtain ⟨file, _, opened⟩ := bind_eq_ok.mp opened
      obtain ⟨same, opened⟩ := guard_eq_ok.mp opened
      obtain ⟨_, opened⟩ := guard_eq_ok.mp opened
      cases opened
      intro name shard found
      rcases lookup_insert_iff.mp found with ⟨_, rfl⟩ | ⟨_, found⟩
      · exact Decidable.not_not.mp same
      · exact sized name shard found

/-- An entry that the loop accepts, with the wrapping sum that it checks. -/
theorem openEntry_eq_ok {alignment : UInt64} {entries entries' : Table String Entry}
    {raw : RawEntry} (done : openEntry alignment shards entries raw = .ok entries') :
    raw.digest ∉ entries ∧ ∃ dtype shard, shards.lookup raw.shard = some shard ∧
      ¬ shard.size < raw.offset + raw.length ∧
      entries' = entries.insert raw.digest (raw.entry dtype) := by
  obtain ⟨dtype, _, done⟩ := bind_eq_ok.mp done
  split at done
  next => cases done
  next shard known =>
    obtain ⟨_, done⟩ := guard_eq_ok.mp done
    obtain ⟨bytes, _, done⟩ := bind_eq_ok.mp done
    obtain ⟨within, done⟩ := guard_eq_ok.mp done
    obtain ⟨fresh, done⟩ := guard_eq_ok.mp done
    cases done
    exact ⟨fresh, dtype, shard, known, fun outside => within (.inr outside), rfl⟩

/-- What the loop over entries has accepted. -/
structure Listed (shards : Table String ShardFile) (raw : List RawEntry)
    (start entries : Table String Entry) : Prop where
  earlier : ∀ digest entry, start.lookup digest = some entry → entries.lookup digest = some entry
  each : ∀ entry ∈ raw, ∃ dtype, entries.lookup entry.digest = some (entry.entry dtype)
  only : ∀ digest entry, entries.lookup digest = some entry → start.lookup digest = some entry ∨
    ∃ raw' ∈ raw, ∃ dtype shard, entry = raw'.entry dtype ∧
      shards.lookup raw'.shard = some shard ∧ ¬ shard.size < raw'.offset + raw'.length

theorem listed_openEntries {alignment : UInt64} {raw : List RawEntry}
    {start entries : Table String Entry}
    (done : raw.foldlM (openEntry alignment shards) start = .ok entries) :
    Listed shards raw start entries := by
  induction raw generalizing start with
  | nil =>
    cases done
    constructor
    · exact fun _ _ known => known
    · intro entry member
      cases member
    · exact fun _ _ known => .inl known
  | cons first raw ih =>
    obtain ⟨next, opened, done⟩ := bind_eq_ok.mp done
    obtain ⟨fresh, dtype, shard, known, within, rfl⟩ := openEntry_eq_ok opened
    have rest := ih done
    constructor
    · intro digest entry found
      apply rest.earlier
      rw [lookup_insert_ne, found]
      rintro rfl
      exact fresh (mem_iff_lookup.mpr ⟨entry, found⟩)
    · intro entry member
      rcases mem_cons.mp member with rfl | later
      · exact ⟨dtype, rest.earlier _ _ (lookup_insert _)⟩
      · exact rest.each entry later
    · intro digest entry found
      rcases rest.only digest entry found with before | ⟨raw', member, others⟩
      · rcases lookup_insert_iff.mp before with ⟨_, rfl⟩ | ⟨_, before⟩
        · exact .inr ⟨first, mem_cons_self, dtype, shard, rfl, known, within⟩
        · exact .inl before
      · exact .inr ⟨raw', mem_cons_of_mem _ member, others⟩

end

/-- A sum in range does not wrap. -/
theorem toNat_add_of_lt {left right : UInt64} (small : left.toNat + right.toNat < 2 ^ 64) :
    (left + right).toNat = left.toNat + right.toNat := by
  rw [UInt64.toNat_add, Nat.mod_eq_of_lt small]

/-- The larger of two offsets. -/
theorem max_offset (left right : UInt64) : left ≤ max left right ∧ right ≤ max left right ∧
    (max left right = left ∨ max left right = right) := by
  change left ≤ (if left ≤ right then right else left) ∧
    right ≤ (if left ≤ right then right else left) ∧
    ((if left ≤ right then right else left) = left ∨
      (if left ≤ right then right else left) = right)
  split
  next ordered => exact ⟨ordered, UInt64.le_refl _, .inr rfl⟩
  next reversed =>
    exact ⟨UInt64.le_refl _, (UInt64.le_total _ _).resolve_left reversed, .inl rfl⟩

/-- The end of a range is that of one of its items, and behind all of them. -/
theorem extendRange_stop (start stop : UInt64) (items : List Item) :
    stop ≤ (extendRange start stop items).1 ∧
      (∀ item ∈ (extendRange start stop items).2.1,
        item.2.offset + item.2.length ≤ (extendRange start stop items).1) ∧
      ((extendRange start stop items).1 = stop ∨
        ∃ item ∈ (extendRange start stop items).2.1,
          (extendRange start stop items).1 = item.2.offset + item.2.length) := by
  induction items generalizing stop with
  | nil =>
    refine ⟨UInt64.le_refl _, ?_, .inl rfl⟩
    intro item member
    cases member
  | cons item items ih =>
    simp only [extendRange]
    split
    · refine ⟨UInt64.le_refl _, ?_, .inl rfl⟩
      intro item member
      cases member
    · obtain ⟨behind, all, last⟩ := ih (max stop (item.2.offset + item.2.length))
      obtain ⟨left, right, choice⟩ := max_offset stop (item.2.offset + item.2.length)
      refine ⟨UInt64.le_trans left behind, ?_, ?_⟩
      · intro other member
        rcases mem_cons.mp member with rfl | inside
        · exact UInt64.le_trans right behind
        · exact all other inside
      · rcases last with same | ⟨other, member, same⟩
        · rcases choice with before | here
          · exact .inl (same.trans before)
          · exact .inr ⟨item, mem_cons_self, same.trans here⟩
        · exact .inr ⟨other, mem_cons_of_mem _ member, same⟩

/-- The end of a range is behind all of its items and the end of one. -/
theorem stop_of_mem_coalesce (member : range ∈ coalesce items) :
    (∀ item ∈ range.items, item.2.offset + item.2.length ≤ range.stop) ∧
      ∃ item ∈ range.items, range.stop = item.2.offset + item.2.length := by
  induction items using coalesce.induct with
  | case1 =>
    rw [coalesce] at member
    cases member
  | case2 first items extended ih =>
    rw [coalesce] at member
    rcases mem_cons.mp member with rfl | later
    · obtain ⟨behind, all, last⟩ := extendRange_stop first.2.offset
        (first.2.offset + first.2.length) items
      constructor
      · intro item inside
        rcases mem_cons.mp inside with rfl | among
        · exact behind
        · exact all item among
      · rcases last with same | ⟨item, among, same⟩
        · exact ⟨first, mem_cons_self, same⟩
        · exact ⟨item, mem_cons_of_mem _ among, same⟩
    · exact ih later

/-- Ranges of tensors inside a file can be read and cut. -/
theorem slices_of_inside {file : List UInt8} (small : file.length < 2 ^ 64)
    (inside : ∀ item ∈ items, item.2.offset.toNat + item.2.length.toNat ≤ file.length)
    (member : range ∈ rangesOf items) :
    ∃ bytes, readExactAt file range.start.toNat (range.stop - range.start).toNat = .ok bytes ∧
      ∀ item ∈ range.items,
        (sliceBetween bytes (item.2.offset - range.start).toNat
          (item.2.offset - range.start + item.2.length).toNat).isSome := by
  obtain ⟨behind, last, among, ends⟩ := stop_of_mem_coalesce member
  have exact_end : ∀ item ∈ range.items, range.start.toNat ≤ item.2.offset.toNat ∧
      (item.2.offset + item.2.length).toNat = item.2.offset.toNat + item.2.length.toNat ∧
      item.2.offset.toNat + item.2.length.toNat ≤ file.length := by
    intro item here
    obtain ⟨known, ordered⟩ := mem_of_mem_rangesOf member here
    have within := inside item known
    exact ⟨UInt64.le_iff_toNat_le.mp ordered, toNat_add_of_lt (lt_of_le_of_lt within small),
      within⟩
  obtain ⟨before, whole, within⟩ := exact_end last among
  have stop : range.stop.toNat = last.2.offset.toNat + last.2.length.toNat := by
    rw [ends, whole]
  have size : (range.stop - range.start).toNat = range.stop.toNat - range.start.toNat := by
    apply UInt64.toNat_sub_of_le
    apply UInt64.le_iff_toNat_le.mpr
    omega
  have readable : ∃ bytes, readExactAt file range.start.toNat (range.stop - range.start).toNat =
      .ok bytes := by
    unfold readExactAt
    split
    · exact ⟨_, rfl⟩
    · rw [if_pos (by omega)]
      exact ⟨_, rfl⟩
  obtain ⟨bytes, read⟩ := readable
  refine ⟨bytes, read, ?_⟩
  have length := (readExactAt_eq_ok read).2
  intro item here
  obtain ⟨before, whole, within⟩ := exact_end item here
  have reached := UInt64.le_iff_toNat_le.mp (behind item here)
  have start := UInt64.toNat_sub_of_le _ _ (UInt64.le_iff_toNat_le.mpr before)
  have sum : (item.2.offset - range.start + item.2.length).toNat =
      (item.2.offset - range.start).toNat + item.2.length.toNat := by
    apply toNat_add_of_lt
    omega
  unfold sliceBetween
  rw [if_pos (by omega)]
  rfl

/-- The tensors of a contract lie inside their shards unless a sum has wrapped. -/
theorem contained_iff_unwrapped [IndexFormat] {root : Root} {contract : ContractStore}
    (opened : openContract root = .ok contract) : contract.Contained ↔ Unwrapped root := by
  obtain ⟨index, read, opened⟩ := bind_eq_ok.mp opened
  cases index with
  | none =>
    cases opened
    constructor
    · intro _ raw read'
      rw [read] at read'
      cases read'
    · intro _
      constructor
      · intro digest entry found
        cases found
      · intro items shard all range member
        obtain ⟨_, last, among, _⟩ := stop_of_mem_coalesce member
        obtain ⟨_, digest, found⟩ := all last (mem_of_mem_rangesOf member among).1
        cases found
  | some raw =>
    obtain ⟨_, _, opened⟩ := bind_eq_ok.mp opened
    obtain ⟨shards, sharded, opened⟩ := bind_eq_ok.mp opened
    obtain ⟨entries, entered, opened⟩ := bind_eq_ok.mp opened
    cases opened
    have sized : Sized shards := sized_openShards (fun _ _ found => by cases found) sharded
    have listed := listed_openEntries entered
    constructor
    · intro contained raw' read' entry member
      rw [read] at read'
      cases read'
      obtain ⟨dtype, found⟩ := listed.each entry member
      obtain ⟨shard, known, within⟩ := contained.inside _ _ found
      rw [sized _ _ known] at within
      exact lt_of_le_of_lt within shard.size.toNat_lt
    · intro unwrapped
      have inside : ∀ digest entry, entries.lookup digest = some entry →
          ∃ shard, shards.lookup entry.shard = some shard ∧
            entry.offset.toNat + entry.length.toNat ≤ shard.file.length := by
        intro digest entry found
        rcases listed.only digest entry found with none | ⟨raw', member, dtype, shard, same, rest⟩
        · cases none
        · obtain ⟨known, within⟩ := rest
          cases same
          refine ⟨shard, known, ?_⟩
          have small := unwrapped raw read raw' member
          have checked := Nat.le_of_not_lt (mt UInt64.lt_iff_toNat_lt.mpr within)
          rw [toNat_add_of_lt small] at checked
          rw [sized _ _ known]
          exact checked
      refine ⟨inside, ?_⟩
      intro items shard all range member
      obtain ⟨_, last, among, _⟩ := stop_of_mem_coalesce member
      have known := (all last (mem_of_mem_rangesOf member among).1).1
      apply slices_of_inside _ _ member
      · rw [sized _ _ known]
        exact shard.size.toNat_lt
      · intro item among
        obtain ⟨known, digest, found⟩ := all item among
        obtain ⟨shard', known', within⟩ := inside digest item.2 found
        cases known.symm.trans known'
        exact within

/-- Whatever a store returns after any calls has the length of its descriptor, and the digest of
its descriptor if that is proper.  The tensors of an index that is accepted lie inside their
shards, and can be cut out of every range that is read, exactly if none of its sums wraps. -/
theorem resolveMany_contentAddressed {ρ : Type} [HostPriority ρ] [KeyHash] [IterationOrder]
    [Sha256] [IndexFormat] [DebugText] :
    (∀ (roots : List (String × Root)) (hostCacheBytes hostTenantMaxPercent : Nat)
        (verifyFullShards : Bool) (store : ShardStore ρ),
      ShardStore.open roots hostCacheBytes hostTenantMaxPercent verifyFullShards = .ok store →
      ∀ (calls : List ShardStore.Call) (descriptors : List Descriptor) (tenant : String)
        (payloads : List (List UInt8)),
      ((ShardStore.resolveMany descriptors tenant).step (ShardStore.machine.run store calls)).1 =
        .ok payloads →
      List.Forall₂ (fun descriptor payload =>
        payload.length = descriptor.rows * descriptor.dimension * scalarBytes descriptor.dtype ∧
        (Sha256.hex payload = descriptor.digest ↔ isDigest descriptor.digest = true))
        descriptors payloads) ∧
    ∀ (root : Root) (contract : ContractStore), openContract root = .ok contract →
      (contract.Contained ↔ Unwrapped root) := by
  constructor
  · intro roots hostCacheBytes hostTenantMaxPercent verifyFullShards store opened calls
      descriptors tenant payloads done
    obtain ⟨contracts, all, sound⟩ := ShardStore.sound_open opened
    have served := (sound.run all calls).forall₂ done
    apply served.imp
    intro descriptor payload served
    refine ⟨(shardTensorBytes_eq_ok served.length).1, ?_, ?_⟩
    · intro checksum
      rw [← checksum]
      exact Sha256.isDigest_hex payload
    · intro proper
      exact (served.proper proper).checksum
  · intro root contract opened
    exact contained_iff_unwrapped opened

/-! ### A small store

Two tensors side by side in a shard, and a third in a file of its own. -/

/-- A digest of 63 zeros and a last digit. -/
def sampleHex (digit : Char) : String := String.ofList (List.replicate 63 '0' ++ [digit])

/-- A checksum that tells the tensors of the small store apart. -/
abbrev sampleSha256 : Sha256 where
  hex bytes :=
    if bytes.head? = some 1 then sampleHex 'a'
    else if bytes.head? = some 2 then sampleHex 'b'
    else sampleHex 'c'
  isDigest_hex bytes := by
    split
    · decide +kernel
    · split <;> decide +kernel

def sampleIndex : RawIndex where
  format := "vectorchord.tilemaxsim.shards"
  version := 1
  alignment := 4
  shards := [⟨"shards/sha256-0a.vts", 8, "sha256:0a"⟩]
  entries :=
    [⟨sampleHex 'a', "shards/sha256-0a.vts", 0, 4, 1, 1, "float32"⟩,
      ⟨sampleHex 'b', "shards/sha256-0a.vts", 4, 4, 2, 1, "float16"⟩]

def sampleRoot : Root where
  isDirectory _ := pure true
  tryExists _ := pure true
  openFile path :=
    if path = indexName then pure []
    else if path = "shards/sha256-0a.vts" then pure [1, 0, 0, 0, 2, 0, 0, 0]
    else pure [3, 0, 0, 0]

/-- The tensors of the small store, not in the order in which they are stored. -/
def sampleDescriptors : List Descriptor :=
  [⟨"model@1", sampleHex 'b', 2, 1, 2⟩, ⟨"model@1", sampleHex 'c', 1, 2, 2⟩,
    ⟨"model@1", sampleHex 'a', 1, 1, 1⟩]

/-- The file of its own comes from the cache, the other two from one range of the shard. -/
theorem resolveMany_contentAddressed_smallStore :
    let _ := wholeHostPriority
    let _ : KeyHash := ⟨fun _ _ => 0⟩
    let _ := IterationOrder.insertion
    let _ := sampleSha256
    let _ : IndexFormat := ⟨fun _ => some sampleIndex⟩
    let _ : DebugText := ⟨fun text => text⟩
    let calls : List ShardStore.Call :=
      [.resolveMany [⟨"model@1", sampleHex 'c', 1, 2, 2⟩] "other", .reload]
    ∃ store : ShardStore Nat,
      ShardStore.open [("model@1", sampleRoot)] 1024 100 false = .ok store ∧
      ((ShardStore.resolveMany sampleDescriptors "tenant").step
        (ShardStore.machine.run store calls)).1 =
          .ok [[2, 0, 0, 0], [3, 0, 0, 0], [1, 0, 0, 0]] ∧
      ((ShardStore.resolveMany sampleDescriptors "tenant").step
        (ShardStore.machine.run store calls)).2.batchReadCalls = 2 ∧
      List.Forall₂ (fun descriptor payload =>
        payload.length = descriptor.rows * descriptor.dimension * scalarBytes descriptor.dtype ∧
        (Sha256.hex payload = descriptor.digest ↔ isDigest descriptor.digest = true))
        sampleDescriptors [[2, 0, 0, 0], [3, 0, 0, 0], [1, 0, 0, 0]] ∧
      ∃ contract, openContract sampleRoot = .ok contract ∧
        (contract.Contained ↔ Unwrapped sampleRoot) := by
  intro _ _ _ _ _ _ calls
  obtain ⟨resolves, contains⟩ := @resolveMany_contentAddressed Nat _ _ _ _ _ _
  have done : ∀ store : ShardStore Nat,
      ShardStore.open [("model@1", sampleRoot)] 1024 100 false = .ok store →
      ((ShardStore.resolveMany sampleDescriptors "tenant").step
        (ShardStore.machine.run store calls)).1 =
          .ok [[2, 0, 0, 0], [3, 0, 0, 0], [1, 0, 0, 0]] := by
    intro store opened
    cases opened
    decide +kernel
  refine ⟨_, rfl, done _ rfl, by decide +kernel, ?_, _, rfl, contains _ _ rfl⟩
  exact resolves [("model@1", sampleRoot)] 1024 100 false _ rfl calls sampleDescriptors "tenant" _
    (done _ rfl)

/-- The only tensor of this index ends at `2 ^ 64`, far behind the four bytes of its shard. -/
def wrappedIndex : RawIndex where
  format := "vectorchord.tilemaxsim.shards"
  version := 1
  alignment := 4
  shards := [⟨"shards/sha256-0a.vts", 4, "sha256:0a"⟩]
  entries := [⟨"0b", "shards/sha256-0a.vts", 0xfffffffffffffffc, 4, 1, 1, "float32"⟩]

def wrappedRoot : Root where
  isDirectory _ := pure true
  tryExists _ := pure true
  openFile _ := pure [0, 0, 0, 0]

theorem not_contained_wrappedIndex :
    let _ : IndexFormat := ⟨fun _ => some wrappedIndex⟩
    ∃ contract, openContract wrappedRoot = .ok contract ∧ ¬ contract.Contained := by
  intro format
  have entered : (openContract wrappedRoot).toOption.bind (fun contract =>
      contract.entries.lookup "0b") =
        some ⟨"shards/sha256-0a.vts", 0xfffffffffffffffc, 4, 1, 1, 1⟩ := by
    decide +kernel
  have sharded : (openContract wrappedRoot).toOption.bind (fun contract =>
      (contract.shards.lookup "shards/sha256-0a.vts").map fun shard => shard.file.length) =
        some 4 := by
    decide +kernel
  cases opened : openContract wrappedRoot with
  | error message =>
    rw [opened] at entered
    cases entered
  | ok contract =>
    rw [opened] at entered sharded
    refine ⟨contract, rfl, fun contained => ?_⟩
    obtain ⟨shard, known, within⟩ := contained.inside _ _ entered
    simp only [Except.toOption, bind_some, known, map_some] at sharded
    rw [Option.some.inj sharded] at within
    exact absurd within (by decide)

/-- The tensor behind the end of its shard is accepted.  A descriptor with a digest that is not
proper gets a tensor of another contract, whose key is the same. -/
theorem openContract_wrappedIndex_sharedKey :
    (let _ : IndexFormat := ⟨fun _ => some wrappedIndex⟩
      ∃ contract, openContract wrappedRoot = .ok contract ∧ ¬ contract.Contained) ∧
    (let _ := wholeHostPriority
      let _ : KeyHash := ⟨fun _ _ => 0⟩
      let _ := IterationOrder.insertion
      let _ := sampleSha256
      let _ : IndexFormat := ⟨fun _ => some sampleIndex⟩
      let _ : DebugText := ⟨fun text => text⟩
      ∃ store : ShardStore Nat,
        ShardStore.open [("c", sampleRoot), ("c:x", sampleRoot)] 1024 100 false = .ok store ∧
        ((ShardStore.resolveMany [⟨"c", "x:" ++ sampleHex 'a', 1, 1, 1⟩] "tenant").step
          (ShardStore.machine.run store
            [.resolveMany [⟨"c:x", sampleHex 'a', 1, 1, 1⟩] "tenant"])).1 = .ok [[1, 0, 0, 0]] ∧
        Sha256.hex [1, 0, 0, 0] ≠ "x:" ++ sampleHex 'a') := by
  refine ⟨not_contained_wrappedIndex, ?_⟩
  intro _ _ _ _ _ _
  refine ⟨_, rfl, ?_, ?_⟩ <;> decide +kernel

end VectorChord.Tilemaxsimd.Shards
