import VectorChord.Tilemaxsimd.Residency

/-!
# Chunks

What the steps of a round do to the tensors that are held: a chunk is filled, uploaded,
marked as ready and given up again.  Whatever fails on the way, in the end nothing is
held.
-/

namespace VectorChord.Tilemaxsimd

open Collections Transition List Fallible

variable {n : Nat} {ρ α : Type}

/-! ## Lists of devices -/

theorem push_self (lists : Fin n → List α) (device : Fin n) (item : α) :
    push lists device item device = lists device ++ [item] :=
  Function.update_self ..

theorem push_of_ne (lists : Fin n → List α) {device other : Fin n} (different : other ≠ device)
    (item : α) : push lists device item other = lists other :=
  Function.update_of_ne different ..

theorem mem_flat {lists : Fin n → List α} {item : α} :
    item ∈ flat lists ↔ ∃ device, item ∈ lists device := by
  rw [flat, mem_flatMap]
  constructor
  · rintro ⟨device, _, member⟩
    exact ⟨device, member⟩
  · rintro ⟨device, member⟩
    exact ⟨device, mem_finRange device, member⟩

theorem flatMap_push_perm (lists : Fin n → List α) (device : Fin n) (item : α)
    (devices : List (Fin n)) (distinct : devices.Nodup) (member : device ∈ devices) :
    (devices.flatMap (push lists device item)).Perm (item :: devices.flatMap lists) := by
  induction devices with
  | nil => cases member
  | cons first devices ih =>
    rcases nodup_cons.mp distinct with ⟨absent, others⟩
    rw [flatMap_cons, flatMap_cons]
    by_cases here : device = first
    · have rest : devices.flatMap (push lists device item) = devices.flatMap lists := by
        apply flatMap_congr
        intro other inside
        apply push_of_ne
        intro equal
        apply absent
        rw [← here, ← equal]
        exact inside
      rw [rest, ← here, push_self, append_assoc]
      exact perm_middle
    · have inside := (mem_cons.mp member).resolve_left here
      rw [push_of_ne lists (Ne.symm here)]
      exact ((ih others inside).append_left _).trans perm_middle

theorem flat_push (lists : Fin n → List α) (device : Fin n) (item : α) :
    (flat (push lists device item)).Perm (item :: flat lists) :=
  flatMap_push_perm lists device item _ (nodup_finRange n) (mem_finRange device)

/-- A tensor that is pushed to its own device is in the right list. -/
theorem tagged_push {chunks : Fin n → List (ResidentTensor n)}
    (tagged : ∀ device, ∀ tensor ∈ chunks device, tensor.device = device)
    (resident : ResidentTensor n) : ∀ device,
      ∀ tensor ∈ push chunks resident.device resident device,
      tensor.device = device := by
  intro device tensor member
  by_cases here : device = resident.device
  · rw [here, push_self, mem_append] at member
    rw [here]
    rcases member with before | last
    · exact tagged _ tensor before
    · rw [mem_singleton.mp last]
  · rw [push_of_ne _ here] at member
    exact tagged device tensor member

namespace Engine

variable {store : ShardStore} {engine : Engine n ρ} {held : List (ResidentTensor n)}
  {ready : ResidentTensor n → Prop} {key : String}

/-! ## Giving up tensors -/

/-- In the end nothing is held, if the tensors that are released are ready. -/
theorem Holds.wp_settle [Priority ρ] {removes : ResidentTensor n → Bool}
    (ok : Holds store engine held ready)
    (safe : ∀ tensor ∈ held, removes tensor = false → ready tensor) :
    Fallible.wp (settle removes held) (fun _ engine' => Holds store engine' [] ready)
      (fun _ _ => False) engine := by
  induction held generalizing engine with
  | nil => exact ok
  | cons tensor held ih =>
    rw [settle]
    have rest : ∀ engine' : Engine n ρ, Holds store engine' held ready →
        Fallible.wp (settle removes held) (fun _ engine' => Holds store engine' [] ready)
          (fun _ _ => False) engine' := by
      intro engine' ok'
      exact ih ok' fun other member => safe other (mem_cons_of_mem _ member)
    cases removed : removes tensor with
    | true =>
      exact wp_seq ok.wp_remove fun _ => rest
    | false =>
      exact wp_seq (ok.wp_release (safe tensor mem_cons_self removed))
        fun _ => rest

/-- Without tensors it does not matter which are ready. -/
theorem Holds.nil (ok : Holds store engine [] ready) (ready' : ResidentTensor n → Prop) :
    Holds store engine [] ready' :=
  ok.congr (.refl _) fun _ member => (by cases member)

/-! ## Taking tensors -/

/-- With the entry of a key its tensor is held. -/
def Takes (store : ShardStore) (engine : Engine n ρ) (held : List (ResidentTensor n))
    (ready : ResidentTensor n → Prop) (device : Fin n) (key : String) (offset rows : Nat) : Prop :=
  ∀ tensor : ResidentTensor n, tensor.device = device → tensor.key = key →
    tensor.offset = offset → tensor.rows = rows → ready tensor →
    Holds store engine (tensor :: held) ready

section

variable (ok : Holds store engine held ready)

include ok

theorem Holds.takes {device : Fin n}
    {entry entry' : CacheEntry ρ} {cache : GpuCache ρ}
    (found : (engine.devices device).cache.entries.lookup key = some entry)
    (isReady : entry.ready = true) (unheld : ∀ other ∈ held, other.key ≠ key) (inv : cache.Inv)
    (entries : cache.entries = (engine.devices device).cache.entries.insert key entry')
    (shape : SameShape entry entry') (references : entry'.references = entry.references + 1)
    (stays : entry'.ready = true) :
    Takes store (engine.setCache device cache) held ready device key entry'.offset entry'.rows := by
  intro tensor here equal offset rows tensorReady
  subst here equal
  exact ok.acquired found isReady unheld inv entries shape references stays offset rows tensorReady

/-- `get` finds the entry that `contains` has seen. -/
theorem Holds.wp_get [Priority ρ] [KeyHash] {device : Fin n}
    (contained : (engine.devices device).cache.contains key = true)
    (unheld : ∀ other ∈ held, other.key ≠ key) :
    Fallible.wp (onCache device (.act fun cache => cache.get key))
      (fun result engine' => ∃ entry, result = some entry ∧
        (∃ descriptor, cacheKey descriptor = key ∧ Describes store descriptor entry) ∧
        Takes store engine' held ready device key entry.offset entry.rows)
      (fun _ _ => False) engine := by
  rcases (Option.any_eq_true _ _).mp contained with ⟨entry, found, isReady⟩
  have passes := GpuCache.lookup_filter_ready.mpr ⟨found, isReady⟩
  have inv := ((engine.devices device).cache.get_changes key).inv (ok.inv device)
  rw [onCache, wp_focus, wp_act]
  unfold GpuCache.get at inv ⊢
  dsimp only at inv ⊢
  rw [passes] at inv ⊢
  have range : GpuCache.SameRange entry { entry with
      references := entry.references + 1
      priority := Priority.rate (engine.devices device).cache.inflation
        ((engine.devices device).cache.sketch.increment key).1 entry.allocatedBytes } :=
    ⟨rfl, rfl, rfl, rfl⟩
  have shape : SameShape entry _ := ⟨range, rfl, rfl, rfl, rfl⟩
  refine ⟨_, rfl, ?_, ok.takes found isReady unheld inv.1 rfl shape rfl isReady⟩
  rcases (ok.holding device).described key entry found with ⟨descriptor, same, describes⟩
  exact ⟨descriptor, same, describes.sameShape shape⟩

theorem Holds.wp_acquireAny (unheld : ∀ other ∈ held, other.key ≠ key) (devices : List (Fin n)) :
    Fallible.wp (acquireAny key devices)
      (fun result engine' =>
        match result with
        | none => Holds store engine' held ready
        | some (device, entry) =>
          Takes store engine' held ready device key entry.offset entry.rows)
      (fun _ _ => False) engine := by
  induction devices generalizing engine with
  | nil => exact ok
  | cons device devices ih =>
    rw [acquireAny, wp_bind, onCache, wp_focus, wp_act]
    unfold GpuCache.acquireExisting
    cases passes : ((engine.devices device).cache.entries.lookup key).filter CacheEntry.ready with
    | none => exact ih (ok.reduced (ok.inv device) (.refl "" _))
    | some entry =>
      rcases GpuCache.lookup_filter_ready.mp passes with ⟨found, isReady⟩
      have range : GpuCache.SameRange entry
          { entry with references := entry.references + 1 } := ⟨rfl, rfl, rfl, rfl⟩
      have shape : SameShape entry _ := ⟨range, rfl, rfl, rfl, rfl⟩
      exact ok.takes found isReady unheld ((ok.inv device).touched found range) rfl shape rfl
        isReady

end

/-! ## Admitting tensors -/

/-- A tensor as it is admitted. -/
structure Admissible (store : ShardStore) (descriptor : Descriptor) (tensor : Tensor) : Prop where
  fits : store.Fits descriptor
  key : cacheKey descriptor = tensor.key
  payloadBytes : tensor.payloadBytes = (store.payload descriptor).length
  rows : tensor.rows = descriptor.rows
  dimension : tensor.dimension = descriptor.dimension
  dtype : tensor.dtype = descriptor.dtype

variable {descriptor : Descriptor} {tensor : Tensor}

theorem Admissible.describes (admissible : Admissible store descriptor tensor) {offset bytes : Nat}
    {priority : ρ} (covers : tensor.payloadBytes ≤ bytes) :
    Describes store descriptor (tensor.entry offset bytes priority) :=
  ⟨admissible.fits, admissible.payloadBytes, admissible.rows, admissible.dimension,
    admissible.dtype, covers⟩

/-- The order of devices does not matter to what is held. -/
theorem Holds.advance (ok : Holds store engine held ready) (device : Fin n) :
    Holds store (engine.advance device) held ready :=
  ⟨ok.distinct, ok.inv, ok.holding⟩

/-- With the range of an admission its tensor is held, but not ready. -/
def Stores (store : ShardStore) (engine : Engine n ρ) (held : List (ResidentTensor n))
    (ready : ResidentTensor n → Prop) (tensor : Tensor) : Option (Fin n × Nat) → Prop
  | none => Holds store engine held ready
  | some (device, offset) => ∀ resident : ResidentTensor n, resident.device = device →
      resident.key = tensor.key → resident.offset = offset → resident.rows = tensor.rows →
      ¬ ready resident → Holds store engine (resident :: held) ready

theorem Holds.wp_admitAny [Priority ρ] [KeyHash] [IterationOrder]
    (ok : Holds store engine held ready) (admissible : Admissible store descriptor tensor)
    (unheld : ∀ other ∈ held, other.key ≠ tensor.key) (devices : List (Fin n)) :
    Fallible.wp (admitAny tensor devices)
      (fun result engine' => Stores store engine' held ready tensor result)
      (fun _ _ => False) engine := by
  induction devices generalizing engine with
  | nil => exact ok
  | cons device devices ih =>
    rcases GpuCache.admitForTenant_ok tensor (ok.inv device) with
      ⟨admission, cache, done, inv, _, admits⟩
    rw [admitAny, wp_bind, onCache, wp_focus, wp_of_step_ok done]
    cases admits with
    | refused which fewer =>
      have kept := ok.reduced inv fewer
      rcases which with rfl | rfl
      · exact ih kept
      · exact ih kept
    | @stored middle start bytes priority allocator fewer cut covers =>
      intro resident here key offset rows unready
      subst here
      have unheld' : ∀ other ∈ held, other.key ≠ resident.key := by
        rw [key]
        exact unheld
      have entries : (middle.stored tensor.key (tensor.entry start bytes priority)
            allocator).entries =
          middle.entries.insert resident.key (tensor.entry start bytes priority) := by
        rw [key]
        rfl
      have stored := ok.stored unheld' inv fewer entries (admissible.key.trans key.symm)
        (admissible.describes covers) rfl rfl offset.symm rows.symm unready
      exact stored.advance resident.device

end Engine

end VectorChord.Tilemaxsimd
