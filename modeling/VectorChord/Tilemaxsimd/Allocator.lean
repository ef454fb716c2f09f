import VectorChord.Collections.Checked
import VectorChord.Collections.Tiling
import VectorChord.Transition.Fallible
import VectorChord.Transition.Machine

/-!
# The allocator of a GPU arena

`PageRunAllocator` hands out runs of fixed-size blocks.  Free runs are indexed by their
start and by their length; a run is split when it is longer than needed, and a released
run is merged with the free runs next to it.
-/

namespace VectorChord.Tilemaxsimd

open Collections Transition Fallible Table Option Finset

/-- `PageRunAllocator`. -/
structure PageRunAllocator where
  blockBytes : Nat
  blockCount : Nat
  freeByStart : Table Nat Nat
  freeBySize : Table Nat (Finset Nat)
  allocated : Table Nat Nat
  freeBlocks : Nat

namespace PageRunAllocator

/-- `BTreeSet::first`. -/
def first (starts : Finset Nat) : Option Nat :=
  if present : starts.Nonempty then some (starts.min' present) else none

/-- `add_free_run`. -/
def addFreeRun (start blocks : Nat) : Fallible String PageRunAllocator Unit := do
  let self ← get
  if blocks = 0 ∨ (checkedAdd start blocks).all fun stop => self.blockCount < stop then
    throw "free GPU page run is outside the arena"
  else do
    set { self with freeByStart := self.freeByStart.insert start blocks }
    if (self.freeByStart.lookup start).isSome then throw "duplicate free GPU page run"
    else do
      modify fun self => { self with
        freeBySize := self.freeBySize.insert blocks
          (insert start ((self.freeBySize.lookup blocks).getD ∅)) }
      match checkedAdd self.freeBlocks blocks with
      | none => throw "free GPU page count overflow"
      | some total => modify fun self => { self with freeBlocks := total }

/-- `remove_free_run`. -/
def removeFreeRun (start blocks : Nat) : Fallible String PageRunAllocator Unit := do
  let self ← get
  set { self with freeByStart := self.freeByStart.erase start }
  if self.freeByStart.lookup start ≠ some blocks then
    throw "free GPU address index is inconsistent"
  else
    match self.freeBySize.lookup blocks with
    | none => throw "free GPU size index is inconsistent"
    | some starts => do
      modify fun self =>
        { self with freeBySize := self.freeBySize.insert blocks (starts.erase start) }
      if start ∉ starts then throw "free GPU size index is inconsistent"
      else do
        if starts.erase start = ∅ then
          modify fun self => { self with freeBySize := self.freeBySize.erase blocks }
        match checkedSub self.freeBlocks blocks with
        | none => throw "free GPU page count underflow"
        | some total => modify fun self => { self with freeBlocks := total }

/-- `PageRunAllocator::new`. -/
def new (capacity blockBytes : Nat) : Except String PageRunAllocator :=
  if capacity = 0 ∨ blockBytes = 0 ∨ ¬ 256 ∣ blockBytes then throw "invalid fixed-block arena"
  else if capacity / blockBytes = 0 then throw "fixed-block arena is too small"
  else
    let empty : PageRunAllocator := ⟨blockBytes, capacity / blockBytes, ∅, ∅, ∅, 0⟩
    match (addFreeRun 0 (capacity / blockBytes)).step empty with
    | (.ok _, allocator) => pure allocator
    | (.error error, _) => throw error

def capacity (self : PageRunAllocator) : Nat := self.blockCount * self.blockBytes

/-- `allocation_bytes`: the payload rounded up to whole blocks. -/
def allocationBytes (self : PageRunAllocator) (payloadBytes : Nat) : Option Nat :=
  if payloadBytes = 0 then none
  else checkedMul ((payloadBytes + self.blockBytes - 1) / self.blockBytes) self.blockBytes

/-- `largest_free`. -/
def largestFree (self : PageRunAllocator) : Nat :=
  match self.freeBySize.last with
  | none => 0
  | some (blocks, _) => blocks * self.blockBytes

def allocatedBytes (self : PageRunAllocator) : Nat :=
  Table.total (fun _ blocks => blocks * self.blockBytes) self.allocated

/-- `allocate`, before the errors of the indexes are turned into `None`. -/
def tryAllocate (payloadBytes : Nat) :
    Fallible String PageRunAllocator (Option (Nat × Nat)) := do
  let self ← get
  match self.allocationBytes payloadBytes with
  | none => pure none
  | some allocationBytes =>
    let required := allocationBytes / self.blockBytes
    match self.freeBySize.firstFrom required with
    | none => pure none
    | some (available, starts) =>
      match first starts with
      | none => pure none
      | some start => do
        removeFreeRun start available
        if required < available then
          addFreeRun (start + required) (available - required)
        modify fun self => { self with allocated := self.allocated.insert start required }
        pure (some (start * self.blockBytes, allocationBytes))

/-- `allocate`: `.ok()?` gives up on an error of the indexes. -/
def allocate (self : PageRunAllocator) (payloadBytes : Nat) :
    Option (Nat × Nat) × PageRunAllocator :=
  match (tryAllocate payloadBytes).step self with
  | (.ok result, self) => (result, self)
  | (.error _, self) => (none, self)

/-- `release`: merge a run with the free run before it. -/
def mergePrevious (start blocks : Nat) : Fallible String PageRunAllocator (Nat × Nat) := do
  let self ← get
  match self.freeByStart.lastBelow start with
  | none => pure (start, blocks)
  | some (previousStart, previousBlocks) =>
    if previousStart + previousBlocks = start then do
      removeFreeRun previousStart previousBlocks
      pure (previousStart, blocks + previousBlocks)
    else pure (start, blocks)

/-- `release`: merge a run with the free run behind it. -/
def mergeNext (start blocks : Nat) : Fallible String PageRunAllocator Nat := do
  let self ← get
  match self.freeByStart.lookup (start + blocks) with
  | none => pure blocks
  | some nextBlocks => do
    removeFreeRun (start + blocks) nextBlocks
    pure (blocks + nextBlocks)

/-- `release`. -/
def release (offset : Nat) : Fallible String PageRunAllocator Unit := do
  let self ← get
  if ¬ self.blockBytes ∣ offset then throw "unaligned fixed-block release"
  else
    let start := offset / self.blockBytes
    match self.allocated.lookup start with
    | none => throw "fixed-block page run was released twice"
    | some blocks => do
      set { self with allocated := self.allocated.erase start }
      let (start, blocks) ← mergePrevious start blocks
      let blocks ← mergeNext start blocks
      addFreeRun start blocks

/-! ## The two indexes -/

/-- A free run. -/
def Free (self : PageRunAllocator) (start blocks : Nat) : Prop :=
  self.freeByStart.lookup start = some blocks

/-- A run that has been handed out. -/
def Allocated (self : PageRunAllocator) (start blocks : Nat) : Prop :=
  self.allocated.lookup start = some blocks

/-- The index by size and the counter agree with the index by start. -/
structure Indexed (allocator : PageRunAllocator) : Prop where
  sizes : ∀ start blocks, allocator.Free start blocks ↔
    ∃ starts, allocator.freeBySize.lookup blocks = some starts ∧ start ∈ starts
  nonempty : ∀ blocks starts, allocator.freeBySize.lookup blocks = some starts → starts.Nonempty
  counted : allocator.freeBlocks = Table.total (fun _ blocks => blocks) allocator.freeByStart

/-- The allocator with one more free run. -/
def withFree (self : PageRunAllocator) (start blocks : Nat) : PageRunAllocator :=
  { self with
    freeByStart := self.freeByStart.insert start blocks
    freeBySize := self.freeBySize.insert blocks
      (insert start ((self.freeBySize.lookup blocks).getD ∅))
    freeBlocks := self.freeBlocks + blocks }

/-- The allocator with one free run less. -/
def withoutFree (self : PageRunAllocator) (start blocks : Nat) : PageRunAllocator :=
  { self with
    freeByStart := self.freeByStart.erase start
    freeBySize :=
      if ((self.freeBySize.lookup blocks).getD ∅).erase start = ∅ then
        (self.freeBySize.insert blocks (((self.freeBySize.lookup blocks).getD ∅).erase start)).erase
          blocks
      else self.freeBySize.insert blocks (((self.freeBySize.lookup blocks).getD ∅).erase start)
    freeBlocks := self.freeBlocks - blocks }

section

variable {self : PageRunAllocator} {start blocks : Nat}

theorem free_withFree {start' blocks' : Nat} : (self.withFree start blocks).Free start' blocks' ↔
    start' = start ∧ blocks' = blocks ∨ start' ≠ start ∧ self.Free start' blocks' :=
  lookup_insert_iff

theorem free_withoutFree {start' blocks' : Nat} :
    (self.withoutFree start blocks).Free start' blocks' ↔
      start' ≠ start ∧ self.Free start' blocks' :=
  lookup_erase_iff

theorem addFreeRun_ok (positive : 0 < blocks) (inside : start + blocks ≤ self.blockCount)
    (bounded : self.blockCount ≤ usizeMax) (absent : ∀ length, ¬ self.Free start length)
    (room : self.freeBlocks + blocks ≤ usizeMax) :
    (addFreeRun start blocks).step self = (.ok (), self.withFree start blocks) := by
  have fits : checkedAdd start blocks = some (start + blocks) :=
    checkedAdd_eq (le_trans inside bounded)
  have proper : ¬ (blocks = 0 ∨ (checkedAdd start blocks).all fun stop =>
    self.blockCount < stop) := by
    rw [fits]
    simp only [all_some, decide_eq_true_eq]
    omega
  have new : self.freeByStart.lookup start = none := by
    cases found : self.freeByStart.lookup start with
    | none => rfl
    | some length => exact absurd found (absent length)
  rw [addFreeRun, step_bind_get, if_neg proper, new, step_bind_ok (step_set _ _),
    if_neg (by simp), step_bind_ok (step_modify _ _), checkedAdd_eq room]
  rfl

theorem removeFreeRun_ok (indexed : self.Indexed) (free : self.Free start blocks) :
    (removeFreeRun start blocks).step self = (.ok (), self.withoutFree start blocks) := by
  rcases (indexed.sizes start blocks).mp free with ⟨starts, stored, member⟩
  have room : blocks ≤ self.freeBlocks := by
    rw [indexed.counted]
    exact weight_le_total (fun _ blocks => blocks) free
  have same : self.freeByStart.lookup start = some blocks := free
  rw [removeFreeRun, step_bind_get, step_bind_ok (step_set _ _), if_neg (not_not.mpr same), stored]
  rw [step_bind_ok (step_modify _ _), if_neg (not_not.mpr member), checkedSub_eq room]
  unfold withoutFree
  rw [stored, getD_some]
  by_cases last : starts.erase start = ∅
  · rw [if_pos last, if_pos last]
    rfl
  · rw [if_neg last, if_neg last]
    rfl

theorem Indexed.withFree (indexed : self.Indexed) (absent : ∀ length, ¬ self.Free start length) :
    (self.withFree start blocks).Indexed where
  sizes start' blocks' := by
    rw [free_withFree, indexed.sizes]
    have old : ∀ length starts, self.freeBySize.lookup length = some starts →
        start ∉ starts := by
      intro length starts stored member
      exact absent length ((indexed.sizes start length).mpr ⟨starts, stored, member⟩)
    simp only [PageRunAllocator.withFree, lookup_insert_iff]
    cases stored : self.freeBySize.lookup blocks <;> grind
  nonempty blocks' starts found := by
    simp only [PageRunAllocator.withFree, lookup_insert_iff] at found
    rcases found with ⟨_, rfl⟩ | ⟨_, stored⟩
    · exact insert_nonempty _ _
    · exact indexed.nonempty blocks' starts stored
  counted := by
    have sum := total_insert_of_notMem (fun _ blocks => blocks) (notMem_of_lookup absent) blocks
    have before := indexed.counted
    simp only [PageRunAllocator.withFree]
    omega

theorem Indexed.withoutFree (indexed : self.Indexed) (free : self.Free start blocks) :
    (self.withoutFree start blocks).Indexed where
  sizes start' blocks' := by
    rw [free_withoutFree, indexed.sizes]
    have only : ∀ length starts, self.freeBySize.lookup length = some starts → start ∈ starts →
        length = blocks := by
      intro length starts stored member
      have found : self.Free start length :=
        (indexed.sizes start length).mpr ⟨starts, stored, member⟩
      exact some_inj.mp (found.symm.trans free)
    rcases (indexed.sizes start blocks).mp free with ⟨starts, stored, member⟩
    simp only [PageRunAllocator.withoutFree, stored, getD_some]
    split
    next empty =>
      simp only [lookup_erase_iff, lookup_insert_iff]
      have single : ∀ other ∈ starts, other = start := by
        intro other inside
        by_contra different
        have kept : other ∈ starts.erase start := mem_erase.mpr ⟨different, inside⟩
        rw [empty] at kept
        exact absurd kept (notMem_empty other)
      grind
    next =>
      simp only [lookup_insert_iff]
      grind
  nonempty blocks' starts' found := by
    rcases (indexed.sizes start blocks).mp free with ⟨starts, stored, member⟩
    simp only [PageRunAllocator.withoutFree, stored, getD_some] at found
    split at found
    next =>
      rcases lookup_erase_iff.mp found with ⟨different, found⟩
      rcases lookup_insert_iff.mp found with ⟨same, _⟩ | ⟨_, known⟩
      · exact absurd same different
      · exact indexed.nonempty blocks' starts' known
    next remaining =>
      rcases lookup_insert_iff.mp found with ⟨_, rfl⟩ | ⟨_, known⟩
      · exact nonempty_iff_ne_empty.mpr remaining
      · exact indexed.nonempty blocks' starts' known
  counted := by
    have sum := total_erase (fun _ blocks => blocks) free
    have before := indexed.counted
    simp only [PageRunAllocator.withoutFree]
    omega

end

/-! ## Invariant -/

/-- A run is free or allocated, but not both, and no two free runs touch. -/
structure Coherent (allocator : PageRunAllocator) : Prop extends Indexed allocator where
  blockBytes : 0 < allocator.blockBytes
  bounded : allocator.capacity ≤ usizeMax
  separate : ∀ start blocks blocks', allocator.Free start blocks →
    ¬ allocator.Allocated start blocks'
  coalesced : ∀ start blocks blocks', allocator.Free start blocks →
    ¬ allocator.Free (start + blocks) blocks'

/-- The invariant between calls: free and allocated runs tile the arena. -/
structure Inv (allocator : PageRunAllocator) : Prop extends Coherent allocator where
  tiling : Tiling allocator.blockCount fun start blocks =>
    allocator.Free start blocks ∨ allocator.Allocated start blocks

/-- The invariant inside a call: one run is neither free nor allocated. -/
structure Held (start blocks : Nat) (allocator : PageRunAllocator) : Prop
    extends Coherent allocator where
  tiling : Tiling allocator.blockCount fun s l =>
    allocator.Free s l ∨ allocator.Allocated s l ∨ s = start ∧ l = blocks
  notFree : ∀ l, ¬ allocator.Free start l
  notAllocated : ∀ l, ¬ allocator.Allocated start l

section

variable {self : PageRunAllocator} {start blocks : Nat}

section

variable (held : self.Held start blocks)

include held

theorem Held.run :
    0 < blocks ∧ start + blocks ≤ self.blockCount :=
  ⟨held.tiling.positive start blocks (.inr (.inr ⟨rfl, rfl⟩)),
    held.tiling.inside start blocks (.inr (.inr ⟨rfl, rfl⟩))⟩

/-- Free runs lie before or behind the run in hand. -/
theorem Held.beside {s l : Nat} (free : self.Free s l) :
    s + l ≤ start ∨ start + blocks ≤ s := by
  rcases Nat.lt_trichotomy s start with before | same | behind
  · exact .inl (held.tiling.apart s l start blocks (.inl free) (.inr (.inr ⟨rfl, rfl⟩)) before)
  · rw [same] at free
    exact absurd free (held.notFree l)
  · exact .inr (held.tiling.apart start blocks s l (.inr (.inr ⟨rfl, rfl⟩)) (.inl free) behind)

theorem Held.blockCount_le : self.blockCount ≤ usizeMax :=
  le_trans (Nat.le_mul_of_pos_right _ held.blockBytes) held.bounded

/-- The free blocks and those in hand are blocks of the arena. -/
theorem Held.room : self.freeBlocks + blocks ≤ usizeMax := by
  have sum := total_insert_of_notMem (fun _ blocks => blocks) (notMem_of_lookup held.notFree) blocks
  have runs : ∀ s l, (self.freeByStart.insert start blocks).lookup s = some l →
      self.Free s l ∨ self.Allocated s l ∨ s = start ∧ l = blocks := by
    intro s l found
    rcases lookup_insert_iff.mp found with here | ⟨_, free⟩
    · exact .inr (.inr here)
    · exact .inl free
  have below := total_le_of_apart (fun s l found => held.tiling.inside s l (runs s l found))
    (fun s l s' l' found found' =>
      held.tiling.apart s l s' l' (runs s l found) (runs s' l' found'))
  have counted := held.counted
  have bound := held.blockCount_le
  omega

end

theorem Coherent.withoutFree (coherent : self.Coherent) (free : self.Free start blocks) :
    (self.withoutFree start blocks).Coherent where
  toIndexed := coherent.toIndexed.withoutFree free
  blockBytes := coherent.blockBytes
  bounded := coherent.bounded
  separate s l l' other := coherent.separate s l l' (free_withoutFree.mp other).2
  coalesced s l l' other other' :=
    coherent.coalesced s l l' (free_withoutFree.mp other).2 (free_withoutFree.mp other').2

/-- A run that touches no free run may become free. -/
theorem Coherent.withFree (coherent : self.Coherent) (positive : 0 < blocks)
    (notFree : ∀ l, ¬ self.Free start l) (notAllocated : ∀ l, ¬ self.Allocated start l)
    (before : ∀ s l, self.Free s l → s + l ≠ start) (behind : ∀ l, ¬ self.Free (start + blocks) l) :
    (self.withFree start blocks).Coherent where
  toIndexed := coherent.toIndexed.withFree notFree
  blockBytes := coherent.blockBytes
  bounded := coherent.bounded
  separate s l l' free other := by
    rcases free_withFree.mp free with ⟨here, _⟩ | ⟨_, known⟩
    · rw [here] at other
      exact notAllocated l' other
    · exact coherent.separate s l l' known other
  coalesced s l l' free free' := by
    rcases free_withFree.mp free with ⟨here, length⟩ | ⟨_, known⟩ <;>
      rcases free_withFree.mp free' with ⟨here', _⟩ | ⟨_, known'⟩
    · omega
    · rw [here, length] at known'
      exact behind l' known'
    · exact before s l known here'
    · exact coherent.coalesced s l l' known known'

/-- Take a free run in hand. -/
theorem Inv.takeFree (inv : self.Inv) (free : self.Free start blocks) :
    (self.withoutFree start blocks).Held start blocks where
  toCoherent := inv.toCoherent.withoutFree free
  tiling := by
    apply inv.tiling.congr
    intro s l
    rw [free_withoutFree]
    have only : self.Free start l → l = blocks :=
      fun other => some_inj.mp (other.symm.trans free)
    change (s ≠ start ∧ self.Free s l ∨ self.Allocated s l ∨ s = start ∧ l = blocks) ↔ _
    grind
  notFree l other := (free_withoutFree.mp other).1 rfl
  notAllocated l other := inv.separate start blocks l free other

/-- Take an allocated run in hand. -/
theorem Inv.takeAllocated (inv : self.Inv) (allocated : self.Allocated start blocks) :
    ({ self with allocated := self.allocated.erase start } : PageRunAllocator).Held
      start blocks where
  sizes := inv.sizes
  nonempty := inv.nonempty
  counted := inv.counted
  blockBytes := inv.blockBytes
  bounded := inv.bounded
  tiling := by
    apply inv.tiling.congr
    intro s l
    have only : self.Allocated start l → l = blocks :=
      fun other => some_inj.mp (other.symm.trans allocated)
    have others : (self.allocated.erase start).lookup s = some l ↔
        s ≠ start ∧ self.Allocated s l := lookup_erase_iff
    change (self.Free s l ∨ (self.allocated.erase start).lookup s = some l ∨ _) ↔ _
    grind
  separate s l l' free other := inv.separate s l l' free (lookup_erase_iff.mp other).2
  coalesced := inv.coalesced
  notFree l free := inv.separate start l blocks free allocated
  notAllocated l other := (lookup_erase_iff.mp other).1 rfl

/-- Hand out the run in hand. -/
theorem Held.give (held : self.Held start blocks) :
    ({ self with allocated := self.allocated.insert start blocks } : PageRunAllocator).Inv where
  sizes := held.sizes
  nonempty := held.nonempty
  counted := held.counted
  blockBytes := held.blockBytes
  bounded := held.bounded
  tiling := by
    apply held.tiling.congr
    intro s l
    have others : (self.allocated.insert start blocks).lookup s = some l ↔
        s = start ∧ l = blocks ∨ s ≠ start ∧ self.Allocated s l := lookup_insert_iff
    have absent := held.notAllocated l
    change (self.Free s l ∨ (self.allocated.insert start blocks).lookup s = some l) ↔ _
    grind
  separate s l l' free other := by
    rcases lookup_insert_iff.mp other with ⟨here, _⟩ | ⟨_, known⟩
    · rw [here] at free
      exact held.notFree l free
    · exact held.separate s l l' free known
  coalesced := held.coalesced

/-- Give the end of the run in hand back to the free runs. -/
theorem Held.split {required rest : Nat} (held : self.Held start (required + rest))
    (proper : 0 < required ∧ 0 < rest) (last : ∀ l, ¬ self.Free (start + required + rest) l) :
    (self.withFree (start + required) rest).Held start required := by
  have absent : ∀ l, ¬ self.Free (start + required) l := by
    intro l free
    have := held.beside free
    omega
  have absent' : ∀ l, ¬ self.Allocated (start + required) l := by
    intro l other
    have := held.tiling.apart start (required + rest) (start + required) l
      (.inr (.inr ⟨rfl, rfl⟩)) (.inr (.inl other)) (by omega)
    omega
  have before : ∀ s l, self.Free s l → s + l ≠ start + required := by
    intro s l free
    have := held.beside free
    have := held.tiling.positive s l (.inl free)
    omega
  refine ⟨held.toCoherent.withFree proper.2 absent absent' before last, ?_, ?_, held.notAllocated⟩
  · apply (held.tiling.split (.inr (.inr ⟨rfl, rfl⟩)) proper).congr
    intro s l
    rw [free_withFree]
    change (_ ∨ self.Allocated s l ∨ _) ↔ _
    have free := held.notFree l
    have allocated := held.notAllocated l
    grind
  · intro l free
    rcases free_withFree.mp free with ⟨here, _⟩ | ⟨_, known⟩
    · omega
    · exact held.notFree l known

section

variable (held : self.Held start blocks)

include held

/-- Merge the run in hand with the free run before it. -/
theorem Held.mergeBefore {previous length : Nat}
    (free : self.Free previous length) (touches : previous + length = start) :
    (self.withoutFree previous length).Held previous (blocks + length) where
  toCoherent := held.toCoherent.withoutFree free
  tiling := by
    have second : self.Free (previous + length) blocks ∨ self.Allocated (previous + length) blocks ∨
        previous + length = start ∧ blocks = blocks := .inr (.inr ⟨touches, rfl⟩)
    apply (held.tiling.merge (.inl free) second).congr
    intro s l
    rw [free_withoutFree, touches]
    change (_ ∨ self.Allocated s l ∨ _) ↔ _
    have absent := held.notFree l
    have absent' := held.notAllocated l
    have apart : ¬ self.Allocated previous l := held.separate previous length l free
    grind
  notFree l other := (free_withoutFree.mp other).1 rfl
  notAllocated l other := held.separate previous length l free other

/-- Merge the run in hand with the free run behind it. -/
theorem Held.mergeAfter {length : Nat} (free : self.Free (start + blocks) length) :
    (self.withoutFree (start + blocks) length).Held start (blocks + length) where
  toCoherent := held.toCoherent.withoutFree free
  tiling := by
    apply (held.tiling.merge (.inr (.inr ⟨rfl, rfl⟩)) (.inl free)).congr
    intro s l
    rw [free_withoutFree]
    change (_ ∨ self.Allocated s l ∨ _) ↔ _
    have absent := held.notFree l
    have absent' := held.notAllocated l
    have apart : ¬ self.Allocated (start + blocks) l := held.separate _ length l free
    grind
  notFree l other := held.notFree l (free_withoutFree.mp other).2
  notAllocated := held.notAllocated

/-- Give the run in hand back to the free runs, when it touches none of them. -/
theorem Held.put (before : ∀ s l, self.Free s l → s + l ≠ start)
    (behind : ∀ l, ¬ self.Free (start + blocks) l) : (self.withFree start blocks).Inv where
  toCoherent := held.toCoherent.withFree held.run.1 held.notFree held.notAllocated before behind
  tiling := by
    apply held.tiling.congr
    intro s l
    rw [free_withFree]
    change (_ ∨ self.Allocated s l) ↔ _
    have absent := held.notFree l
    grind

end

end

/-! ## Calls -/

section

variable {self : PageRunAllocator}

theorem new_inv {capacity blockBytes : Nat} {allocator : PageRunAllocator}
    (bounded : capacity ≤ usizeMax) (built : new capacity blockBytes = .ok allocator) :
    allocator.Inv ∧ allocator.blockBytes = blockBytes ∧
      allocator.blockCount = capacity / blockBytes ∧ allocator.allocated = ∅ := by
  unfold new at built
  obtain ⟨accepted, built⟩ := guard_eq_ok.mp built
  obtain ⟨some, built⟩ := guard_eq_ok.mp built
  have positive : 0 < blockBytes := by
    apply pos_of_ne_zero
    intro zero
    exact accepted (.inr (.inl zero))
  have fits : capacity / blockBytes * blockBytes ≤ usizeMax :=
    le_trans (Nat.div_mul_le_self capacity blockBytes) bounded
  -- before the first free run the whole arena is in hand
  have held : (⟨blockBytes, capacity / blockBytes, ∅, ∅, ∅, 0⟩ : PageRunAllocator).Held 0
      (capacity / blockBytes) := by
    refine ⟨⟨⟨?_, ?_, rfl⟩, positive, fits, ?_, ?_⟩,
      (Tiling.whole (pos_of_ne_zero some)).congr ?_, ?_, ?_⟩
    all_goals simp [Free, Allocated]
  dsimp only at built
  rw [addFreeRun_ok held.run.1 held.run.2 held.blockCount_le held.notFree held.room] at built
  cases built
  refine ⟨held.put ?_ ?_, rfl, rfl, rfl⟩
  · simp [Free]
  · simp [Free]

theorem allocationBytes_eq_some {payloadBytes bytes : Nat}
    (positive : 0 < self.blockBytes) (known : self.allocationBytes payloadBytes = some bytes) :
    ∃ required, 0 < required ∧ bytes = required * self.blockBytes ∧ payloadBytes ≤ bytes := by
  unfold allocationBytes at known
  obtain ⟨some, known⟩ := ite_none_left_eq_some.mp known
  have exact_ := (eq_of_checkedMul known).1
  refine ⟨(payloadBytes + self.blockBytes - 1) / self.blockBytes, ?_, exact_, ?_⟩
  · exact Nat.div_pos (by omega) positive
  · rw [exact_]
    have division := Nat.div_add_mod (payloadBytes + self.blockBytes - 1) self.blockBytes
    have remainder := Nat.mod_lt (payloadBytes + self.blockBytes - 1) positive
    rw [mul_comm] at division
    omega

/-- The largest free run is a free run, and none is longer. -/
theorem Inv.lt_largestFree (inv : self.Inv) {required : Nat} (positive : 0 < required) :
    required * self.blockBytes ≤ self.largestFree ↔
      (self.freeBySize.firstFrom required).isSome := by
  unfold largestFree
  cases greatest : self.freeBySize.last with
  | none =>
    have absent := last_eq_none greatest
    have none : self.freeBySize.firstFrom required = none := by
      cases found : self.freeBySize.firstFrom required with
      | none => rfl
      | some entry =>
        have stored := (firstFrom_eq_some found).2
        exact absurd (mem_iff_lookup.mpr ⟨_, stored⟩) (absent _)
    have product : 0 < required * self.blockBytes := Nat.mul_pos positive inv.blockBytes
    rw [none]
    simp only [isSome_none, Bool.false_eq_true, iff_false]
    omega
  | some entry =>
    rcases last_eq_some greatest with ⟨stored, above⟩
    rw [Nat.mul_le_mul_right_iff inv.blockBytes]
    constructor
    · intro enough
      exact firstFrom_isSome (mem_iff_lookup.mpr ⟨_, stored⟩) enough
    · intro found
      rcases isSome_iff_exists.mp found with ⟨⟨key, starts⟩, found⟩
      rcases firstFrom_eq_some found with ⟨lower, stored'⟩
      exact le_trans lower (above _ (mem_iff_lookup.mpr ⟨_, stored'⟩))

theorem first_isSome {starts : Finset Nat} (present : starts.Nonempty) :
    ∃ start ∈ starts, first starts = some start :=
  ⟨starts.min' present, starts.min'_mem present, dif_pos present⟩

/-- `allocate` finds no run, or cuts one out of a free run. -/
theorem tryAllocate_spec (inv : self.Inv) {payloadBytes required : Nat} (positive : 0 < required)
    (bytes : self.allocationBytes payloadBytes = some (required * self.blockBytes)) :
    if required * self.blockBytes ≤ self.largestFree then
      ∃ start after, (tryAllocate payloadBytes).step self =
          (.ok (some (start * self.blockBytes, required * self.blockBytes)), after) ∧
        after.Inv ∧ after.blockBytes = self.blockBytes ∧ after.blockCount = self.blockCount ∧
        (∀ blocks, ¬ self.Allocated start blocks) ∧
        after.allocated = self.allocated.insert start required
    else (tryAllocate payloadBytes).step self = (.ok none, self) := by
  have exact_ : required * self.blockBytes / self.blockBytes = required :=
    Nat.mul_div_cancel _ inv.blockBytes
  rw [tryAllocate, step_bind_get, bytes]
  dsimp only
  rw [exact_]
  split
  next enough =>
    rcases isSome_iff_exists.mp ((inv.lt_largestFree positive).mp enough) with
      ⟨⟨available, starts⟩, found⟩
    rcases firstFrom_eq_some found with ⟨longer, stored⟩
    rcases first_isSome (inv.nonempty available starts stored) with ⟨start, member, least⟩
    have free : self.Free start available :=
      (inv.sizes start available).mpr ⟨starts, stored, member⟩
    have held := inv.takeFree free
    apply Exists.intro start
    rw [found]
    dsimp only
    rw [least]
    rw [step_bind_ok (removeFreeRun_ok inv.toIndexed free)]
    split
    next shorter =>
      rcases Nat.exists_eq_add_of_le longer with ⟨rest, rfl⟩
      have proper : 0 < required ∧ 0 < rest := ⟨positive, by omega⟩
      have last : ∀ l, ¬ (self.withoutFree start (required + rest)).Free
          (start + required + rest) l := by
        intro l other
        rw [add_assoc] at other
        exact inv.coalesced start (required + rest) l free (free_withoutFree.mp other).2
      have absent : ∀ l, ¬ (self.withoutFree start (required + rest)).Free
        (start + required) l := by
        intro l other
        have := held.beside other
        omega
      have inside := held.run.2
      have room := held.room
      rw [Nat.add_sub_cancel_left, step_bind_ok
        (addFreeRun_ok proper.2 (by omega) held.blockCount_le absent (by omega))]
      exact ⟨_, rfl, (held.split proper last).give, rfl, rfl, held.notAllocated, rfl⟩
    next notShorter =>
      have same : required = available := by omega
      rw [← same] at held ⊢
      exact ⟨_, rfl, held.give, rfl, rfl, held.notAllocated, rfl⟩
  next tooLong =>
    rw [inv.lt_largestFree positive, not_isSome_iff_eq_none] at tooLong
    rw [tooLong]
    rfl

theorem mergePrevious_ok {start blocks : Nat} (held : self.Held start blocks) :
    ∃ start' blocks' after,
      (mergePrevious start blocks).step self = (.ok (start', blocks'), after) ∧
      after.Held start' blocks' ∧ (∀ s l, after.Free s l → s + l ≠ start') ∧
      after.blockBytes = self.blockBytes ∧ after.blockCount = self.blockCount ∧
      after.allocated = self.allocated := by
  rw [mergePrevious, step_bind_get]
  cases below : self.freeByStart.lastBelow start with
  | none =>
    refine ⟨start, blocks, self, rfl, held, ?_, rfl, rfl, rfl⟩
    intro s l free touches
    have above := lastBelow_eq_none below (mem_iff_lookup.mpr ⟨l, free⟩)
    have := held.tiling.positive s l (.inl free)
    omega
  | some previous =>
    rcases previous with ⟨previous, length⟩
    rcases lastBelow_eq_some below with ⟨lower, free, greatest⟩
    dsimp only
    split
    next touches =>
      refine ⟨previous, blocks + length, self.withoutFree previous length, ?_,
        held.mergeBefore free touches, ?_, rfl, rfl, rfl⟩
      · rw [step_bind_ok (removeFreeRun_ok held.toIndexed free)]
        rfl
      · intro s l other touches'
        have known := (free_withoutFree.mp other).2
        rw [← touches'] at free
        exact held.coalesced s l length known free
    next apart =>
      refine ⟨start, blocks, self, rfl, held, ?_, rfl, rfl, rfl⟩
      intro s l other touches
      -- a run that ends here starts no later than the last one below
      have positive := held.tiling.positive s l (.inl other)
      have first := greatest s (mem_iff_lookup.mpr ⟨l, other⟩) (by omega)
      rcases Nat.eq_or_lt_of_le first with same | before
      · rw [same] at other touches
        have length' : l = length := some_inj.mp (other.symm.trans free)
        rw [length'] at touches
        exact apart touches
      · have := held.tiling.apart s l previous length (.inl other) (.inl free) before
        omega

theorem mergeNext_ok {start blocks : Nat} (held : self.Held start blocks)
    (before : ∀ s l, self.Free s l → s + l ≠ start) :
    ∃ blocks' after, (mergeNext start blocks).step self = (.ok blocks', after) ∧
      after.Held start blocks' ∧ (∀ s l, after.Free s l → s + l ≠ start) ∧
      (∀ l, ¬ after.Free (start + blocks') l) ∧
      after.blockBytes = self.blockBytes ∧ after.blockCount = self.blockCount ∧
      after.allocated = self.allocated := by
  rw [mergeNext, step_bind_get]
  cases next : self.freeByStart.lookup (start + blocks) with
  | none =>
    refine ⟨blocks, self, rfl, held, before, ?_, rfl, rfl, rfl⟩
    intro l free
    rw [Free, next] at free
    cases free
  | some length =>
    refine ⟨blocks + length, self.withoutFree (start + blocks) length, ?_, held.mergeAfter next,
      ?_, ?_, rfl, rfl, rfl⟩
    · dsimp only
      rw [step_bind_ok (removeFreeRun_ok held.toIndexed next)]
      rfl
    · intro s l other
      exact before s l (free_withoutFree.mp other).2
    · intro l other
      rw [← add_assoc] at other
      exact held.coalesced _ length l next (free_withoutFree.mp other).2

/-- `release` gives an allocated run back. -/
theorem release_ok (inv : self.Inv) {start blocks : Nat} (allocated : self.Allocated start blocks) :
    ∃ after, (release (start * self.blockBytes)).step self = (.ok (), after) ∧ after.Inv ∧
      after.blockBytes = self.blockBytes ∧ after.blockCount = self.blockCount ∧
      after.allocated = self.allocated.erase start := by
  have exact_ : start * self.blockBytes / self.blockBytes = start :=
    Nat.mul_div_cancel _ inv.blockBytes
  have known : self.allocated.lookup start = some blocks := allocated
  rw [release, step_bind_get, if_neg (not_not.mpr (Nat.dvd_mul_left _ _))]
  dsimp only
  rw [exact_, known]
  rw [step_bind_ok (step_set _ _)]
  rcases mergePrevious_ok (inv.takeAllocated allocated) with
    ⟨start₁, blocks₁, after₁, done₁, held₁, before₁, bytes₁, count₁, same₁⟩
  rcases mergeNext_ok held₁ before₁ with
    ⟨blocks₂, after₂, done₂, held₂, before₂, behind₂, bytes₂, count₂, same₂⟩
  rw [step_bind_ok done₁]
  rw [step_bind_ok done₂, addFreeRun_ok held₂.run.1 held₂.run.2 held₂.blockCount_le
    held₂.notFree held₂.room]
  exact ⟨_, rfl, held₂.put before₂ behind₂, bytes₂.trans bytes₁, count₂.trans count₁,
    same₂.trans same₁⟩

/-- A release that fails is one of no allocated run, and changes nothing. -/
theorem release_spec (self : PageRunAllocator) (offset : Nat) :
    (∃ error ∈ ["unaligned fixed-block release", "fixed-block page run was released twice"],
      (release offset).step self = (.error error, self)) ∨
    ∃ start blocks, offset = start * self.blockBytes ∧ self.Allocated start blocks := by
  by_cases aligned : self.blockBytes ∣ offset
  · have whole : offset = offset / self.blockBytes * self.blockBytes :=
      (Nat.div_mul_cancel aligned).symm
    cases found : self.allocated.lookup (offset / self.blockBytes) with
    | some blocks => exact .inr ⟨offset / self.blockBytes, blocks, whole, found⟩
    | none =>
      left
      refine ⟨"fixed-block page run was released twice", by simp, ?_⟩
      rw [release, step_bind_get, if_neg (not_not.mpr aligned)]
      dsimp only
      rw [found]
      rfl
  · left
    refine ⟨"unaligned fixed-block release", by simp, ?_⟩
    rw [release, step_bind_get, if_pos aligned]
    rfl

end

/-! ## Bytes -/

section

variable {self after : PageRunAllocator} {start blocks : Nat}

theorem allocatedBytes_insert (bytes : after.blockBytes = self.blockBytes)
    (new : ∀ blocks, ¬ self.Allocated start blocks)
    (same : after.allocated = self.allocated.insert start blocks) :
    after.allocatedBytes = blocks * self.blockBytes + self.allocatedBytes := by
  rw [allocatedBytes, same, bytes, total_insert_of_notMem _ (notMem_of_lookup new)]
  rfl

theorem Inv.allocatedBytes_le (inv : self.Inv) : self.allocatedBytes ≤ self.capacity := by
  have below := total_le_of_apart (fun s l found => inv.tiling.inside s l (.inr found))
    (fun s l s' l' found found' => inv.tiling.apart s l s' l' (.inr found) (.inr found'))
  have product : self.allocatedBytes =
      total (fun _ blocks => blocks) self.allocated * self.blockBytes := by
    unfold allocatedBytes total
    rw [List.sum_map_mul_right]
  rw [product]
  exact Nat.mul_le_mul_right _ below

end

/-! ## Runs -/

/-- A call of a client. -/
inductive Call where
  | allocate (payloadBytes : Nat)
  | release (offset : Nat)
  deriving DecidableEq, Repr

/-- What a call returns. -/
inductive Answer where
  | allocated (run : Option (Nat × Nat))
  | released (result : Except String Unit)

/-- The allocator as a machine. -/
def arena : Machine PageRunAllocator Call Answer where
  step self
    | .allocate payloadBytes =>
      ((self.allocate payloadBytes).2, .allocated (self.allocate payloadBytes).1)
    | .release offset => (((release offset).step self).2, .released ((release offset).step self).1)

section

variable {self : PageRunAllocator}

/-- No call of the allocator meets an inconsistent index. -/
theorem Inv.tryAllocate (inv : self.Inv) (payloadBytes : Nat) :
    ∃ result after, (PageRunAllocator.tryAllocate payloadBytes).step self = (.ok result, after) ∧
      after.Inv ∧ after.blockCount = self.blockCount := by
  cases bytes : self.allocationBytes payloadBytes with
  | none =>
    refine ⟨none, self, ?_, inv, rfl⟩
    rw [PageRunAllocator.tryAllocate, step_bind_get, bytes]
    rfl
  | some bytes' =>
    rcases allocationBytes_eq_some inv.blockBytes bytes with ⟨required, positive, rfl, _⟩
    have spec := tryAllocate_spec inv positive bytes
    split at spec
    next =>
      rcases spec with ⟨start, after, done, inv', _, count, _⟩
      exact ⟨_, after, done, inv', count⟩
    next => exact ⟨none, self, spec, inv, rfl⟩

theorem Inv.step (inv : self.Inv) (call : Call) :
    (arena.step self call).1.Inv ∧ (arena.step self call).1.blockCount = self.blockCount := by
  cases call with
  | allocate payloadBytes =>
    rcases inv.tryAllocate payloadBytes with ⟨result, after, done, inv', count⟩
    simp only [arena, allocate, done]
    exact ⟨inv', count⟩
  | release offset =>
    rcases release_spec self offset with ⟨error, _, failed⟩ | ⟨start, blocks, rfl, allocated⟩
    · simp only [arena, failed]
      exact ⟨inv, trivial⟩
    · rcases release_ok inv allocated with ⟨after, done, inv', _, count, _⟩
      simp only [arena, done]
      exact ⟨inv', count⟩

end

/-- After any calls the free and the allocated runs tile the arena, both indexes hold the
free runs, no two free runs touch, and no call meets an inconsistent index. -/
theorem arena_safe {capacity blockBytes : Nat} {allocator : PageRunAllocator}
    (bounded : capacity ≤ usizeMax) (built : new capacity blockBytes = .ok allocator)
    (calls : List Call) :
    (arena.run allocator calls).Inv ∧
      (arena.run allocator calls).blockCount = capacity / blockBytes ∧
      (∀ payloadBytes, ∃ result,
        ((tryAllocate payloadBytes).step (arena.run allocator calls)).1 = .ok result) ∧
      ∀ offset error, ((release offset).step (arena.run allocator calls)).1 = .error error →
        error ∈ ["unaligned fixed-block release", "fixed-block page run was released twice"] ∧
          ((release offset).step (arena.run allocator calls)).2 = arena.run allocator calls := by
  have start := new_inv bounded built
  have step : ∀ (s : PageRunAllocator) (call : Call),
      s.Inv ∧ s.blockCount = capacity / blockBytes →
        (arena.step s call).1.Inv ∧ (arena.step s call).1.blockCount = capacity / blockBytes := by
    intro s call holds
    have next := holds.1.step call
    exact ⟨next.1, next.2.trans holds.2⟩
  have kept := Machine.run_invariant step ⟨start.1, start.2.2.1⟩ calls
  refine ⟨kept.1, kept.2, ?_, ?_⟩
  · intro payloadBytes
    rcases kept.1.tryAllocate payloadBytes with ⟨result, after, done, _⟩
    exact ⟨result, by rw [done]⟩
  · intro offset error failed
    rcases release_spec (arena.run allocator calls) offset with
      ⟨error', member, result⟩ | ⟨start, blocks, same, allocated⟩
    · rw [result] at failed ⊢
      cases failed
      exact ⟨member, rfl⟩
    · rcases release_ok kept.1 allocated with ⟨after, done, _⟩
      rw [same, done] at failed
      cases failed

/-- Four blocks, of which two runs are taken and the first is given back. -/
theorem arena_safe_fourBlocks : ∃ allocator, 1024 ≤ usizeMax ∧ new 1024 256 = .ok allocator ∧
    (arena.run allocator [.allocate 300, .allocate 10, .release 0, .release 7]).Inv :=
  ⟨_, by decide, rfl, (@arena_safe 1024 256 _ (by decide) rfl _).1⟩

/-- Whatever the calls were, once everything has been given back no fragmentation is left: any
request that the arena is large enough for is served. -/
theorem arena_merges {capacity blockBytes : Nat} {allocator : PageRunAllocator}
    (bounded : capacity ≤ usizeMax) (built : new capacity blockBytes = .ok allocator)
    {calls : List Call} (unused : (arena.run allocator calls).allocated = ∅)
    {payloadBytes bytes : Nat}
    (known : (arena.run allocator calls).allocationBytes payloadBytes = some bytes)
    (fits : bytes ≤ (arena.run allocator calls).capacity) :
    ∃ offset, ((arena.run allocator calls).allocate payloadBytes).1 = some (offset, bytes) := by
  have inv := Machine.run_invariant (fun s call (holds : Inv s) => (holds.step call).1)
    (new_inv bounded built).1 calls
  have none : ∀ start blocks, ¬ (arena.run allocator calls).Allocated start blocks := by
    simp [Allocated, unused]
  have tiling := inv.tiling
  simp only [none, or_false] at tiling
  obtain ⟨required, positive, rfl, _⟩ := allocationBytes_eq_some inv.blockBytes known
  have enough := Nat.le_of_mul_le_mul_right fits inv.blockBytes
  -- the free run of block 0 is the whole arena
  obtain ⟨start, blocks, free, zero, _⟩ := tiling.cover 0 (by omega)
  cases Nat.le_zero.mp zero
  have whole := tiling.eq_whole free inv.coalesced
  obtain ⟨starts, stored, _⟩ := (inv.sizes 0 blocks).mp free
  have found := firstFrom_isSome (mem_iff_lookup.mpr ⟨_, stored⟩) (enough.trans_eq whole.symm)
  have spec := tryAllocate_spec inv positive known
  rw [if_pos ((inv.lt_largestFree positive).mpr found)] at spec
  obtain ⟨start, after, done, _⟩ := spec
  exact ⟨_, by rw [allocate, done]⟩

/-- Three runs that are not given back in their order. -/
theorem arena_merges_threeRuns : ∃ allocator offset, new 768 256 = .ok allocator ∧
    ((arena.run allocator [.allocate 1, .allocate 1, .allocate 1, .release 256, .release 0,
      .release 512]).allocate 700).1 = some (offset, 768) := by
  obtain ⟨offset, served⟩ := @arena_merges 768 256 _ (by decide) rfl
    [.allocate 1, .allocate 1, .allocate 1, .release 256, .release 0, .release 512] rfl 700 768
    rfl (by decide)
  exact ⟨_, offset, rfl, served⟩

end PageRunAllocator

end VectorChord.Tilemaxsimd
