import VectorChord.Vchordrq.Splitting

/-!
# What a tape holds

A tape of blocks denotes a list of blocks and a directory a list of ids.  The writers add
to the end of that list, wherever they cut it, and the readers deliver it.
-/

namespace VectorChord.Vchordrq

open Collections Index Paged Rabitq List DirectoryState Blocks
open Prog hiding pure
open Collections.Blocks (Slice blocks unfinished)

variable {kind : VectorKind} {c c' : Content (RPage kind)} {tape tape' : TapeWriter kind}
  {ids ids' : List Nat} {s : RStore kind} {listed : List Nat}

/-! ## Tuples of one type -/

/-- All tuples of the tape are of one type. -/
def Uniform {α : Type} (as : Tuple kind → Option α) (c : Content (RPage kind))
    (ids : List Nat) : Prop :=
  ∀ tuple ∈ tuplesOn (pageIn c) ids, (as tuple).isSome

section
variable {α : Type} {as : Tuple kind → Option α}

theorem Uniform.grow {added : List (Tuple kind)} (uniform : Uniform as c ids)
    (grows : Grows c c' ids ids' added) (new : ∀ tuple ∈ added, (as tuple).isSome) :
    Uniform as c' ids' := by
  intro tuple member
  rw [grows.tuples] at member
  cases mem_append.mp member with
  | inl old => exact uniform tuple old
  | inr late => exact new tuple late

theorem Uniform.typed (uniform : Uniform as c ids) (writes : Writes c tape ids) {id : Nat}
    (member : id ∈ ids) : Typed as (pageIn c id) :=
  ⟨writes.dense id member,
    fun tuple found => uniform tuple (mem_flatMap.mpr ⟨id, member, found⟩)⟩

end

/-- A tape that is written can be walked. -/
theorem Writes.walkable (writes : Writes s.content tape ids) : Walkable s ids tape.first where
  size := writes.size
  head := by
    obtain ⟨rest, split⟩ := head?_eq_some_iff.mp writes.head
    rw [split, headD_cons]
  linked := writes.linked
  inside := writes.inside
  nodup := writes.nodup

/-! ## Blocks -/

section
variable {η β : Type} {as : Tuple kind → Option (Slice η Row)} {dim : Nat}
  {written : List (η × List Row)}

/-- The slices of a tape. -/
def slicesIn (as : Tuple kind → Option (Slice η Row)) (c : Content (RPage kind))
    (ids : List Nat) : List (Slice η Row) :=
  (tuplesOn (pageIn c) ids).filterMap as

/-- A writer at the end of a tape with the given blocks, each with the rows of a vector of
the given dimension. -/
structure BlockTape (as : Tuple kind → Option (Slice η Row)) (dim : Nat)
    (c : Content (RPage kind)) (tape : TapeWriter kind) (ids : List Nat)
    (written : List (η × List Row)) : Prop where
  writes : Writes c tape ids
  uniform : Uniform as c ids
  finished : unfinished [] (slicesIn as c ids) = []
  blocks : blocks [] (slicesIn as c ids) = written
  full : ∀ block ∈ written, block.2.length = (dim + 3) / 4

namespace BlockTape

/-- A block is added in any number of slices. -/
theorem grow {slice closing : List Row → Tuple kind} {parts : List (List Row)}
    {last : List Row} {header : η} (holds : BlockTape as dim c tape ids written)
    (writes : Writes c' tape' ids')
    (grows : Grows c c' ids ids' (parts.map slice ++ [closing last]))
    (sliced : ∀ part, as (slice part) = some (none, part))
    (closed : as (closing last) = some (some header, last))
    (full : (parts.flatten ++ last).length = (dim + 3) / 4) :
    BlockTape as dim c' tape' ids' (written ++ [(header, parts.flatten ++ last)]) := by
  have slices : slicesIn as c' ids' =
      slicesIn as c ids ++ (parts.map (fun part => (none, part)) ++ [(some header, last)]) := by
    rw [slicesIn, slicesIn, grows.tuples]
    simp [closed, filterMap_map, sliced]
  exact {
    writes := writes
    uniform := by
      apply holds.uniform.grow grows
      intro tuple member
      cases mem_append.mp member with
      | inl part =>
        obtain ⟨rows, _, rfl⟩ := mem_map.mp part
        rw [sliced]
        rfl
      | inr ending =>
        rw [mem_singleton.mp ending, closed]
        rfl
    finished := by
      rw [slices, unfinished_append, holds.finished, unfinished_append]
      rfl
    blocks := by
      rw [slices, blocks_append, holds.finished, holds.blocks, blocks_slices,
        nil_append]
    full := by
      intro block member
      cases mem_append.mp member with
      | inl old => exact holds.full block old
      | inr new =>
        rw [mem_singleton.mp new]
        exact full }

theorem congr (holds : BlockTape as dim c tape ids written) (writes : Writes c' tape ids)
    (same : ∀ id ∈ ids, pageIn c' id = pageIn c id) : BlockTape as dim c' tape ids written := by
  have tuples := tuplesOn_congr same
  have slices : slicesIn as c' ids = slicesIn as c ids := by rw [slicesIn, slicesIn, tuples]
  refine ⟨writes, ?_, slices ▸ holds.finished, slices ▸ holds.blocks, holds.full⟩
  rw [Uniform, tuples]
  exact holds.uniform

/-- A new tape has no blocks. -/
theorem of_clear {id : Nat} (writes : Writes c tape [id])
    (empty : (pageIn c id).tuples = []) : BlockTape as dim c tape [id] [] := by
  have none : tuplesOn (pageIn c) [id] = [] := by simp [tuplesOn, empty]
  exact {
    writes := writes
    uniform := by simp [Uniform, none]
    finished := by simp [slicesIn, none, unfinished]
    blocks := by simp [slicesIn, none, Blocks.blocks]
    full := by simp }

end BlockTape

/-- `read_h1_tape` or `read_frozen_tape` over a whole tape. -/
def readTape (as : Tuple kind → Option (Slice η Row)) (dim : Nat)
    (values : η → List Row → List β) (first : Nat) : RProg kind (List β) := do
  let (_, results) ← forNext .plain first (([], []) : List Row × List β)
    fun state _ page => readBlocks as dim values state page
  pure results

section
variable {s : RStore kind}

theorem BlockTape.slices (ids : List Nat) :
    (ids.flatMap fun id => slicesOf as (pageAt s id)) = slicesIn as s.content ids := by
  rw [slicesIn, tuplesOn, filterMap_flatMap]
  rfl

theorem BlockTape.fullBlocks (holds : BlockTape as dim s.content tape ids written) :
    FullBlocks dim [] (ids.flatMap fun id => slicesOf as (pageAt s id)) := by
  rw [FullBlocks, slices, holds.blocks]
  exact holds.full

/-- A reader delivers the blocks of the tape. -/
theorem BlockTape.yields_readTape {u : Nat} (quiet : s.Quiet)
    (holds : BlockTape as dim s.content tape ids written) (values : η → List Row → List β) :
    Prog.Yields u s (readTape as dim values tape.first)
      (written.flatMap fun block => values block.1 block.2) := by
  have typed : ∀ id ∈ ids, Typed as (pageAt s id) :=
    fun id member => holds.uniform.typed holds.writes member
  have walked : Prog.Yields u s (forNext .plain tape.first
      (blockState as values [] (pageAt s) []) fun state _ page =>
        readBlocks as dim values state page) (blockState as values [] (pageAt s) ids) := by
    apply yields_forNext quiet holds.writes.walkable
    intro front id back split
    exact readBlocks_blockState typed holds.fullBlocks values [] split
  apply walked.bind
  rw [blockState, slices, holds.blocks]
  exact yields_pure _

end

end

/-! ## Directories -/

/-- A writer at the end of a directory with the given ids. -/
structure DirectoryTape (c : Content (RPage kind)) (tape : TapeWriter kind)
    (ids listed : List Nat) : Prop where
  writes : Writes c tape ids
  uniform : Uniform Tuple.asDirectory c ids
  listed : ((tuplesOn (pageIn c) ids).filterMap Tuple.asDirectory).flatMap
    DirectoryTuple.elements = listed

/-- A new directory has no ids. -/
theorem DirectoryTape.of_clear {id : Nat} (writes : Writes c tape [id])
    (empty : (pageIn c id).tuples = []) : DirectoryTape c tape [id] [] := by
  have none : tuplesOn (pageIn c) [id] = [] := by simp [tuplesOn, empty]
  exact ⟨writes, by simp [Uniform, none], by simp [none]⟩

theorem DirectoryTape.congr (holds : DirectoryTape c tape ids listed) (writes : Writes c' tape ids)
    (same : ∀ id ∈ ids, pageIn c' id = pageIn c id) : DirectoryTape c' tape ids listed := by
  have tuples := tuplesOn_congr same
  refine ⟨writes, ?_, ?_⟩
  · rw [Uniform, tuples]
    exact holds.uniform
  · rw [tuples]
    exact holds.listed

theorem DirectoryTape.pageIds (holds : DirectoryTape s.content tape ids listed) :
    (ids.flatMap fun id => pageIds (pageAt s id)) = listed := by
  rw [← holds.listed, tuplesOn, filterMap_flatMap, flatMap_assoc]
  rfl

/-- `read_directory_tape` up to its `n`-th answer. -/
def readDirectory (tag : Tag) (n first : Nat) : RProg kind (List Nat) := do
  let directory ← DirectoryState.init tag first
  let (directory, window) ← DirectoryState.fill tag n directory []
  directory.close
  pure window

/-- The reader delivers the ids of the directory. -/
theorem DirectoryTape.yields_readDirectory {u : Nat} (quiet : s.Quiet)
    (holds : DirectoryTape s.content tape ids listed) (tag : Tag) (n : Nat) :
    Prog.Yields u s (readDirectory tag n tape.first) (listed.take n) := by
  let opened : DirectoryState kind := ⟨[], none, tape.first, []⟩
  have start : Walkable s ids opened.current := holds.writes.walkable
  have typed : ∀ id ∈ ids, Typed Tuple.asDirectory (pageAt s id) :=
    fun id member => holds.uniform.typed holds.writes member
  rw [readDirectory, Prog.Yields]
  simp only [bind_eq, pure_eq, returns_bind]
  apply returns_mono (returns_advance quiet start typed
    (fun _ _ now => nomatch now) rfl)
  rintro reader s' ⟨rfl, delivers, _⟩
  rw [holds.pageIds] at delivers
  apply returns_then (returns_fill quiet n delivers [])
  rintro ⟨reader', window⟩ s' ⟨rfl, filled, _⟩
  rw [returns_bind]
  apply returns_close
  exact ⟨filled, rfl⟩

section
variable [PageSpace (Tuple kind)] {dim : Nat}

/-- `DirectoryTapeWriter::push` adds the ids. -/
theorem wlp_directoryPush {listed : List Nat} (holds : DirectoryTape c tape ids listed)
    (new : List Nat) :
    (directoryPush extendIndex new tape ()).wlp (fun result c' => ∃ ids' added,
      DirectoryTape c' result.1 ids' (listed ++ new) ∧ Grows c c' ids ids' added) c := by
  apply wlp_mono (TapeWriter.wlp_putSplit holds.writes new)
  rintro ⟨tape', _⟩ c' ⟨ids', parts, last, writes, grows, split⟩
  refine ⟨ids', _, ⟨writes, ?_, ?_⟩, grows⟩
  · apply holds.uniform.grow grows
    intro tuple member
    cases mem_append.mp member with
    | inl part =>
      obtain ⟨elements, _, rfl⟩ := mem_map.mp part
      rfl
    | inr ending =>
      rw [mem_singleton.mp ending]
      rfl
  · rw [grows.tuples, filterMap_append, flatMap_append, holds.listed, ← split]
    simp [filterMap_map, Function.comp_def, Tuple.asDirectory, DirectoryTuple.elements, flatMap_map]

/-! ## Writers of blocks -/

/-- What is known after a block was written. -/
def Wrote {η α : Type} (as : Tuple kind → Option (Slice η Row)) (dim : Nat)
    (Holds : List (Branch α) → η × List Row → Prop) (c : Content (RPage kind))
    (ids : List Nat) (written : List (η × List Row)) (chunk : List (Branch α))
    (tape' : TapeWriter kind) (c' : Content (RPage kind)) : Prop :=
  ∃ ids' added block, BlockTape as dim c' tape' ids' (written ++ [block]) ∧
    Grows c c' ids ids' added ∧ Holds chunk block

/-- The loop of a splitting writer adds a block. -/
theorem BlockTape.wlp_putSplit {η : Type} {as : Tuple kind → Option (Slice η Row)}
    {written : List (η × List Row)} {estimate : Nat → Nat} {fit : Nat → Option Nat}
    {closing slice : List Row → Tuple kind} {header : η} {rows : List Row}
    (holds : BlockTape as dim c tape ids written)
    (sliced : ∀ part, as (slice part) = some (none, part))
    (closed : ∀ last, as (closing last) = some (some header, last))
    (full : rows.length = (dim + 3) / 4) :
    (tape.putSplit extendIndex estimate fit closing slice rows ()).wlp (fun result c' =>
      ∃ ids' added, BlockTape as dim c' result.1 ids' (written ++ [(header, rows)]) ∧
        Grows c c' ids ids' added) c := by
  apply wlp_mono (TapeWriter.wlp_putSplit holds.writes rows)
  rintro ⟨tape', _⟩ c' ⟨ids', parts, last, writes, grows, rfl⟩
  exact ⟨ids', _, holds.grow writes grows sliced (closed last) full, grows⟩

theorem wlp_h1Block {fix : List (List Nat) → Option (List (Fin 32 → Nat))} (fixes : Fixes fix)
    {written : List (H1Header × List Row)}
    (holds : BlockTape Tuple.asH1Slice dim c tape ids written) {chunk : List (Branch Nat)}
    (signs : ∀ branch ∈ chunk, branch.code.signs.length = dim) (prefetch : Nat) :
    (h1Block extendIndex fix chunk prefetch tape ()).wlp (fun result c' =>
      Wrote Tuple.asH1Slice dim HoldsH1 c ids written chunk result.1 c') c := by
  rw [h1Block]
  simp only [bind_eq, wlp_bind, wlp_expect]
  intro rows packed arrays fixed
  apply wlp_mono (holds.wlp_putSplit (fun _ => rfl) (fun _ => rfl)
    (length_blockRows packed signs))
  rintro result c' ⟨ids', added, grown, grows⟩
  exact ⟨ids', added, _, grown, grows, fix, arrays, fixes, fixed, rfl, packed⟩

theorem wlp_frozenBlock {written : List (FrozenHeader × List Row)}
    (holds : BlockTape Tuple.asFrozenSlice dim c tape ids written) {chunk : List (Branch Payload)}
    (group : chunk.length = 32) (signs : ∀ branch ∈ chunk, branch.code.signs.length = dim)
    (prefetch : Nat) :
    (frozenBlock extendIndex chunk prefetch tape ()).wlp (fun result c' =>
      Wrote Tuple.asFrozenSlice dim HoldsFrozen c ids written chunk result.1 c') c := by
  rw [frozenBlock]
  simp only [bind_eq, wlp_bind, wlp_expect]
  intro rows packed arrays fixed
  apply wlp_mono (holds.wlp_putSplit (fun _ => rfl) (fun _ => rfl)
    (length_blockRows packed signs))
  rintro result c' ⟨ids', added, grown, grows⟩
  exact ⟨ids', added, _, grown, grows, group, arrays, fixed, rfl, packed⟩

end

end VectorChord.Vchordrq
