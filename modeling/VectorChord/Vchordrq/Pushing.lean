import VectorChord.Vchordrq.BlockTape

/-!
# Pushing branches

The writers of blocks collect branches and write a block of every 32.  If blocks can be
written and are added to the tape, then so are all branches, apart from the unfinished
group at the end.
-/

namespace VectorChord.Vchordrq

open Collections Index Paged Rabitq List
open Collections.Blocks (Slice)

variable {kind : VectorKind} {α η : Type}

/-! ## Groups -/

/-- The blocks hold the branches, some in each of them. -/
def InBlocks (Holds : List (Branch α) → η × List Row → Prop) (branches : List (Branch α))
    (blocks : List (η × List Row)) : Prop :=
  ∃ chunks, List.Forall₂ Holds chunks blocks ∧ chunks.flatten = branches

namespace InBlocks

variable {Holds : List (Branch α) → η × List Row → Prop} {branches : List (Branch α)}
  {blocks : List (η × List Row)}

theorem nil : InBlocks Holds [] [] := ⟨[], .nil, rfl⟩

theorem concat (stored : InBlocks Holds branches blocks) {chunk : List (Branch α)}
    {block : η × List Row} (holds : Holds chunk block) :
    InBlocks Holds (branches ++ chunk) (blocks ++ [block]) := by
  obtain ⟨chunks, all, rfl⟩ := stored
  exact ⟨chunks ++ [chunk], rel_append all (.cons holds .nil), by simp⟩

/-- What a reader makes of the blocks is what it makes of the branches. -/
theorem flatMap_eq {β : Type} {P : Branch α → Prop} {values : η × List Row → List β}
    {value : Branch α → β} (stored : InBlocks Holds branches blocks)
    (proper : ∀ branch ∈ branches, P branch)
    (each : ∀ chunk block, Holds chunk block → (∀ branch ∈ chunk, P branch) →
      values block = chunk.map value) :
    blocks.flatMap values = branches.map value := by
  obtain ⟨chunks, all, rfl⟩ := stored
  induction all with
  | nil => rfl
  | @cons chunk block chunks blocks holds _ ih =>
    rw [flatMap_cons, flatten_cons, map_append,
      each chunk block holds fun branch member => proper branch (by simp [member]),
      ih fun branch member => proper branch (mem_append_right _ member)]

/-- Frozen blocks are full groups. -/
theorem length_frozen {branches : List (Branch Payload)}
    {blocks : List (FrozenHeader × List Row)} (stored : InBlocks HoldsFrozen branches blocks) :
    32 ∣ branches.length := by
  obtain ⟨chunks, all, rfl⟩ := stored
  induction all with
  | nil => exact Nat.dvd_zero 32
  | cons holds _ ih =>
    rw [flatten_cons, length_append, holds.1]
    exact Nat.dvd_add (Nat.dvd_refl 32) ih

end InBlocks

/-! ## Pushing -/

/-- How a block is written. -/
abbrev WriteBlock (kind : VectorKind) (α : Type) :=
  List (Branch α) → Nat → TapeWriter kind → Unit → RProg kind (TapeWriter kind × Unit)

/-- What `H1TapeWriter::push` and `FrozenTapeWriter::push` have in common. -/
def pushWith (write : WriteBlock kind α) (writer : BlockWriter kind α) (branch : Branch α) :
    RProg kind (BlockWriter kind α × Unit) :=
  if (writer.branches ++ [branch]).length = 32 then do
    let (tape, state) ← write (writer.branches ++ [branch]) writer.prefetch writer.tape ()
    pure ({ writer with tape := tape, branches := [] }, state)
  else pure ({ writer with branches := writer.branches ++ [branch] }, ())

variable {t limit dim step prefetch pages : Nat} {write : WriteBlock kind α}

/-- A writer with fewer than 32 branches of its unfinished block. -/
structure Waiting (dim step prefetch : Nat) (writer : BlockWriter kind α) : Prop where
  fits : ∀ branch ∈ writer.branches, branch.Fits dim step
  short : writer.branches.length < 32
  prefetch : writer.prefetch = prefetch

/-- Blocks of 32 can be written, with a number of new pages for each of them. -/
def Returns (t limit dim step prefetch pages : Nat) (write : WriteBlock kind α) : Prop :=
  ∀ s tape chunk, Held t s tape → chunk.length = 32 → (∀ branch ∈ chunk, branch.Fits dim step) →
    s.pages.length + pages ≤ limit →
    (write chunk prefetch tape ()).returns t limit (fun result s' => Held t s' result.1 ∧
      s'.pages.length ≤ s.pages.length + pages) s

variable {writer : BlockWriter kind α} {branch : Branch α} {branches : List (Branch α)}
  {as : Tuple kind → Option (Slice η Row)} {Holds : List (Branch α) → η × List Row → Prop}
  {c : Content (RPage kind)} {ids : List Nat} {written : List (η × List Row)}

/-- The pages for the blocks that will be full when some more branches have come. -/
def BlockWriter.demand (writer : BlockWriter kind α) (pages more : Nat) : Nat :=
  (writer.branches.length + more) / 32 * pages

/-- One more branch. -/
theorem returns_pushWith (returning : Returns t limit dim step prefetch pages write)
    {s : RStore kind} (held : Held t s writer.tape) (waiting : Waiting dim step prefetch writer)
    (fits : branch.Fits dim step) {more : Nat}
    (room : s.pages.length + writer.demand pages (more + 1) ≤ limit) :
    (pushWith write writer branch).returns t limit (fun result s' =>
      Held t s' result.1.tape ∧ Waiting dim step prefetch result.1 ∧
        s'.pages.length + result.1.demand pages more ≤
          s.pages.length + writer.demand pages (more + 1)) s := by
  have all : ∀ other ∈ writer.branches ++ [branch], other.Fits dim step := by
    intro other member
    cases mem_append.mp member with
    | inl old => exact waiting.fits other old
    | inr new => exact mem_singleton.mp new ▸ fits
  rw [pushWith]
  split_ifs with full
  · have blocks : (writer.branches.length + (more + 1)) / 32 = (0 + more) / 32 + 1 := by
      rw [length_append, length_singleton] at full
      omega
    rw [BlockWriter.demand, blocks, Nat.add_one_mul] at room ⊢
    rw [waiting.prefetch]
    apply Prog.returns_then (returning s writer.tape _ held full all (by omega))
    rintro result s' ⟨held', added⟩
    refine ⟨held', ⟨by simp, by simp, rfl⟩, ?_⟩
    dsimp only [BlockWriter.demand, length_nil]
    omega
  · have short := waiting.short
    rw [length_append, length_singleton] at full
    refine ⟨held, ⟨all, ?_, waiting.prefetch⟩, ?_⟩
    · rw [length_append, length_singleton]
      omega
    · dsimp only [BlockWriter.demand]
      rw [length_append, length_singleton, add_right_comm, add_assoc]

/-- All branches. -/
theorem returns_pushAll (returning : Returns t limit dim step prefetch pages write)
    {s : RStore kind} (held : Held t s writer.tape) (waiting : Waiting dim step prefetch writer)
    (fits : ∀ branch ∈ branches, branch.Fits dim step)
    (room : s.pages.length + writer.demand pages branches.length ≤ limit) :
    (branches.foldlM (fun state branch => pushWith write state.1 branch) (writer, ())).returns
      t limit (fun result s' => Held t s' result.1.tape ∧ Waiting dim step prefetch result.1 ∧
        s'.pages.length ≤ s.pages.length + writer.demand pages branches.length) s := by
  generalize total : s.pages.length + writer.demand pages branches.length = bound at room ⊢
  apply Prog.returns_foldlM fun rest state s => (∀ branch ∈ rest, branch.Fits dim step) ∧
    Held t s state.1.tape ∧ Waiting dim step prefetch state.1 ∧
      s.pages.length + state.1.demand pages rest.length ≤ bound
  · rintro branch rest ⟨writer, _⟩ s ⟨fits, held, waiting, within⟩
    apply Prog.returns_mono (returns_pushWith returning held waiting
      (fits branch mem_cons_self) (within.trans room))
    rintro result s' ⟨held', waiting', fewer⟩
    exact ⟨fun other member => fits other (mem_cons_of_mem branch member), held', waiting',
      fewer.trans within⟩
  · rintro state s ⟨_, held', waiting', within⟩
    exact ⟨held', waiting', (Nat.le_add_right _ _).trans within⟩
  · exact ⟨fits, held, waiting, total.le⟩

/-! ## What was pushed -/

/-- Blocks of 32 are added to the tape. -/
def Adds (as : Tuple kind → Option (Slice η Row)) (dim step : Nat)
    (Holds : List (Branch α) → η × List Row → Prop) (write : WriteBlock kind α) : Prop :=
  ∀ c tape ids written chunk prefetch, BlockTape as dim c tape ids written →
    chunk.length = 32 → (∀ branch ∈ chunk, branch.Fits dim step) →
    (write chunk prefetch tape ()).wlp (fun result c' =>
      Wrote as dim Holds c ids written chunk result.1 c') c

/-- The writer has put some branches on the tape, behind what was there, and is left with
the others. -/
def Pushed (as : Tuple kind → Option (Slice η Row)) (dim : Nat)
    (Holds : List (Branch α) → η × List Row → Prop) (c : Content (RPage kind))
    (ids : List Nat) (written : List (η × List Row)) (branches : List (Branch α))
    (writer : BlockWriter kind α) (c' : Content (RPage kind)) : Prop :=
  ∃ ids' added stored blocks, BlockTape as dim c' writer.tape ids' (written ++ blocks) ∧
    Grows c c' ids ids' added ∧ InBlocks Holds stored blocks ∧
    stored ++ writer.branches = branches ∧ writer.branches.length < 32

theorem wlp_pushWith (adds : Adds as dim step Holds write) {c' : Content (RPage kind)}
    (pushed : Pushed as dim Holds c ids written branches writer c')
    (fits : ∀ other ∈ writer.branches ++ [branch], other.Fits dim step) :
    (pushWith write writer branch).wlp (fun result c'' =>
      Pushed as dim Holds c ids written (branches ++ [branch]) result.1 c'') c' := by
  obtain ⟨ids', added, stored, blocks, holds, grows, kept, split, short⟩ := pushed
  rw [pushWith]
  split_ifs with full
  · apply Prog.wlp_then (adds c' writer.tape ids' _ _ writer.prefetch holds full fits)
    rintro ⟨tape', _⟩ c'' ⟨ids'', added', block, holds', grows', held⟩
    rw [append_assoc] at holds'
    refine ⟨ids'', _, _, _, holds', grows.trans grows', kept.concat held, ?_, ?_⟩
    · rw [← split]
      simp
    · simp
  · rw [length_append, length_singleton] at full
    refine ⟨ids', added, stored, blocks, holds, grows, kept, ?_, ?_⟩
    · rw [← split]
      simp
    · rw [length_append, length_singleton]
      omega

theorem wlp_pushAll (adds : Adds as dim step Holds write) {tape : TapeWriter kind}
    (holds : BlockTape as dim c tape ids written) (fits : ∀ branch ∈ branches, branch.Fits dim step)
    (prefetch : Nat) :
    (branches.foldlM (fun state branch => pushWith write state.1 branch)
      ((⟨tape, [], prefetch⟩ : BlockWriter kind α), ())).wlp (fun result c' =>
        Pushed as dim Holds c ids written branches result.1 c') c := by
  apply Prog.wlp_foldlM fun rest state c' => ∃ front, branches = front ++ rest ∧
    Pushed as dim Holds c ids written front state.1 c'
  · rintro branch rest ⟨writer, _⟩ c' ⟨front, split, pushed⟩
    have known : ∀ other ∈ writer.branches ++ [branch], other.Fits dim step := by
      obtain ⟨_, _, stored, _, _, _, _, parts, _⟩ := pushed
      intro other member
      apply fits
      rw [split, ← parts]
      cases mem_append.mp member with
      | inl old => simp [show other ∈ writer.branches from old]
      | inr new => simp [mem_singleton.mp new]
    apply Prog.wlp_mono (wlp_pushWith adds pushed known)
    intro result c'' pushed'
    exact ⟨front ++ [branch], by simp [split], pushed'⟩
  · rintro state c' ⟨front, split, pushed⟩
    rw [split, append_nil]
    exact pushed
  · refine ⟨[], rfl, ids, [], [], [], ?_, Grows.refl c ids, InBlocks.nil, rfl, by simp⟩
    rw [append_nil]
    exact holds

end VectorChord.Vchordrq
