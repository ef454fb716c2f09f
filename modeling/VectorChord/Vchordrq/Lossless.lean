import VectorChord.Vchordrq.Pushing

/-!
# Tapes keep what is written to them

Whatever the free space of the current page, a writer that runs alone pushes all its
branches or ids without panicking, if the relation has block numbers for the pages they
need, and the readers deliver them again in the same order.
-/

namespace VectorChord.Vchordrq

open Collections Index Paged Rabitq List TapeWriter
open Prog hiding pure

variable {kind : VectorKind} {α : Type} {t limit dim step prefetch : Nat}
  {c : Content (RPage kind)} {ids : List Nat}

/-! ## The writers of an index -/

section
variable [PageSpace (Tuple kind)] {chunk : List (Branch α)} {writer : BlockWriter kind Nat}
  {branches : List (Branch Nat)} {written : List (H1Header × List Row)}

/-- Branches of one dimension can be packed. -/
theorem exists_rows (nonempty : chunk ≠ []) (bound : chunk.length ≤ 32)
    (fits : ∀ branch ∈ chunk, branch.Fits dim step) :
    ∃ rows, blockRows chunk = some rows ∧ rows.length = (dim + 3) / 4 := by
  have signs := fun branch member => (fits branch member).signs
  obtain ⟨rows, packed⟩ := exists_blockRows nonempty bound signs
  exact ⟨rows, packed, length_blockRows packed signs⟩

theorem prefetch_lengths (fits : ∀ branch ∈ chunk, branch.Fits dim step) :
    ∀ slice ∈ chunk.map fun x => x.prefetch, slice.length = step := by
  intro slice member
  obtain ⟨branch, listed, rfl⟩ := mem_map.mp member
  exact (fits branch listed).prefetch

theorem ne_nil_of_group (group : chunk.length = 32) : chunk ≠ [] := by
  intro empty
  simp [empty] at group

theorem returns_h1 (enough : step ≤ prefetch) (supported : prefetch ≤ 32) :
    Returns t limit dim step prefetch (blockPages dim)
      (h1Block extendIndex fixGood : WriteBlock kind Nat) := by
  intro s tape chunk held group fits room
  obtain ⟨rows, packed, size⟩ := exists_rows (ne_nil_of_group group) group.le fits
  obtain ⟨arrays, fixed, length⟩ := exists_fixGood (by simpa using group) (prefetch_lengths fits)
  exact returns_h1Block held packed fixed (length ▸ enough) supported size room

theorem returns_frozen (enough : step ≤ prefetch) (supported : prefetch ≤ 32) :
    Returns t limit dim step prefetch (blockPages dim)
      (frozenBlock extendIndex : WriteBlock kind Payload) := by
  intro s tape chunk held group fits room
  obtain ⟨rows, packed, size⟩ := exists_rows (ne_nil_of_group group) group.le fits
  obtain ⟨arrays, fixed, length⟩ := exists_fixGood (by simpa using group) (prefetch_lengths fits)
  exact returns_frozenBlock held packed fixed (length ▸ enough) supported size room

theorem adds_h1 : Adds Tuple.asH1Slice dim step HoldsH1
    (h1Block extendIndex fixGood : WriteBlock kind Nat) := by
  intro c tape ids written chunk prefetch holds _ fits
  exact wlp_h1Block fixes_fixGood holds (fun branch member => (fits branch member).signs) prefetch

theorem adds_frozen : Adds Tuple.asFrozenSlice dim step HoldsFrozen
    (frozenBlock extendIndex : WriteBlock kind Payload) := by
  intro c tape ids written chunk prefetch holds group fits
  exact wlp_frozenBlock holds group (fun branch member => (fits branch member).signs) prefetch

/-- `H1TapeWriter::flush` returns. -/
theorem returns_h1Flush (enough : step ≤ prefetch) (supported : prefetch ≤ 32)
    {s : RStore kind} (held : Held t s writer.tape) (waiting : Waiting dim step prefetch writer)
    (room : s.pages.length + blockPages dim ≤ limit) :
    (h1Flush extendIndex writer ()).returns t limit (fun result s' => Held t s' result.1) s := by
  rw [h1Flush]
  split_ifs with empty
  · exact held
  · have bound := waiting.short.le
    obtain ⟨rows, packed, size⟩ := exists_rows empty bound waiting.fits
    obtain ⟨arrays, fixed, length⟩ := exists_fixBad (by simpa using empty) (by simpa using bound)
      (prefetch_lengths waiting.fits)
    rw [waiting.prefetch]
    apply returns_mono
      (returns_h1Block held packed fixed (length ▸ enough) supported size room)
    exact fun result s' written => written.1

/-- `H1TapeWriter::flush` adds the rest. -/
theorem wlp_h1Flush {c' : Content (RPage kind)}
    (pushed : Pushed Tuple.asH1Slice dim HoldsH1 c ids written branches writer c')
    (fits : ∀ branch ∈ branches, branch.Fits dim step) :
    (h1Flush extendIndex writer ()).wlp (fun result c'' => ∃ ids' added blocks,
      BlockTape Tuple.asH1Slice dim c'' result.1 ids' (written ++ blocks) ∧
      Grows c c'' ids ids' added ∧ InBlocks HoldsH1 branches blocks) c' := by
  obtain ⟨ids', added, stored, blocks, holds, grows, kept, split, _⟩ := pushed
  rw [h1Flush]
  split_ifs with empty
  · rw [empty, append_nil] at split
    exact ⟨ids', added, blocks, holds, grows, split ▸ kept⟩
  · have signs : ∀ branch ∈ writer.branches, branch.code.signs.length = dim := by
      intro branch member
      exact (fits branch (split ▸ mem_append_right stored member)).signs
    apply wlp_mono (wlp_h1Block fixes_fixBad holds signs _)
    rintro result c'' ⟨ids'', added', block, holds', grows', held⟩
    rw [append_assoc] at holds'
    exact ⟨ids'', _, _, holds', grows.trans grows', split ▸ kept.concat held⟩

/-! ## Writing and reading back -/

/-- A client of `H1TapeWriter`: push all branches, flush, and release the tape. -/
def h1Session (branches : List (Branch Nat)) (prefetch : Nat) (tape : TapeWriter kind) :
    RProg kind Nat := do
  let (writer, _) ← branches.foldlM
    (fun (writer, _) branch => h1Push extendIndex writer branch ())
    ((⟨tape, [], prefetch⟩ : BlockWriter kind Nat), ())
  let (tape, _) ← h1Flush extendIndex writer ()
  tape.close

/-- A client of `FrozenTapeWriter`: push all branches and release the tape.  Also returns
the branches that were left over by `into_inner`. -/
def frozenSession (branches : List (Branch Payload)) (prefetch : Nat) (tape : TapeWriter kind) :
    RProg kind (Nat × List (Branch Payload)) := do
  let (writer, _) ← branches.foldlM
    (fun (writer, _) branch => frozenPush extendIndex writer branch ())
    ((⟨tape, [], prefetch⟩ : BlockWriter kind Payload), ())
  let first ← writer.tape.close
  pure (first, writer.branches)

/-- A client of `DirectoryTapeWriter`. -/
def directorySession (ids : List Nat) (tape : TapeWriter kind) : RProg kind Nat := do
  let (tape, _) ← directoryPush extendIndex ids tape ()
  tape.close

/-- The branches of an H1 block, as an accessor that collects codes sees them. -/
def h1Values (dim : Nat) (header : H1Header) (rows : List Row) : List (Branch Nat) :=
  (header.branches rows).map (Branch.cut dim)

/-- The branches of a frozen block. -/
def frozenValues (dim : Nat) (header : FrozenHeader) (rows : List Row) :
    List (Branch Payload) :=
  (header.branches rows).map (Branch.cut dim)

variable {s : RStore kind} {tape : TapeWriter kind}

/-- The blocks of the pushed branches, and one for the rest. -/
theorem returns_h1Session (enough : step ≤ prefetch) (supported : prefetch ≤ 32)
    (held : Held t s tape) (fits : ∀ branch ∈ branches, branch.Fits dim step)
    (room : s.pages.length + (branches.length / 32 + 1) * blockPages dim ≤ limit) :
    (h1Session branches prefetch tape).returns t limit (fun _ s' => s'.Quiet) s := by
  rw [h1Session]
  rw [Nat.add_one_mul, ← add_assoc] at room
  have demand : (⟨tape, [], prefetch⟩ : BlockWriter kind Nat).demand (blockPages dim)
      branches.length = branches.length / 32 * blockPages dim := by
    rw [BlockWriter.demand, length_nil, zero_add]
  have waiting : Waiting dim step prefetch (⟨tape, [], prefetch⟩ : BlockWriter kind Nat) :=
    ⟨by simp, by simp, rfl⟩
  apply returns_then
    (returns_pushAll (returns_h1 enough supported) held waiting fits (by omega))
  rintro ⟨writer, _⟩ s' ⟨held', waiting', added⟩
  apply returns_then (returns_h1Flush enough supported held' waiting' (by omega))
  rintro ⟨tape', _⟩ s'' held''
  exact returns_close held''

theorem wlp_h1Session (holds : BlockTape Tuple.asH1Slice dim c tape ids written)
    (fits : ∀ branch ∈ branches, branch.Fits dim step) (prefetch : Nat) :
    (h1Session branches prefetch tape).wlp (fun first c' => first = tape.first ∧
      ∃ tape' ids' added blocks, tape'.first = tape.first ∧
        BlockTape Tuple.asH1Slice dim c' tape' ids' (written ++ blocks) ∧
        Grows c c' ids ids' added ∧ InBlocks HoldsH1 branches blocks) c := by
  rw [h1Session]
  apply wlp_then (wlp_pushAll adds_h1 holds fits prefetch)
  rintro ⟨writer, _⟩ c' pushed
  apply wlp_then (wlp_h1Flush pushed fits)
  rintro ⟨tape', _⟩ c'' ⟨ids', added, blocks, holds', grows, stored⟩
  have first := grows.first_eq holds.writes holds'.writes
  apply wlp_close
  exact ⟨first, tape', ids', added, blocks, first, holds', grows, stored⟩

theorem returns_frozenSession (enough : step ≤ prefetch) (supported : prefetch ≤ 32)
    (held : Held t s tape) {branches : List (Branch Payload)}
    (fits : ∀ branch ∈ branches, branch.Fits dim step)
    (room : s.pages.length + branches.length / 32 * blockPages dim ≤ limit) :
    (frozenSession branches prefetch tape).returns t limit (fun _ s' => s'.Quiet) s := by
  rw [frozenSession]
  have waiting : Waiting dim step prefetch (⟨tape, [], prefetch⟩ : BlockWriter kind Payload) :=
    ⟨by simp, by simp, rfl⟩
  apply returns_then
    (returns_pushAll (returns_frozen enough supported) held waiting fits
      (by rwa [BlockWriter.demand, length_nil, zero_add]))
  rintro ⟨writer, _⟩ s' ⟨held', _⟩
  apply returns_then (returns_close held')
  intro first s'' quiet
  exact quiet

theorem wlp_frozenSession {written : List (FrozenHeader × List Row)}
    (holds : BlockTape Tuple.asFrozenSlice dim c tape ids written)
    {branches : List (Branch Payload)} (fits : ∀ branch ∈ branches, branch.Fits dim step)
    (prefetch : Nat) :
    (frozenSession branches prefetch tape).wlp (fun result c' => result.1 = tape.first ∧
      ∃ tape' ids' stored blocks, tape'.first = tape.first ∧
        BlockTape Tuple.asFrozenSlice dim c' tape' ids' (written ++ blocks) ∧
        InBlocks HoldsFrozen stored blocks ∧ stored ++ result.2 = branches ∧
        result.2.length < 32) c := by
  rw [frozenSession]
  apply wlp_then (wlp_pushAll adds_frozen holds fits prefetch)
  rintro ⟨writer, _⟩ c' ⟨ids', added, stored, blocks, holds', grows, kept, split, short⟩
  have first := grows.first_eq holds.writes holds'.writes
  apply wlp_bind.mpr
  apply wlp_close
  exact ⟨first, writer.tape, ids', stored, blocks, first, holds', kept, split, short⟩

/-- Children that were written to an H1 tape are delivered by its readers. -/
theorem h1Session_lossless (dims : dim ≤ 60000) (lists : step ≤ count kind dim)
    (held : Held t s tape) (holds : BlockTape Tuple.asH1Slice dim s.content tape ids written)
    (fits : ∀ branch ∈ branches, branch.Fits dim step) (choices : Nat → Nat) :
    ((h1Session branches (count kind dim) tape).run t choices s = .full ∧
        invalidPage < s.pages.length + (branches.length / 32 + 1) * blockPages dim) ∨
      ∃ s', (h1Session branches (count kind dim) tape).run t choices s = .done tape.first s' ∧
        ∀ u, Prog.Yields u s' (readTape Tuple.asH1Slice dim (h1Values dim) tape.first)
          (written.flatMap (fun block => h1Values dim block.1 block.2) ++ branches) := by
  rcases run_of_returns
    (returns_h1Session lists (count_le kind dims) held fits le_rfl)
    (wlp_h1Session holds fits _) choices with full | ⟨value, s', returned, quiet, rfl, written'⟩
  · exact .inl full
  · refine .inr ⟨s', returned, ?_⟩
    obtain ⟨tape', ids', _, blocks, first, holds', _, stored⟩ := written'
    intro u
    have delivered := holds'.yields_readTape (u := u) quiet (h1Values dim)
    have values : blocks.flatMap (fun block => h1Values dim block.1 block.2) =
        branches.map id := by
      apply stored.flatMap_eq fits
      intro chunk block held fits
      rw [map_id]
      exact held.branches fits
    rw [flatMap_append, values, map_id, first] at delivered
    exact delivered

/-- Full groups and a rest of fewer than 32. -/
theorem take_drop_of_groups {stored rest branches : List α} (split : stored ++ rest = branches)
    (groups : 32 ∣ stored.length) (short : rest.length < 32) :
    branches.take (branches.length / 32 * 32) = stored ∧
      branches.drop (branches.length / 32 * 32) = rest := by
  have cut : branches.length / 32 * 32 = stored.length := by
    rw [← split, length_append]
    omega
  rw [cut, ← split]
  exact ⟨take_left, drop_left⟩

/-- Entries that were written to a frozen tape in full groups are delivered by its readers,
without their norms; the others are left over. -/
theorem frozenSession_lossless (dims : dim ≤ 60000) (lists : step ≤ count kind dim)
    (held : Held t s tape) {written : List (FrozenHeader × List Row)}
    (holds : BlockTape Tuple.asFrozenSlice dim s.content tape ids written)
    {branches : List (Branch Payload)} (fits : ∀ branch ∈ branches, branch.Fits dim step)
    (choices : Nat → Nat) :
    ((frozenSession branches (count kind dim) tape).run t choices s = .full ∧
        invalidPage < s.pages.length + branches.length / 32 * blockPages dim) ∨
      ∃ s', (frozenSession branches (count kind dim) tape).run t choices s =
          .done (tape.first, branches.drop (branches.length / 32 * 32)) s' ∧
        ∀ u, Prog.Yields u s' (readTape Tuple.asFrozenSlice dim (frozenValues dim) tape.first)
          (written.flatMap (fun block => frozenValues dim block.1 block.2) ++
            (branches.take (branches.length / 32 * 32)).map
              fun branch => { branch with norm := 0 }) := by
  rcases run_of_returns
    (returns_frozenSession lists (count_le kind dims) held fits le_rfl)
    (wlp_frozenSession holds fits _) choices with full | ⟨value, s', returned, quiet, written'⟩
  · exact .inl full
  · obtain ⟨first, rest⟩ := value
    obtain ⟨rfl, tape', ids', stored, blocks, same, holds', kept, split, short⟩ := written'
    obtain ⟨front, back⟩ := take_drop_of_groups split kept.length_frozen short
    rw [front, back]
    refine .inr ⟨s', returned, ?_⟩
    intro u
    have delivered := holds'.yields_readTape (u := u) quiet (frozenValues dim)
    have proper : ∀ branch ∈ stored, branch.Fits dim step :=
      fun branch member => fits branch (split ▸ mem_append_left rest member)
    have values : blocks.flatMap (fun block => frozenValues dim block.1 block.2) =
        stored.map fun branch => { branch with norm := 0 } := by
      apply kept.flatMap_eq proper
      intro chunk block held fits
      exact held.branches fits
    rw [flatMap_append, values, same] at delivered
    exact delivered

/-- Ids that were written to a directory are delivered by its readers. -/
theorem directorySession_lossless (held : Held t s tape) {listed : List Nat}
    (holds : DirectoryTape s.content tape ids listed) (new : List Nat) (choices : Nat → Nat) :
    ((directorySession new tape).run t choices s = .full ∧
        invalidPage < s.pages.length + (new.length / 2034 + 1)) ∨
      ∃ s', (directorySession new tape).run t choices s = .done tape.first s' ∧
        ∀ u tag n, Prog.Yields u s' (readDirectory tag n tape.first)
          ((listed ++ new).take n) := by
  have returning : (directorySession new tape).returns t
      (s.pages.length + (new.length / 2034 + 1)) (fun _ s' => s'.Quiet) s := by
    apply returns_then (returns_directoryPush held le_rfl)
    rintro result s' ⟨held', _⟩
    exact returns_close held'
  have adding : (directorySession new tape).wlp (fun first c' => first = tape.first ∧
      ∃ tape' ids', tape'.first = tape.first ∧ DirectoryTape c' tape' ids' (listed ++ new))
        s.content := by
    apply wlp_then (wlp_directoryPush holds new)
    rintro ⟨tape', _⟩ c' ⟨ids', added, holds', grows⟩
    have first := grows.first_eq holds.writes holds'.writes
    apply wlp_close
    exact ⟨first, tape', ids', first, holds'⟩
  rcases run_of_returns returning adding choices with
    full | ⟨value, s', returned, quiet, rfl, tape', ids', first, holds'⟩
  · exact .inl full
  · refine .inr ⟨s', returned, ?_⟩
    intro u tag n
    have delivered := holds'.yields_readDirectory (u := u) quiet tag n
    rw [first] at delivered
    exact delivered

/-- The splitting writers are total and lossless: whatever is on the tape and however much
space is left on its last page, all branches of one supported dimension with prefetch lists
of one length, and all ids, are written and delivered behind what was there before.  The
relation can only be full if it has fewer block numbers left than the writer needs at most:
those of a block for every 32 branches, or one for every 2034 ids, and one more. -/
theorem writers_lossless (dims : dim ≤ 60000) (lists : step ≤ count kind dim)
    (held : Held t s tape) (choices : Nat → Nat) :
    (∀ written branches, BlockTape Tuple.asH1Slice dim s.content tape ids written →
      (∀ branch ∈ branches, branch.Fits dim step) →
      ((h1Session branches (count kind dim) tape).run t choices s = .full ∧
          invalidPage < s.pages.length + (branches.length / 32 + 1) * blockPages dim) ∨
        ∃ s', (h1Session branches (count kind dim) tape).run t choices s =
            .done tape.first s' ∧
          ∀ u, Prog.Yields u s' (readTape Tuple.asH1Slice dim (h1Values dim) tape.first)
            (written.flatMap (fun block => h1Values dim block.1 block.2) ++ branches)) ∧
    (∀ written branches, BlockTape Tuple.asFrozenSlice dim s.content tape ids written →
      (∀ branch ∈ branches, branch.Fits dim step) →
      ((frozenSession branches (count kind dim) tape).run t choices s = .full ∧
          invalidPage < s.pages.length + branches.length / 32 * blockPages dim) ∨
        ∃ s', (frozenSession branches (count kind dim) tape).run t choices s =
            .done (tape.first, branches.drop (branches.length / 32 * 32)) s' ∧
          ∀ u, Prog.Yields u s'
            (readTape Tuple.asFrozenSlice dim (frozenValues dim) tape.first)
            (written.flatMap (fun block => frozenValues dim block.1 block.2) ++
              (branches.take (branches.length / 32 * 32)).map
                fun branch => { branch with norm := 0 })) ∧
    ∀ listed new, DirectoryTape s.content tape ids listed →
      ((directorySession new tape).run t choices s = .full ∧
          invalidPage < s.pages.length + (new.length / 2034 + 1)) ∨
        ∃ s', (directorySession new tape).run t choices s = .done tape.first s' ∧
          ∀ u tag n, Prog.Yields u s' (readDirectory tag n tape.first)
            ((listed ++ new).take n) := by
  refine ⟨?_, ?_, ?_⟩
  · intro written branches holds fits
    exact h1Session_lossless dims lists held holds fits choices
  · intro written branches holds fits
    exact frozenSession_lossless dims lists held holds fits choices
  · intro listed new holds
    exact directorySession_lossless held holds new choices

end

/-- A new tape of an otherwise empty relation, still latched. -/
def newTape : TapeWriter .vecf32 := ⟨0, setSkip (Page.clear .last) 0, 0, false⟩

def newStore : RStore .vecf32 :=
  ⟨[setSkip (Page.clear .last) 0], [⟨0, 0, .exclusive, .plain⟩], []⟩

theorem writes_newTape : Writes newStore.content newTape [0] where
  size := by decide
  head := rfl
  last := ⟨[], rfl⟩
  inside := by decide
  nodup := nodup_singleton 0
  linked := ⟨rfl, trivial⟩
  page := rfl
  dense := by
    intro id member
    rw [mem_singleton.mp member]
    rfl

/-- A branch of dimension one. -/
def smallBranch (norm : Word) (extra : α) : Branch α :=
  ⟨⟨⟨0, 0, 0, 0⟩, [true]⟩, 0, [7], 1, norm, extra⟩

def somePayload : Payload := ⟨1, by decide⟩

theorem fits_smallBranch (norm : Word) (extra : α) (count : Nat) :
    ∀ branch ∈ List.replicate count (smallBranch norm extra), branch.Fits 1 1 := by
  intro branch member
  rw [eq_of_mem_replicate member]
  exact ⟨rfl, rfl⟩

local instance newTapePolicy : PageSpace (Tuple .vecf32) := Slotted.firstFree

/-- Two children, 33 entries and three ids are written to new tapes. -/
theorem writers_lossless_newTape :
    (∃ s', (h1Session (List.replicate 2 (smallBranch 5 9)) 1 newTape).run 0 (fun _ => 0)
          newStore = .done 0 s' ∧
        ∀ u, Prog.Yields u s' (readTape Tuple.asH1Slice 1 (h1Values 1) 0)
          (List.replicate 2 (smallBranch 5 9))) ∧
    (∃ s', (frozenSession (List.replicate 33 (smallBranch 5 somePayload)) 1 newTape).run 0
          (fun _ => 0) newStore = .done (0, [smallBranch 5 somePayload]) s' ∧
        ∀ u, Prog.Yields u s' (readTape Tuple.asFrozenSlice 1 (frozenValues 1) 0)
          (List.replicate 32 (smallBranch 0 somePayload))) ∧
    ∃ s', (directorySession [3, 1, 2] newTape).run 0 (fun _ => 0) newStore = .done 0 s' ∧
        ∀ u tag n, Prog.Yields u s' (readDirectory tag n 0) ([3, 1, 2].take n) := by
  have lossless := @writers_lossless .vecf32 0 1 1 [0] _ newStore newTape (by decide) (by decide)
    ⟨⟨.plain, rfl⟩, by decide, rfl⟩ fun _ => 0
  refine ⟨?_, ?_, ?_⟩
  · exact (lossless.1 [] _ (BlockTape.of_clear writes_newTape rfl)
      (fits_smallBranch 5 9 2)).resolve_left fun full => absurd full.2 (by decide)
  · exact (lossless.2.1 [] _ (BlockTape.of_clear writes_newTape rfl)
      (fits_smallBranch 5 somePayload 33)).resolve_left fun full => absurd full.2 (by decide)
  · exact (lossless.2.2 [] [3, 1, 2]
      (DirectoryTape.of_clear writes_newTape rfl)).resolve_left fun full =>
        absurd full.2 (by decide)

/-- What the writers do not keep.  A frozen tape has no norms: pushing the last branch of a
group with another norm is the same program, so neither the pages nor the writer tell the
two apart.  A group whose prefetch lists have different lengths is not written, and neither
are lists that are longer than those of the vectors of the index. -/
theorem blocks_not_lossless :
    (∃ left right : Branch Payload, left ≠ right ∧ left.Fits 1 1 ∧ right.Fits 1 1 ∧
      ∀ (_ : PageSpace (Tuple .vecf32)) (tape : TapeWriter .vecf32) (prefetch : Nat),
        frozenPush extendIndex ⟨tape, List.replicate 31 left, prefetch⟩ left () =
          frozenPush extendIndex ⟨tape, List.replicate 31 left, prefetch⟩ right ()) ∧
    (∃ left right : Branch Nat, left.Fits 1 1 ∧ right.Fits 1 0 ∧
      (h1Session [left, right] (count .vecf32 1) newTape).run 0 (fun _ => 0) newStore = .stuck) ∧
    ∃ long : Branch Nat, long.Fits 1 56 ∧
      (h1Session [long] (count .vecf32 1) newTape).run 0 (fun _ => 0) newStore = .stuck := by
  refine ⟨?_, ?_, ?_⟩
  · refine ⟨smallBranch 0 somePayload, smallBranch 1 somePayload, ?_, ⟨rfl, rfl⟩, ⟨rfl, rfl⟩, ?_⟩
    · intro same
      have norms := congrArg Branch.norm same
      simp [smallBranch] at norms
    · intro policy tape prefetch
      rfl
  · exact ⟨smallBranch 5 9, { smallBranch 5 9 with prefetch := [] }, ⟨rfl, rfl⟩, ⟨rfl, rfl⟩, rfl⟩
  · exact ⟨{ smallBranch 5 9 with prefetch := List.replicate 56 7 }, ⟨rfl, rfl⟩,
      Outcome.eq_stuck (by decide +kernel)⟩

end VectorChord.Vchordrq
