import VectorChord.Paged.Returning
import VectorChord.Vchordrq.Nodes

/-!
# The splitting writers return

The writers of directories and blocks cut their elements by estimates of the sizes that
are written afterwards.  The estimates agree with the sizes, a slice that is cut always
fits, and a page is only given up after something was written to it.  A clear page takes
so many elements, or all of them, so the number of elements bounds the pages that are
added.  A writer that runs alone returns if there are block numbers for them.
-/

namespace VectorChord.Vchordrq

open Collections Index Paged Rabitq TapeWriter
open Prog hiding pure

variable {kind : VectorKind} {t limit : Nat} {s : RStore kind} {tape : TapeWriter kind}

/-! ## Writing alone -/

/-- The writer has latched the last page of its tape and nothing else. -/
structure Held (t : Nat) (s : RStore kind) (tape : TapeWriter kind) : Prop where
  latch : ∃ tag, s.latches = [⟨t, tape.head, .exclusive, tag⟩]
  inside : tape.head < s.pages.length
  dense : tape.page.Dense

namespace Held

theorem holds (held : Held t s tape) : s.holds t tape.head .exclusive = true := by
  obtain ⟨tag, latches⟩ := held.latch
  simp [Store.holds, Store.isLatch, latches]

variable [PageSpace (Tuple kind)]

theorem freespace_le (held : Held t s tape) : tape.freespace ≤ clearSpace :=
  held.dense.freespace_le

/-- A page without slots is clear. -/
theorem len_ne_zero (_ : Held t s tape) (smaller : tape.freespace < clearSpace) :
    tape.page.len ≠ 0 := by
  intro empty
  have slots : tape.page.slots = [] := List.length_eq_zero_iff.mp empty
  have same : tape.page = Page.clear tape.page.special := by
    rw [Page.clear, ← slots]
  rw [freespace, same, PageSpace.freespace_clear] at smaller
  exact lt_irrefl _ smaller

end Held

namespace TapeWriter

theorem returns_moveOn [PageSpace (Tuple kind)] (held : Held t s tape)
    (below : s.pages.length < limit) :
    (tape.moveOn extendIndex ()).returns t limit (fun result s' => Held t s' result.1 ∧
      result.1.freespace = clearSpace ∧ s.pages.length < invalidPage ∧
      s'.pages.length = s.pages.length + 1) s := by
  obtain ⟨tag, latches⟩ := held.latch
  have inside := held.inside
  have apart : s.pages.length ≠ tape.head := by omega
  rw [moveOn, extendIndex]
  apply returns_extend below
  intro room
  apply returns_put
  · simp [Store.holds, Store.isLatch, Store.acquire, Store.track, Store.addPage, latches]
  apply returns_dropWrite
  · simp [Store.holds, Store.isLatch, Store.acquire, Store.track, Store.addPage,
      Store.putPage, latches]
  refine ⟨⟨⟨.plain, ?_⟩, ?_, Page.dense_clear _⟩, PageSpace.freespace_clear _, room, ?_⟩
  · simp [Store.release, Store.isLatch, Store.acquire, Store.track, Store.addPage,
      Store.putPage, latches, apart]
  · simp [Store.release, Store.acquire, Store.track, Store.addPage, Store.putPage]
  · simp [Store.release, Store.acquire, Store.track, Store.addPage, Store.putPage]

/-- Releasing the tape leaves nothing latched. -/
theorem returns_close (held : Held t s tape) :
    tape.close.returns t limit (fun _ s' => s'.Quiet) s := by
  obtain ⟨tag, latches⟩ := held.latch
  apply returns_dropWrite held.holds
  intro id
  simp [Store.readable, Store.release, Store.isLatch, latches]

variable [PageSpace (Tuple kind)]

/-- A tuple that fits into the free space is put on the current page. -/
theorem returns_tapePut (held : Held t s tape) {tuple : Tuple kind}
    (fits : align8 tuple.size ≤ tape.freespace) :
    (tape.tapePut tuple).returns t limit (fun result s' => Held t s' result.2 ∧
      result.2.freespace = tape.freespace - 4 - align8 tuple.size ∧
      s'.pages.length = s.pages.length) s := by
  have dense := held.dense
  have allocated := (PageSpace.alloc_dense tuple dense).trans (if_pos fits)
  rw [tapePut]
  simp only [bind_eq, pure_eq, returns_bind]
  apply returns_expect allocated
  apply returns_put held.holds
  refine ⟨⟨held.latch, ?_, Page.dense_mk _ _⟩, ?_, ?_⟩
  · simpa [Store.putPage] using held.inside
  · have smaller := PageSpace.freespace_append tape.page tuple
    rw [dense] at smaller
    rw [freespace, List.map_append, List.map_singleton, smaller, Nat.sub_sub]
    rfl
  · simp [Store.putPage]

end TapeWriter

/-! ## Cutting -/

/-- Estimates that a splitting writer can rely on.  `slice` is the size of a slice, and a
clear page takes `per` elements if it does not take all of them. -/
structure Cuts (estimate : Nat → Nat) (fit : Nat → Option Nat) (slice : Nat → Nat)
    (per : Nat) : Prop where
  positive : 0 < per
  nonempty : ∀ k, 0 < slice k
  fits : ∀ f w k, fit f = some w → k ≤ w → slice k ≤ f
  takes : ∀ n, clearSpace < estimate n → ∃ w, fit clearSpace = some w ∧ per ≤ min w n

/-- The pages that are added at most for `n` elements, if `f` bytes of the current page are
free. -/
def pagesFor (per n f : Nat) : Nat := n / per + if f = clearSpace then 0 else 1

theorem pagesFor_le (per n f : Nat) : pagesFor per n f ≤ n / per + 1 := by
  rw [pagesFor]
  split_ifs <;> omega

theorem pagesFor_of_ne {per n f : Nat} (used : f ≠ clearSpace) :
    pagesFor per n f = n / per + 1 := by
  rw [pagesFor, if_neg used]

section
variable {ε : Type} {estimate : Nat → Nat} {fit : Nat → Option Nat} {sliceSize : Nat → Nat}
  {per n f w : Nat} {closing slice : List ε → Tuple kind}

/-- A slice takes some room and no page; what it leaves needs no more pages. -/
theorem Cuts.cut (cuts : Cuts estimate fit sliceSize per) (bound : f ≤ clearSpace)
    (large : f < estimate n) (fitted : fit f = some w) :
    f - 4 - sliceSize (min w n) < f ∧
      pagesFor per (n - min w n) (f - 4 - sliceSize (min w n)) ≤ pagesFor per n f := by
  have room := cuts.fits f w (min w n) fitted (min_le_left w n)
  have nonempty := cuts.nonempty (min w n)
  have smaller : f - 4 - sliceSize (min w n) < f := by omega
  refine ⟨smaller, ?_⟩
  rw [pagesFor_of_ne (smaller.trans_le bound).ne]
  by_cases clear : f = clearSpace
  · obtain ⟨w', fitted', enough⟩ := cuts.takes n (clear ▸ large)
    rw [← clear, fitted, Option.some.injEq] at fitted'
    subst fitted'
    have fewer : (n - min w n) / per ≤ (n - per) / per :=
      Nat.div_le_div_right (Nat.sub_le_sub_left enough n)
    rw [pagesFor, if_pos clear,
      Nat.div_eq_sub_div cuts.positive (enough.trans (min_le_right w n))]
    omega
  · rw [pagesFor_of_ne clear]
    exact Nat.succ_le_succ (Nat.div_le_div_right (Nat.sub_le _ _))

/-- A clear page is not given up. -/
theorem Cuts.move (cuts : Cuts estimate fit sliceSize per) (large : f < estimate n)
    (fitted : fit f = none) : f ≠ clearSpace := by
  intro clear
  obtain ⟨w, found, _⟩ := cuts.takes n (clear ▸ large)
  rw [← clear, fitted] at found
  cases found

variable [PageSpace (Tuple kind)]

/-- The loop of a splitting writer returns if its estimates suffice for the closing tuple
and are exact for the slices. -/
theorem TapeWriter.returns_putSplit (cuts : Cuts estimate fit sliceSize per)
    (closed : ∀ part, align8 (closing part).size ≤ estimate part.length)
    (sliced : ∀ part, align8 (slice part).size = sliceSize part.length)
    (held : Held t s tape) {elements : List ε}
    (room : s.pages.length + (elements.length / per + 1) ≤ limit) :
    (tape.putSplit extendIndex estimate fit closing slice elements ()).returns t limit
      (fun result s' => Held t s' result.1 ∧
        s'.pages.length ≤ s.pages.length + (elements.length / per + 1)) s := by
  have needed := pagesFor_le per elements.length tape.freespace
  have short := held.freespace_le
  generalize total : s.pages.length + (elements.length / per + 1) = bound at room ⊢
  have start : s.pages.length + pagesFor per elements.length tape.freespace ≤ bound := by omega
  apply returns_loop (fun state s => Held t s state.2.1 ∧
      s.pages.length + pagesFor per state.1.length state.2.1.freespace ≤ bound)
    (fun state s => (invalidPage - s.pages.length) * (clearSpace + 1) + state.2.1.freespace)
    _ ⟨held, start⟩
  · simp only [invalidPage, clearSpace, iterations] at short ⊢
    omega
  · rintro ⟨remain, tape, _⟩ s ⟨held, within⟩
    dsimp only at held within ⊢
    split_ifs with small
    · apply returns_then (returns_tapePut held ((closed remain).trans small))
      rintro result s' ⟨held', _, pages⟩
      exact ⟨held', by omega⟩
    · have large : tape.freespace < estimate remain.length := not_le.mp small
      cases fitted : fit tape.freespace with
      | some w =>
        have length : (remain.take (min w remain.length)).length = min w remain.length := by
          simp
        have size := sliced (remain.take (min w remain.length))
        rw [length] at size
        have fits := cuts.fits _ w _ fitted (min_le_left w remain.length)
        have smaller := cuts.cut held.freespace_le large fitted
        apply returns_then (returns_tapePut held (size ▸ fits))
        rintro result s' ⟨held', space, pages⟩
        rw [size] at space
        refine ⟨⟨held', ?_⟩, ?_⟩
        · rw [List.length_drop, space, pages]
          exact (Nat.add_le_add_left smaller.2 _).trans within
        · rw [space, pages]
          exact Nat.add_lt_add_left smaller.1 _
      | none =>
        have used := cuts.move large fitted
        rw [pagesFor_of_ne used] at within
        have below : s.pages.length < limit :=
          (Nat.lt_add_of_pos_right (Nat.succ_pos _)).trans_le (within.trans room)
        dsimp only [tapeMove]
        rw [if_neg (held.len_ne_zero (lt_of_le_of_ne held.freespace_le used))]
        apply returns_then (returns_moveOn held below)
        rintro result s' ⟨held', clear, room, pages⟩
        have left : invalidPage - s.pages.length = invalidPage - s'.pages.length + 1 := by
          omega
        refine ⟨⟨held', ?_⟩, ?_⟩
        · rw [clear, pagesFor, if_pos rfl, pages, add_zero, add_assoc, add_comm 1]
          exact within
        · rw [clear, left, Nat.add_mul]
          omega

end

/-! ## Directories -/

theorem DirectoryTuple.fit1_eq (f : Nat) :
    fit1 f = if 16 ≤ f then some ((f / 8 * 8 - 16) / 4) else none := by
  have rest : alignDown (alignDown (alignDown f - 8) - 8) = (f / 8 * 8 : Nat) - 16 := by
    simp only [alignDown]
    omega
  rw [fit1, rest]
  split_ifs
  · congr 2
    omega
  · omega
  · omega
  · rfl

/-- A directory fills every page with one slice. -/
theorem cuts_directory : Cuts DirectoryTuple.estimateSize0 DirectoryTuple.fit1
    DirectoryTuple.estimateSize0 2034 where
  positive := by decide
  nonempty := by
    intro k
    rw [DirectoryTuple.estimateSize0]
    omega
  fits := by
    intro f w k fitted inside
    rw [DirectoryTuple.fit1_eq] at fitted
    split_ifs at fitted with enough
    cases fitted
    simp only [DirectoryTuple.estimateSize0, align8]
    omega
  takes := by
    intro n large
    refine ⟨2034, by decide, ?_⟩
    simp only [DirectoryTuple.estimateSize0, align8, clearSpace] at large
    omega

/-- `DirectoryTapeWriter::push` returns. -/
theorem returns_directoryPush [PageSpace (Tuple kind)] (held : Held t s tape) {ids : List Nat}
    (room : s.pages.length + (ids.length / 2034 + 1) ≤ limit) :
    (directoryPush extendIndex ids tape ()).returns t limit
      (fun result s' => Held t s' result.1 ∧
        s'.pages.length ≤ s.pages.length + (ids.length / 2034 + 1)) s := by
  have sized : ∀ part : List Nat,
      align8 (8 + 8 + align8 (4 * part.length)) = DirectoryTuple.estimateSize0 part.length := by
    simp only [DirectoryTuple.estimateSize0, align8]
    omega
  apply returns_putSplit cuts_directory _ _ held room
  · exact fun part => (sized part).le
  · exact sized

/-! ## Blocks -/

/-- The size of a slice of rows. -/
def rowsSize (rows : Nat) : Nat := 8 + 8 + align8 (16 * rows)

theorem fitRows_eq (prefetch f : Nat) : fitRows prefetch f =
    if 16 + 128 * prefetch ≤ f then some ((f / 8 * 8 - 16 - 128 * prefetch) / 16)
    else none := by
  have rest : alignDown (alignDown (alignDown (alignDown f - 8) - 8) -
      align8 (128 * prefetch)) = (f / 8 * 8 : Nat) - 16 - 128 * prefetch := by
    simp only [alignDown, align8]
    omega
  rw [fitRows, rest]
  split_ifs
  · congr 2
    omega
  · omega
  · omega
  · rfl

/-- Blocks of codes; `header` is the size of a header without prefetch lists. -/
theorem cuts_rows {header prefetch : Nat} (small : header ≤ 984) (supported : prefetch ≤ 32) :
    Cuts (fun rows => header + align8 (128 * prefetch) + align8 (16 * rows)) (fitRows prefetch)
      rowsSize 193 where
  positive := by decide
  nonempty := by
    intro k
    rw [rowsSize]
    omega
  fits := by
    intro f w k fitted inside
    rw [fitRows_eq] at fitted
    split_ifs at fitted with enough
    cases fitted
    simp only [rowsSize, align8]
    omega
  takes := by
    intro n large
    simp only [align8, clearSpace] at large
    refine ⟨_, (fitRows_eq prefetch clearSpace).trans (if_pos ?_), ?_⟩
    all_goals
      simp only [clearSpace]
      omega

/-- The pages that are added at most for a block. -/
def blockPages (dim : Nat) : Nat := (dim + 3) / 4 / 193 + 1

section
variable [PageSpace (Tuple kind)] {dim prefetch : Nat}
  {arrays : List (Fin 32 → Nat)}

/-- `H1TapeWriter` writes a block. -/
theorem returns_h1Block {fix : List (List Nat) → Option (List (Fin 32 → Nat))}
    {chunk : List (Branch Nat)} {rows : List Row} (held : Held t s tape)
    (packed : blockRows chunk = some rows)
    (fixed : fix (chunk.map fun x => x.prefetch) = some arrays) (enough : arrays.length ≤ prefetch)
    (supported : prefetch ≤ 32) (length : rows.length = (dim + 3) / 4)
    (room : s.pages.length + blockPages dim ≤ limit) :
    (h1Block extendIndex fix chunk prefetch tape ()).returns t limit
      (fun result s' => Held t s' result.1 ∧
        s'.pages.length ≤ s.pages.length + blockPages dim) s := by
  have cuts : Cuts (H1Tuple.estimateSize0 prefetch) (H1Tuple.fit1 prefetch) rowsSize 193 :=
    cuts_rows (by decide : 8 + 976 ≤ 984) supported
  rw [h1Block, packed, fixed]
  simp only [expect, bind_eq, pure_bind]
  rw [blockPages, ← length] at room ⊢
  apply returns_putSplit cuts _ _ held room
  · intro part
    simp only [Tuple.size, h1Header, H1Tuple.estimateSize0, align8]
    omega
  · intro part
    simp only [Tuple.size, rowsSize, align8]
    omega

/-- `FrozenTapeWriter` writes a block. -/
theorem returns_frozenBlock {chunk : List (Branch Payload)} {rows : List Row} (held : Held t s tape)
    (packed : blockRows chunk = some rows)
    (fixed : fixGood (chunk.map fun x => x.prefetch) = some arrays)
    (enough : arrays.length ≤ prefetch) (supported : prefetch ≤ 32)
    (length : rows.length = (dim + 3) / 4) (room : s.pages.length + blockPages dim ≤ limit) :
    (frozenBlock extendIndex chunk prefetch tape ()).returns t limit
      (fun result s' => Held t s' result.1 ∧
        s'.pages.length ≤ s.pages.length + blockPages dim) s := by
  have cuts : Cuts (FrozenTuple.estimateSize0 prefetch) (FrozenTuple.fit1 prefetch) rowsSize 193 :=
    cuts_rows (by decide : 8 + 968 ≤ 984) supported
  rw [frozenBlock, packed, fixed]
  simp only [expect, bind_eq, pure_bind]
  rw [blockPages, ← length] at room ⊢
  apply returns_putSplit cuts _ _ held room
  · intro part
    simp only [Tuple.size, frozenHeader, FrozenTuple.estimateSize0, align8]
    omega
  · intro part
    simp only [Tuple.size, rowsSize, align8]
    omega

end

end VectorChord.Vchordrq
