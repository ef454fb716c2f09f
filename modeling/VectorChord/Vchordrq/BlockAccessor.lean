import VectorChord.Collections.Checked
import VectorChord.Rabitq.Packing
import VectorChord.Vchordrq.Operator

/-!
# Scanning blocks of 32 codes

The table sums of 32 codes at once.  A row of a packed block selects one byte of a row of
the table for every lane.  The bytes are summed up in 16 bits for at most `STEP` rows,
and these sums in 32 bits.
-/

namespace VectorChord.Vchordrq.Block

open Rabitq Collections List

/-- A sum for every lane. -/
abbrev Sums := Fin 32 → Nat

abbrev FitsIn (width : Nat) (sums : Sums) : Prop := ∀ j, sums j < 2 ^ width

local instance rowNonzero : NeZero 16 := ⟨by decide⟩

/-- The bytes that the nibbles of a row select: `res_lo` and `res_hi` in the order of
the lanes. -/
def select (code lut : Row) : Sums := fun j => lut (Fin.ofNat 16 (unpackLane code j))

/-- `fast_scan::scan`. -/
def scan (code lut : List Row) : Option Sums :=
  if code.length = lut.length then
    (code.zip lut).foldlM (fun result row => addIf (FitsIn 16) result (select row.1 row.2)) 0
  else none

/-- `fast_scan::accu`. -/
def accu (sum delta : Sums) : Option Sums := addIf (FitsIn 32) sum delta

/-- `block::STEP`. -/
def step : Nat := 65535 / (2 ^ 8 - 1)

/-- `BlockAccessor::push`. -/
def push (sum : Sums) (input target : List Row) : Option Sums :=
  ((chunks step input).zip (chunks step target)).foldlM
    (fun sum chunk => do accu sum (← scan chunk.1 chunk.2)) sum

/-- `block::accumulate`. -/
def accumulate (t s : List Row) : Option Sums := push 0 t s

/-- The sums that the rows of a block select from a table. -/
def total (rows : List (Row × Row)) : Sums := (rows.map fun row => select row.1 row.2).sum

theorem FitsIn.of_add {width : Nat} (left right : Sums) (fits : FitsIn width (left + right)) :
    FitsIn width left :=
  fun j => lt_of_le_of_lt (Nat.le_add_right _ _) (fits j)

theorem total_apply (rows : List (Row × Row)) (j : Fin 32) :
    total rows j = (rows.map fun row => select row.1 row.2 j).sum := by
  simp [total, Pi.list_sum_apply, Function.comp_def]

theorem sum_total (parts : List (List (Row × Row))) :
    (parts.map total).sum = total parts.flatten := by
  induction parts with
  | nil => simp [total]
  | cons part parts ih => simp [ih, total]

variable {rows : List (Row × Row)}

/-- Sums of at most `STEP` bytes fit in 16 bits. -/
theorem scan_eq (short : rows.length ≤ step) (bytes : ∀ row ∈ rows, ∀ k, row.2 k < 256) :
    scan (rows.map Prod.fst) (rows.map Prod.snd) = some (total rows) := by
  have small : FitsIn 16 (0 + total rows) := by
    intro j
    have selected : ∀ value ∈ rows.map fun row => select row.1 row.2 j, value ≤ 255 := by
      simp only [mem_map]
      rintro value ⟨row, member, rfl⟩
      exact Nat.le_of_lt_succ (bytes row member _)
    have bound := sum_le_card_nsmul _ 255 selected
    simp only [length_map, smul_eq_mul] at bound
    simp only [zero_add, total_apply]
    have := Nat.mul_le_mul_right 255 short
    simp only [step] at this
    omega
  rw [scan, if_pos (by simp), ← zip_of_prod rfl rfl, ← zero_add (total rows)]
  exact foldlM_add (FitsIn 16) FitsIn.of_add _ (fun _ _ _ fits => if_pos fits) small

theorem zip_chunks : (chunks step (rows.map Prod.fst)).zip (chunks step (rows.map Prod.snd)) =
    (chunks step rows).map fun chunk => (chunk.map Prod.fst, chunk.map Prod.snd) := by
  simp [chunks, zip_map', map_drop, map_take]

/-- A push adds its sums if they fit in 32 bits. -/
theorem push_eq {sum : Sums} (bytes : ∀ row ∈ rows, ∀ k, row.2 k < 256)
    (fits : FitsIn 32 (sum + total rows)) :
    push sum (rows.map Prod.fst) (rows.map Prod.snd) = some (sum + total rows) := by
  have all : ((chunks step rows).map total).sum = total rows := by
    rw [sum_total, flatten_chunks (by decide)]
  rw [push, zip_chunks, foldlM_map, ← all]
  apply foldlM_add (FitsIn 32) FitsIn.of_add total _ (all ▸ fits)
  intro chunk member sum fits
  have inside : ∀ row ∈ chunk, row ∈ rows := by
    intro row found
    rw [← flatten_chunks (show 0 < step by decide) rows]
    exact mem_flatten_of_mem member found
  rw [scan_eq (length_of_mem_chunks member) fun row found => bytes row (inside row found)]
  exact if_pos fits

/-- For every lane, the sum of the entries that its nibbles have in the table. -/
def tableSum (x : Fin 32 → List Nat) (table : List Row) : Sums := fun j =>
  (zipWith (fun nibble row => row (Fin.ofNat 16 nibble)) (x j) table).sum

/-- Scanning a packed block gives the table sums of all 32 lanes, in one piece and in
any consecutive ones, if they fit in 32 bits. -/
theorem blockScan_exact (x : Fin 32 → List Nat) (table : List Row)
    (lengths : ∀ j, (x j).length = table.length) (nibbles : ∀ j, ∀ value ∈ x j, value < 16)
    (bytes : ∀ row ∈ table, ∀ k, row k < 256) (fits : FitsIn 32 (tableSum x table)) :
    ∃ rows, pack x = some rows ∧ accumulate rows table = some (tableSum x table) ∧
      ∀ pushes : List (List (Row × Row)), pushes.flatten = rows.zip table →
        pushes.foldlM (fun sum piece => push sum (piece.map Prod.fst) (piece.map Prod.snd)) 0 =
          some (tableSum x table) := by
  obtain ⟨rows, packed⟩ : ∃ rows, pack x = some rows := ⟨_, if_pos (by simp [lengths])⟩
  have equal : rows.length = table.length := by rw [length_of_pack packed, lengths]
  have bytes' : ∀ row ∈ rows.zip table, ∀ k, row.2 k < 256 :=
    fun row member => bytes _ (of_mem_zip member).2
  have same : 0 + total (rows.zip table) = tableSum x table := by
    funext j
    rw [zero_add, total_apply, tableSum, ← unpack_pack nibbles packed]
    simp [unpack, zip, map_zipWith, zipWith_map_left, select]
  rw [← same] at fits ⊢
  refine ⟨rows, packed, ?_, ?_⟩
  · have pushed := push_eq bytes' fits
    rwa [map_fst_zip equal.le, map_snd_zip equal.ge] at pushed
  · intro pushes whole
    rw [← whole, ← sum_total] at fits ⊢
    refine foldlM_add (FitsIn 32) FitsIn.of_add total (fun piece member sum => ?_) fits
    exact push_eq fun row found => bytes' row (whole ▸ mem_flatten_of_mem member found)

/-- One row in which every nibble selects itself. -/
theorem blockScan_identity :
    ∃ rows, pack (fun j => [j.val % 16]) = some rows ∧
      accumulate rows [fun k => k.val] = some fun j => j.val % 16 := by
  obtain ⟨rows, packed, scanned, _⟩ := blockScan_exact (fun j => [j.val % 16])
    [fun k => k.val] (by decide) (by decide) (by decide) (by decide)
  refine ⟨rows, packed, scanned.trans (congrArg some (funext ?_))⟩
  decide

end VectorChord.Vchordrq.Block
