import Mathlib

/-!
# Sliced blocks

A block of rows that does not fit into one slot is stored as a series of slices, and the
last of them carries the header of the block.  A list of slices denotes a list of blocks
and the rows of an unfinished one.
-/

namespace VectorChord.Collections.Blocks

open List

/-- Some rows of a block, with its header if they are the last. -/
abbrev Slice (η ρ : Type) := Option η × List ρ

variable {η ρ : Type}

/-- The blocks of a list of slices; `rows` belong to the unfinished block before it. -/
def blocks : (rows : List ρ) → List (Slice η ρ) → List (η × List ρ)
  | _, [] => []
  | rows, (none, more) :: slices => blocks (rows ++ more) slices
  | rows, (some header, more) :: slices => (header, rows ++ more) :: blocks [] slices

/-- The rows of the unfinished block behind a list of slices. -/
def unfinished : (rows : List ρ) → List (Slice η ρ) → List ρ
  | rows, [] => rows
  | rows, (none, more) :: slices => unfinished (rows ++ more) slices
  | _, (some _, _) :: slices => unfinished [] slices

theorem blocks_append (rows : List ρ) (front back : List (Slice η ρ)) :
    blocks rows (front ++ back) =
      blocks rows front ++ blocks (unfinished rows front) back := by
  induction front generalizing rows with
  | nil => rfl
  | cons slice front ih =>
    obtain ⟨header, more⟩ := slice
    cases header with
    | none | some => simp only [cons_append, blocks, unfinished, ih]

theorem unfinished_append (rows : List ρ) (front back : List (Slice η ρ)) :
    unfinished rows (front ++ back) = unfinished (unfinished rows front) back := by
  induction front generalizing rows with
  | nil => rfl
  | cons slice front ih =>
    obtain ⟨header, more⟩ := slice
    cases header with
    | none | some => simp only [cons_append, unfinished, ih]

/-- The slices of one block. -/
theorem blocks_slices (header : η) (rows : List ρ) (parts : List (List ρ)) (last : List ρ) :
    blocks rows (parts.map (fun part => (none, part)) ++ [(some header, last)]) =
      [(header, rows ++ (parts.flatten ++ last))] := by
  induction parts generalizing rows with
  | nil => rfl
  | cons part parts ih =>
    rw [map_cons, cons_append, blocks, ih]
    simp

/-- What depends on the headers only does not need the rows. -/
theorem flatMap_headers {β : Type} (values : η → List β) (rows : List ρ)
    (slices : List (Slice η ρ)) :
    (blocks rows slices).flatMap (fun block => values block.1) =
      slices.flatMap fun slice => slice.1.elim [] values := by
  induction slices generalizing rows with
  | nil => rfl
  | cons slice slices ih =>
    obtain ⟨header, more⟩ := slice
    cases header with
    | none => simp only [blocks, ih, flatMap_cons, Option.elim_none, nil_append]
    | some header => simp only [blocks, ih, flatMap_cons, Option.elim_some]

end VectorChord.Collections.Blocks
