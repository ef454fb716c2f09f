import VectorChord.Paged.Latches
import VectorChord.Vchordrq.BuildParts

/-!
# Latches of a build

A tape writer holds one page from its creation until it is closed, and `build` closes every
writer that it creates.
-/

namespace VectorChord.Vchordrq

open Index Paged Rabitq
open Prog hiding pure

namespace TapeWriter

variable {kind : VectorKind} (tape : TapeWriter kind)

theorem latches_create (tracking : Bool) :
    (create extendIndex tracking () : RProg kind _).Latches 1 :=
  fun _ _ => rfl

theorem latches_moveOn : (tape.moveOn extendIndex ()).Latches 0 := fun _ _ _ => rfl

theorem latches_close : tape.close.Latches (-1) := fun _ => rfl

variable [PageSpace (Tuple kind)]

theorem latches_tapePut (tuple : Tuple kind) : (tape.tapePut tuple).Latches 0 :=
  (latches_expect _).bind fun _ _ => rfl

theorem latches_push (tuple : Tuple kind) : (tape.push extendIndex tuple ()).Latches 0 := by
  rw [push]
  split
  · exact fun _ => rfl
  · exact (latches_moveOn tape).bind fun _ => (latches_tapePut _ tuple).bind fun _ => rfl

theorem latches_putSplit {ε : Type} (estimate : Nat → Nat) (fit : Nat → Option Nat)
    (closing slice : List ε → Tuple kind) (elements : List ε) :
    (tape.putSplit extendIndex estimate fit closing slice elements ()).Latches 0 := by
  apply latches_loop
  rintro ⟨remain, tape, _⟩
  dsimp only
  split
  · exact (latches_tapePut tape _).bind fun _ => rfl
  · split
    · exact (latches_tapePut tape _).bind fun _ => rfl
    · rw [tapeMove]
      split
      · rw [bind_eq, panic_bind]
        exact latches_panic
      · exact (latches_moveOn tape).bind fun _ => rfl

end TapeWriter

open TapeWriter

variable (op : Operator) [PageSpace (Tuple op.kind)]

theorem latches_h1Block (fix : List (List Nat) → Option (List (Fin 32 → Nat)))
    (chunk : List (Branch Nat)) (prefetch : Nat) (tape : TapeWriter op.kind) :
    (h1Block extendIndex fix chunk prefetch tape ()).Latches 0 :=
  (latches_expect _).bind fun _ => (latches_expect _).bind fun _ => latches_putSplit _ _ _ _ _ _

theorem latches_h1Session (branches : List (Branch Nat)) (prefetch : Nat)
    (tape : TapeWriter op.kind) : (h1Session branches prefetch tape).Latches (-1) := by
  apply (latches_foldlM _ _ _).bind
  · rintro ⟨writer, _⟩
    have flushed : (h1Flush extendIndex writer ()).Latches 0 := by
      rw [h1Flush]
      split
      · rfl
      · exact latches_h1Block op _ _ _ _
    exact flushed.bind fun _ => latches_close _
  · rintro ⟨writer, _⟩ branch
    dsimp only [h1Push]
    split
    · exact (latches_h1Block op _ _ _ _).bind fun _ => rfl
    · rfl

theorem latches_buildNode (options : Options) (centroid : Vector op.kind)
    (children : List (Vector op.kind × (List Nat × Nat) × Nat)) :
    (buildNode op options centroid children).Latches 0 := by
  rw [buildNode_eq]
  exact (latches_create false).bind fun _ => latches_h1Session op _ _ _

theorem latches_buildLeaf (pointer : List Nat × Nat) : (buildLeaf op pointer).Latches 0 :=
  (latches_create false).bind fun _ => (latches_create false).bind fun _ =>
  (latches_close _).bind fun _ => (latches_create false).bind fun _ =>
  (latches_putSplit _ _ _ _ _ _).bind fun _ => (latches_create false).bind fun _ =>
  (latches_close _).bind fun _ => (latches_close _).bind fun _ =>
  (latches_push _ _).bind fun _ => latches_close _

theorem latches_buildLevel (options : Options) (level : Structure op.kind)
    (pointers : List (List Nat × Nat)) (below : Option (Below op.kind)) :
    (buildLevel op options level pointers below).Latches 0 := by
  refine (latches_foldlM ?_ _ _).bind fun _ => rfl
  intro firsts item
  have placed : (placeCell op options level pointers below item).Latches 0 := by
    cases below with
    | none => exact (latches_expect _).bind fun _ => latches_buildLeaf op _
    | some below =>
      exact (latches_expect _).bind fun _ => (latches_expect _).bind fun _ =>
        latches_buildNode op _ _ _
  exact placed.bind fun _ => rfl

theorem latches_buildCentroid (vector : Vector op.kind) (tape : TapeWriter op.kind) :
    (buildCentroid op vector tape).Latches 0 := by
  apply (latches_foldlM _ _ _).bind
  · rintro ⟨_ | head, _⟩
    · exact latches_panic
    · rfl
  · rintro ⟨chain, prefetch, tape⟩ slice
    exact (latches_push tape _).bind fun _ => rfl

theorem latches_buildCentroids (level : Structure op.kind) (tape : TapeWriter op.kind) :
    (buildCentroids op level tape).Latches 0 := by
  apply latches_foldlM
  rintro ⟨pointers, tape⟩ j
  exact (latches_expect _).bind fun vector =>
    (latches_buildCentroid op vector tape).bind fun _ => rfl

omit [PageSpace (Tuple op.kind)] in
theorem latches_buildVectors (degree : Nat) : (buildVectors op degree).Latches 0 := by
  apply latches_foldlM
  intro firsts _
  exact (latches_create true).bind fun _ => (latches_close _).bind fun _ => rfl

/-- A build releases all its latches. -/
theorem latches_build (options : Options) (structures : List (Structure op.kind)) :
    (build op options structures).Latches 0 := by
  have keys : (buildKeys op options structures).Latches 0 := by
    apply (latches_create false).bind
    rintro ⟨metaTape, _⟩
    dsimp only
    split
    · exact latches_panic
    · refine (latches_create false).bind fun _ => (latches_push _ _).bind fun _ =>
        (latches_create false).bind fun _ => (latches_buildVectors op _).bind fun _ =>
        (latches_foldlM ?_ _ _).bind fun _ => (latches_foldlM ?_ _ _).bind fun _ =>
        (latches_expect _).bind fun _ => (latches_expect _).bind fun _ =>
        (latches_expect _).bind fun _ => (latches_expect _).bind fun _ =>
        (latches_push _ _).bind fun _ => (latches_close _).bind fun _ =>
        (latches_close _).bind fun _ => (latches_close _).bind fun _ => rfl
      · rintro ⟨pointers, tape⟩ level
        exact (latches_buildCentroids op level tape).bind fun _ => rfl
      · rintro below ⟨level, keys⟩
        exact (latches_buildLevel op options level keys below).bind fun _ => rfl
  exact keys.bind fun _ => rfl

end VectorChord.Vchordrq
