import Mathlib

/-!
# Traversing a graph

A traversal keeps the nodes that it has seen.  Those that it has taken up are done: the
node could be read and its targets have been seen, or it could not be read.  The others
are pending.  While the targets of a node are looked at one by one, the rest of them is
still to be seen.

When nothing is left to do, the nodes that could be read are those that can be reached
and read, whatever order they were taken in.
-/

namespace VectorChord.Transition

open List

variable {ν : Type}

/-- The nodes on paths from a start through nodes that can be read.  A node that cannot be
read has no targets. -/
inductive Reached (targets : ν → Option (List ν)) (start : ν) : ν → Prop where
  | start : Reached targets start start
  | step {node target : ν} {row : List ν} (before : Reached targets start node)
      (readable : targets node = some row) (member : target ∈ row) :
      Reached targets start target

/-- State of a traversal: the nodes seen, of which some are pending, some were read and
some are broken, and the targets that are still to be seen. -/
structure Traversal (targets : ν → Option (List ν)) (start : ν)
    (seen pending done broken todo : List ν) : Prop where
  nodup : seen.Nodup
  parts : seen.Perm (pending ++ done ++ broken)
  started : start ∈ seen
  reached : ∀ node ∈ seen, Reached targets start node
  readable : ∀ node ∈ done, (targets node).isSome
  unreadable : ∀ node ∈ broken, targets node = none
  closed : ∀ node ∈ done, ∀ row, targets node = some row → ∀ target ∈ row,
    target ∈ seen ∨ target ∈ todo
  fresh : ∀ target ∈ todo, target ∉ seen
  todo_nodup : todo.Nodup
  todo_reached : ∀ target ∈ todo, Reached targets start target

namespace Traversal

variable {targets : ν → Option (List ν)} {start node : ν}
  {seen pending pending' done done' broken todo row : List ν}

theorem init (targets : ν → Option (List ν)) (start : ν) :
    Traversal targets start [start] [start] [] [] [] where
  nodup := nodup_singleton start
  parts := .rfl
  started := mem_singleton_self start
  reached node member := by
    rw [mem_singleton.mp member]
    exact .start
  readable := by simp
  unreadable := by simp
  closed := by simp
  fresh := by simp
  todo_nodup := nodup_nil
  todo_reached := by simp

section

variable (traversal : Traversal targets start seen pending done broken todo)

include traversal

/-- The order of what is pending does not matter. -/
theorem reorder (same : pending'.Perm pending) :
    Traversal targets start seen pending' done broken todo :=
  { traversal with
    parts := traversal.parts.trans ((same.symm.append_right done).append_right broken) }

end

/-- Take up a node that cannot be read. -/
theorem drop (traversal : Traversal targets start seen (node :: pending) done broken todo)
    (unreadable : targets node = none) :
    Traversal targets start seen pending done (node :: broken) todo :=
  { traversal with
    parts := traversal.parts.trans perm_middle.symm
    unreadable := by
      intro other member
      cases mem_cons.mp member with
      | inl same => rw [same, unreadable]
      | inr before => exact traversal.unreadable other before }

/-- Take up a node that can be read: those of its targets that have not been seen are to
be seen next. -/
theorem expand [∀ target, Decidable (target ∈ seen)]
    (traversal : Traversal targets start seen (node :: pending) done broken [])
    (readable : targets node = some row) (distinct : row.Nodup) :
    Traversal targets start seen pending (node :: done) broken
      (row.filter fun target => target ∉ seen) := by
  have reached : Reached targets start node := by
    apply traversal.reached
    rw [traversal.parts.mem_iff]
    simp
  constructor
  · exact traversal.nodup
  · apply traversal.parts.trans
    exact (perm_middle.symm).append_right broken
  · exact traversal.started
  · exact traversal.reached
  · intro other member
    cases mem_cons.mp member with
    | inl same => rw [same, readable, Option.isSome_some]
    | inr before => exact traversal.readable other before
  · exact traversal.unreadable
  · intro other member others found target listed
    cases mem_cons.mp member with
    | inl same =>
      rw [same, readable, Option.some.injEq] at found
      rw [← found] at listed
      by_cases old : target ∈ seen
      · exact .inl old
      · exact .inr (mem_filter.mpr ⟨listed, decide_eq_true old⟩)
    | inr before =>
      cases traversal.closed other before others found target listed with
      | inl old => exact .inl old
      | inr none => cases none
  · intro target member
    exact of_decide_eq_true (mem_filter.mp member).2
  · exact distinct.filter _
  · intro target member
    exact .step reached readable (mem_filter.mp member).1

/-- See a target, which is then pending. -/
theorem discover (traversal : Traversal targets start seen pending done broken (node :: todo)) :
    Traversal targets start (node :: seen) (node :: pending) done broken todo where
  nodup := nodup_cons.mpr ⟨traversal.fresh node mem_cons_self, traversal.nodup⟩
  parts := traversal.parts.cons node
  started := mem_cons_of_mem node traversal.started
  reached other member := by
    cases mem_cons.mp member with
    | inl same => rw [same]; exact traversal.todo_reached node mem_cons_self
    | inr before => exact traversal.reached other before
  readable := traversal.readable
  unreadable := traversal.unreadable
  closed other member row found target listed := by
    cases traversal.closed other member row found target listed with
    | inl old => exact .inl (mem_cons_of_mem node old)
    | inr ahead =>
      cases mem_cons.mp ahead with
      | inl same => exact .inl (same ▸ mem_cons_self)
      | inr later => exact .inr later
  fresh target member := by
    have distinct := (nodup_cons.mp traversal.todo_nodup).1
    intro old
    cases mem_cons.mp old with
    | inl same => exact distinct (same ▸ member)
    | inr before => exact traversal.fresh target (mem_cons_of_mem _ member) before
  todo_nodup := (nodup_cons.mp traversal.todo_nodup).2
  todo_reached target member := traversal.todo_reached target (mem_cons_of_mem _ member)

end Traversal

end VectorChord.Transition
