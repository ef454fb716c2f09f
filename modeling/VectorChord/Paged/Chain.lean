import Mathlib

/-!
# Linked pages

A chain of pages is a list of ids in which every page points to the one behind it and
the last one to a stop value that is not the id of a page.
-/

namespace VectorChord.Paged

open List

/-- Every id of the list points to the next one, and the last one to `stop`. -/
def Linked (next : Nat → Nat) (stop : Nat) : List Nat → Prop
  | [] => True
  | id :: rest => next id = rest.headD stop ∧ Linked next stop rest

/-- The ids met on the way from `current` to `stop`, at most `fuel` of them. -/
def walk (next : Nat → Nat) (stop : Nat) : Nat → Nat → List Nat
  | 0, _ => []
  | fuel + 1, current =>
    if current = stop then [] else current :: walk next stop fuel (next current)

variable {next next' : Nat → Nat} {stop : Nat} {ids : List Nat}

theorem linked_append {front back : List Nat} :
    Linked next stop (front ++ back) ↔
      Linked next (back.headD stop) front ∧ Linked next stop back := by
  induction front with
  | nil => simp [Linked]
  | cons id rest ih =>
    have head : (rest ++ back).headD stop = rest.headD (back.headD stop) := by
      cases rest <;> rfl
    simp only [cons_append, Linked, ih, head, and_assoc]

theorem Linked.congr (linked : Linked next stop ids) (same : ∀ id ∈ ids, next' id = next id) :
    Linked next' stop ids := by
  induction ids with
  | nil => trivial
  | cons id rest ih =>
    refine ⟨(same id mem_cons_self).trans linked.1, ih linked.2 ?_⟩
    intro other member
    exact same other (mem_cons_of_mem id member)

/-- Only the last id points to the end. -/
theorem Linked.eq_concat (linked : Linked next stop ids) {id : Nat} (member : id ∈ ids)
    (ends : next id = stop) (proper : stop ∉ ids) : ∃ front, ids = front ++ [id] := by
  rcases append_of_mem member with ⟨front, back, rfl⟩
  have link := (linked_append.mp linked).2.1
  cases back with
  | nil => exact ⟨front, rfl⟩
  | cons other rest =>
    have reached : stop = other := by rw [← ends, link]; rfl
    exact absurd (by simp [reached]) proper

/-- Adding an id behind the last one. -/
theorem Linked.concat {front : List Nat} {last fresh : Nat}
    (linked : Linked next stop (front ++ [last])) (link : next' last = fresh)
    (ends : next' fresh = stop) (same : ∀ id ∈ front, next' id = next id) :
    Linked next' stop (front ++ [last] ++ [fresh]) := by
  rw [append_assoc]
  have before := (linked_append.mp linked).1
  exact linked_append.mpr ⟨before.congr same, link, ends, trivial⟩

/-- Following the links from the first id visits the chain. -/
theorem Linked.walk_eq (linked : Linked next stop ids) (proper : stop ∉ ids) {fuel : Nat}
    (enough : ids.length ≤ fuel) : walk next stop fuel (ids.headD stop) = ids := by
  induction ids generalizing fuel with
  | nil => cases fuel <;> simp [walk]
  | cons id rest ih =>
    cases fuel with
    | zero => simp at enough
    | succ fuel =>
      have different : id ≠ stop := fun same => proper (by simp [same])
      have tail : walk next stop fuel (rest.headD stop) = rest :=
        ih linked.2 (fun member => proper (mem_cons_of_mem id member))
          (by simpa using enough)
      rw [headD_cons, walk, if_neg different, linked.1, tail]

end VectorChord.Paged
