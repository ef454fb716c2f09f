import Mathlib

/-!
# Iteration

The entries of a hash map come in some order, and `min_by` returns the first of several
least elements in it.  A loop over a list has the rest of the list ahead of it.
-/

namespace VectorChord.Collections

open List

/-- The order in which the entries of a hash map are visited.  Any order is possible. -/
class IterationOrder where
  arrange : {α : Type} → List α → List α
  perm : ∀ {α : Type} (items : List α), (arrange items).Perm items

/-- The order of insertion. -/
@[reducible] def IterationOrder.insertion : IterationOrder := ⟨fun items => items, fun _ => .rfl⟩

variable {α : Type}

/-- `Iterator::min_by`. -/
def minBy (compare : α → α → Ordering) : List α → Option α
  | [] => none
  | item :: items =>
    some (items.foldl (fun best other => if compare best other = .gt then other else best) item)

theorem mem_of_minBy {compare : α → α → Ordering} {items : List α} {best : α}
    (found : minBy compare items = some best) : best ∈ items := by
  cases items with
  | nil => cases found
  | cons item items =>
    have fold : ∀ (rest : List α) (start : α),
        rest.foldl (fun best other => if compare best other = .gt then other else best) start ∈
          start :: rest := by
      intro rest
      induction rest with
      | nil => exact fun start => mem_singleton_self start
      | cons other rest ih =>
        intro start
        have member := ih (if compare start other = .gt then other else start)
        rw [foldl_cons]
        cases mem_cons.mp member with
        | inl same =>
          rw [same]
          split <;> simp
        | inr later => exact mem_cons_of_mem _ (mem_cons_of_mem _ later)
    cases found
    exact fold items item

/-- The item at an index is the first of those ahead. -/
theorem of_drop_eq_cons {items rest : List α} {index : Nat} {item : α}
    (ahead : items.drop index = item :: rest) :
    items[index]? = some item ∧ items.drop (index + 1) = rest := by
  constructor
  · rw [← List.head?_drop, ahead, List.head?_cons]
  · rw [← tail_drop, ahead, tail_cons]

end VectorChord.Collections
