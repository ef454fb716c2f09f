import Mathlib

/-!
# Lanes

Lists of one length, written behind each other and cut into arrays of the width of a
block: every list is found again at its lane.
-/

namespace VectorChord.Collections.Lanes

open List

variable {α β : Type} {width : Nat} {lists : List (List α)} {values : List β}

/-- The arrays of a list whose length is a multiple of their width. -/
def arrays (width : Nat) (default : α) (flattened : List α) : List (Fin width → α) :=
  (List.range (flattened.length / width)).map fun i j => flattened.getD (i * width + j) default

@[simp] theorem length_arrays (default : α) (flattened : List α) :
    (arrays width default flattened).length = flattened.length / width := by
  simp [arrays]

theorem ofFn_eq_map_range (f : Nat → α) :
    List.ofFn (fun j : Fin width => f j) = (List.range width).map f := by
  apply ext_getElem
  · simp
  · intro j _ _
    simp

theorem flatMap_range_mul (f : Nat → α) (count : Nat) :
    (List.range count).flatMap (fun i => (List.range width).map fun j => f (i * width + j)) =
      (List.range (count * width)).map f := by
  induction count with
  | zero => simp
  | succ count ih =>
    rw [range_succ, flatMap_append, ih, Nat.succ_mul, range_add, map_append, map_map]
    simp [Function.comp_def]

/-- The arrays behind each other are the list. -/
theorem flatMap_arrays (positive : 0 < width) (default : α) {flattened : List α} {count : Nat}
    (length : flattened.length = count * width) :
    (arrays width default flattened).flatMap List.ofFn = flattened := by
  have rows : ∀ i, ofFn (fun j : Fin width => flattened.getD (i * width + j) default) =
      (range width).map fun j => flattened.getD (i * width + j) default :=
    fun i => ofFn_eq_map_range fun j => flattened.getD (i * width + j) default
  rw [arrays, flatMap_map, length, Nat.mul_div_cancel _ positive]
  simp only [rows]
  rw [flatMap_range_mul fun k => flattened.getD k default]
  apply ext_getElem
  · simp [length]
  · intro k _ inside
    simp [inside]

/-- One of the lists of equal length that were written behind each other. -/
theorem take_drop_flatten {step : Nat} (lengths : ∀ list ∈ lists, list.length = step) {j : Nat}
    (inside : j < lists.length) : (lists.flatten.drop (j * step)).take step = lists[j] := by
  induction lists generalizing j with
  | nil => cases inside
  | cons list lists ih =>
    have first := lengths list mem_cons_self
    have later := fun other member => lengths other (mem_cons_of_mem list member)
    cases j with
    | zero => simp [← first]
    | succ j =>
      have skipped : (j + 1) * step = list.length + j * step := by
        rw [first, Nat.succ_mul, Nat.add_comm]
      rw [flatten_cons, skipped, drop_length_add_append, getElem_cons_succ]
      exact ih later (Nat.lt_of_succ_lt_succ inside)

theorem length_flatten {step : Nat} (lengths : ∀ list ∈ lists, list.length = step) :
    lists.flatten.length = lists.length * step := by
  induction lists with
  | nil => simp
  | cons list lists ih =>
    rw [flatten_cons, length_append, lengths list mem_cons_self,
      ih fun other member => lengths other (mem_cons_of_mem list member),
      length_cons, Nat.succ_mul, Nat.add_comm]

/-- The lanes of a block that are in use. -/
theorem filter_finRange {count : Nat} (bound : count ≤ width) :
    (List.finRange width).filter (fun j => j.val < count) =
      (List.finRange count).map (Fin.castLE bound) := by
  apply map_injective_iff.mpr Fin.val_injective
  rw [map_map]
  have left : ((finRange width).filter fun j => j.val < count).map Fin.val =
      (range width).filter fun j => j < count := by
    rw [← map_coe_finRange_eq_range, filter_map]
    rfl
  have right : (finRange count).map (Fin.val ∘ Fin.castLE bound) = range count := by
    rw [← map_coe_finRange_eq_range]
    rfl
  obtain ⟨more, rfl⟩ := Nat.exists_eq_add_of_le bound
  have used : (range count).filter (fun j => j < count) = range count :=
    filter_eq_self.mpr (by simp)
  have unused : ((range more).map (count + ·)).filter (fun j => j < count) = [] :=
    filter_eq_nil_iff.mpr (by simp)
  rw [left, right, range_add, filter_append, used, unused, append_nil]

/-- A value for every lane that is in use. -/
theorem map_filter_finRange {f : Fin width → β} (bound : values.length ≤ width)
    (same : ∀ (j : Fin width) (inside : j.val < values.length), f j = values[j]) :
    ((List.finRange width).filter fun j => j.val < values.length).map f = values := by
  rw [filter_finRange bound, map_map]
  apply ext_getElem
  · simp
  · intro j _ inside
    have lane := same (Fin.castLE bound ⟨j, inside⟩) inside
    simpa using lane

/-- A block all of whose lanes are in use. -/
theorem filterMap_finRange {f : Fin width → Option β} (full : values.length = width)
    (same : ∀ j : Fin width, f j = values[j.val]?) :
    (List.finRange width).filterMap f = values := by
  subst full
  have lanes : f = some ∘ values.get := by
    funext j
    simp [same]
  rw [lanes, filterMap_eq_map]
  apply ext_getElem
  · simp
  · intro j _ _
    simp

end VectorChord.Collections.Lanes
