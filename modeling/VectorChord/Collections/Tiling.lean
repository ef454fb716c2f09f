import VectorChord.Collections.Table

/-!
# Tilings of an interval

Runs of consecutive numbers that cover `0..n` without overlap.  A run is given by its
start and its length.  A run can be split in two, and two runs that touch can be merged.
-/

namespace VectorChord.Collections

open Table

/-- The runs cover the numbers below `n`, each of them once. -/
structure Tiling (n : Nat) (runs : Nat → Nat → Prop) : Prop where
  positive : ∀ start length, runs start length → 0 < length
  inside : ∀ start length, runs start length → start + length ≤ n
  unique : ∀ start length length', runs start length → runs start length' → length = length'
  apart : ∀ start length start' length', runs start length → runs start' length' →
    start < start' → start + length ≤ start'
  cover : ∀ number, number < n → ∃ start length, runs start length ∧ start ≤ number ∧
    number < start + length

namespace Tiling

variable {n : Nat} {runs runs' : Nat → Nat → Prop}

theorem congr (tiling : Tiling n runs)
    (same : ∀ start length, runs' start length ↔ runs start length) : Tiling n runs' := by
  have equal : runs' = runs := by
    funext start length
    exact propext (same start length)
  rw [equal]
  exact tiling

/-- The whole interval as one run. -/
theorem whole (positive : 0 < n) : Tiling n fun start length => start = 0 ∧ length = n where
  positive start length run := by omega
  inside start length run := by omega
  unique start length length' run run' := by omega
  apart start length start' length' run run' before := by omega
  cover number below := ⟨0, n, ⟨rfl, rfl⟩, Nat.zero_le _, by omega⟩

/-- Where no two runs touch, the first one is the only one. -/
theorem eq_whole (tiling : Tiling n runs) {length : Nat} (run : runs 0 length)
    (separate : ∀ s l l', runs s l → ¬ runs (s + l) l') : length = n := by
  have inside := tiling.inside 0 length run
  by_contra shorter
  obtain ⟨s, l, next, below, above⟩ := tiling.cover length (by omega)
  rcases Nat.eq_zero_or_pos s with rfl | positive
  · have := tiling.unique 0 l length next run
    omega
  · have := tiling.apart 0 length s l run next positive
    cases (by omega : s = 0 + length)
    exact separate 0 length l run next

/-- A run is cut in two. -/
theorem split (tiling : Tiling n runs) {start left right : Nat}
    (run : runs start (left + right)) (proper : 0 < left ∧ 0 < right) :
    Tiling n fun s l => runs s l ∧ s ≠ start ∨ s = start ∧ l = left ∨
      s = start + left ∧ l = right where
  positive s l known := by
    rcases known with ⟨known, _⟩ | known | known
    · exact tiling.positive s l known
    · omega
    · omega
  inside s l known := by
    have bound := tiling.inside start (left + right) run
    rcases known with ⟨known, _⟩ | known | known
    · exact tiling.inside s l known
    · omega
    · omega
  unique s l l' known known' := by
    -- no other run starts where the second part does
    have fresh : ∀ length, ¬ runs (start + left) length := by
      intro length other
      have after := tiling.apart start (left + right) (start + left) length run other
      omega
    rcases known with ⟨known, different⟩ | known | known <;>
      rcases known' with ⟨known', different'⟩ | known' | known'
    · exact tiling.unique s l l' known known'
    · exact absurd known'.1 different
    · rw [known'.1] at known
      exact absurd known (fresh l)
    · exact absurd known.1 different'
    · omega
    · omega
    · rw [known.1] at known'
      exact absurd known' (fresh l')
    · omega
    · omega
  apart s l s' l' known known' before := by
    have outside : ∀ s l, runs s l → s ≠ start → s + l ≤ start ∨ start + (left + right) ≤ s := by
      intro s l other different
      rcases Nat.lt_or_gt_of_ne different with lower | upper
      · exact .inl (tiling.apart s l start _ other run lower)
      · exact .inr (tiling.apart start _ s l run other upper)
    rcases known with ⟨known, different⟩ | known | known <;>
      rcases known' with ⟨known', different'⟩ | known' | known'
    · exact tiling.apart s l s' l' known known' before
    · have := outside s l known different
      omega
    · have := outside s l known different
      omega
    · have := outside s' l' known' different'
      omega
    · omega
    · omega
    · have := outside s' l' known' different'
      omega
    · omega
    · omega
  cover number below := by
    rcases tiling.cover number below with ⟨s, l, known, lower, upper⟩
    by_cases here : s = start
    · rw [here] at known lower upper
      have length := tiling.unique start l (left + right) known run
      by_cases first : number < start + left
      · exact ⟨start, left, .inr (.inl ⟨rfl, rfl⟩), lower, first⟩
      · exact ⟨start + left, right, .inr (.inr ⟨rfl, rfl⟩), by omega, by omega⟩
    · exact ⟨s, l, .inl ⟨known, here⟩, lower, upper⟩

/-- Two runs that touch become one. -/
theorem merge (tiling : Tiling n runs) {start left right : Nat} (first : runs start left)
    (second : runs (start + left) right) :
    Tiling n fun s l => runs s l ∧ s ≠ start ∧ s ≠ start + left ∨
      s = start ∧ l = left + right where
  positive s l known := by
    have := tiling.positive start left first
    rcases known with ⟨known, _⟩ | known
    · exact tiling.positive s l known
    · omega
  inside s l known := by
    have := tiling.inside (start + left) right second
    rcases known with ⟨known, _⟩ | known
    · exact tiling.inside s l known
    · omega
  unique s l l' known known' := by
    rcases known with ⟨known, different, _⟩ | known <;>
      rcases known' with ⟨known', different', _⟩ | known'
    · exact tiling.unique s l l' known known'
    · exact absurd known'.1 different
    · exact absurd known.1 different'
    · omega
  apart s l s' l' known known' before := by
    rcases known with ⟨known, different, different₂⟩ | known <;>
      rcases known' with ⟨known', different', different₂'⟩ | known'
    · exact tiling.apart s l s' l' known known' before
    · have := tiling.apart s l start left known first
      omega
    · have above : start + left ≤ s' := by
        have := tiling.apart start left s' l' first known'
        omega
      have := tiling.apart (start + left) right s' l' second known'
      omega
    · omega
  cover number below := by
    rcases tiling.cover number below with ⟨s, l, known, lower, upper⟩
    by_cases here : s = start
    · rw [here] at known lower upper
      have := tiling.unique start l left known first
      exact ⟨start, left + right, .inr ⟨rfl, rfl⟩, lower, by omega⟩
    · by_cases there : s = start + left
      · rw [there] at known lower upper
        have := tiling.unique (start + left) l right known second
        exact ⟨start, left + right, .inr ⟨rfl, rfl⟩, by omega, by omega⟩
      · exact ⟨s, l, .inl ⟨known, here, there⟩, lower, upper⟩

end Tiling

/-- Runs that do not overlap have at most as many numbers as the interval they lie in. -/
theorem total_le_of_apart {n : Nat} {table : Table Nat Nat}
    (inside : ∀ start length, table.lookup start = some length → start + length ≤ n)
    (apart : ∀ start length start' length', table.lookup start = some length →
      table.lookup start' = some length' → start < start' → start + length ≤ start') :
    Table.total (fun _ length => length) table ≤ n := by
  -- take out the last run; the others end before it starts
  induction size : table.keys.length generalizing table n with
  | zero =>
    have empty : ∀ key, key ∉ table := by
      intro key member
      have positive := List.length_pos_of_mem (AList.mem_keys.mp member)
      omega
    rw [eq_empty empty, total_empty]
    exact Nat.zero_le n
  | succ k ih =>
    cases greatest : table.last with
    | none =>
      rw [eq_empty (last_eq_none greatest), total_empty]
      exact Nat.zero_le n
    | some found =>
      rcases found with ⟨start, length⟩
      rcases last_eq_some greatest with ⟨stored, above⟩
      have member := mem_iff_lookup.mpr ⟨length, stored⟩
      have shorter := length_erase member
      have others : Table.total (fun _ length => length) (table.erase start) ≤ start := by
        apply ih _ _ (by omega)
        · intro start' length' known
          rcases lookup_erase_iff.mp known with ⟨different, known⟩
          have before := above start' (mem_iff_lookup.mpr ⟨length', known⟩)
          exact apart start' length' start length known stored (by omega)
        · intro s l s' l' known known'
          exact apart s l s' l' (lookup_erase_iff.mp known).2
            (lookup_erase_iff.mp known').2
      have whole := total_erase (fun _ length => length) stored
      have bound := inside start length stored
      omega

end VectorChord.Collections
