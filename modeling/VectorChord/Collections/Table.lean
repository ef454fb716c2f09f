import Mathlib

/-!
# Tables

A finite map from keys to values, as an association list without duplicate keys.  Maps
that the source iterates over in key order are asked for the least key from a bound on
and for the greatest key below one.  Sums over all entries follow every insertion and
removal.
-/

namespace VectorChord.Collections

open List AList

/-- A finite map from keys to values. -/
abbrev Table (κ ν : Type) := AList fun _ : κ => ν

namespace Table

variable {κ ν : Type} [DecidableEq κ] {table : Table κ ν} {key : κ}

/-! ## Lookups -/

theorem mem_iff_lookup : key ∈ table ↔ ∃ value, table.lookup key = some value := by
  rw [← lookup_isSome, Option.isSome_iff_exists]

theorem notMem_of_lookup (absent : ∀ value, table.lookup key ≠ some value) : key ∉ table :=
  fun member => (mem_iff_lookup.mp member).elim absent

variable {value : ν} (weight : κ → ν → Nat)

theorem lookup_insert_iff {other : κ} {result : ν} :
    (table.insert key value).lookup other = some result ↔
      other = key ∧ result = value ∨ other ≠ key ∧ table.lookup other = some result := by
  by_cases same : other = key
  · rw [same, lookup_insert, Option.some_inj]
    simp [eq_comm]
  · rw [lookup_insert_ne same]
    simp [same]

theorem lookup_erase_iff {other : κ} {result : ν} :
    (table.erase key).lookup other = some result ↔
      other ≠ key ∧ table.lookup other = some result := by
  by_cases same : other = key
  · rw [same, lookup_erase]
    simp
  · rw [lookup_erase_ne same]
    simp [same]

/-! ## Sums -/

/-- The sum of a weight over all entries. -/
def total (weight : κ → ν → Nat) (table : Table κ ν) : Nat :=
  (table.entries.map fun entry => weight entry.1 entry.2).sum

omit [DecidableEq κ] in
@[simp] theorem total_empty : total weight (∅ : Table κ ν) = 0 := rfl

theorem total_insert (table : Table κ ν) (key : κ) (value : ν) :
    total weight (table.insert key value) = weight key value + total weight (table.erase key) := by
  rfl

theorem total_erase (found : table.lookup key = some value) :
    weight key value + total weight (table.erase key) = total weight table := by
  have member : key ∈ table.entries.keys := AList.mem_keys.mp (mem_iff_lookup.mpr ⟨value, found⟩)
  rcases exists_of_kerase member with ⟨value', front, back, _, whole, erased⟩
  have entry : (⟨key, value'⟩ : Sigma fun _ : κ => ν) ∈ table.entries := by
    rw [whole]
    exact mem_append_right _ mem_cons_self
  have same : value' = value := by
    have known := mem_lookup_iff.mpr entry
    rw [Option.mem_def, found] at known
    exact (Option.some_inj.mp known).symm
  have rest : (table.erase key).entries = front ++ back := erased
  rw [total, total, rest, whole, same]
  simp only [map_append, map_cons, sum_append, sum_cons]
  omega

theorem erase_of_notMem (absent : key ∉ table) : table.erase key = table :=
  ext (kerase_of_notMem_keys absent)

theorem total_insert_of_notMem (absent : key ∉ table) (value : ν) :
    total weight (table.insert key value) = weight key value + total weight table := by
  rw [total_insert, erase_of_notMem absent]

theorem total_erase_le (table : Table κ ν) (key : κ) :
    total weight (table.erase key) ≤ total weight table := by
  cases found : table.lookup key with
  | none => rw [erase_of_notMem (lookup_eq_none.mp found)]
  | some value =>
    rw [← total_erase weight found]
    exact Nat.le_add_left _ _

theorem weight_le_total (found : table.lookup key = some value) :
    weight key value ≤ total weight table := by
  rw [← total_erase weight found]
  exact Nat.le_add_right _ _

omit [DecidableEq κ] in
theorem eq_empty (empty : ∀ key, key ∉ table) : table = ∅ := by
  apply ext
  rw [empty_entries, eq_nil_iff_forall_not_mem]
  intro entry member
  exact empty entry.1 (mem_keys_of_mem member)

theorem total_eq_zero (zero : ∀ key value, table.lookup key = some value → weight key value = 0) :
    total weight table = 0 := by
  apply sum_eq_zero
  intro summand member
  obtain ⟨entry, listed, rfl⟩ := mem_map.mp member
  exact zero entry.1 entry.2 (mem_lookup_iff.mpr listed)

theorem length_erase (member : key ∈ table) :
    (table.erase key).keys.length + 1 = table.keys.length := by
  rw [keys_erase, length_erase_of_mem (AList.mem_keys.mp member)]
  have positive := length_pos_of_mem (AList.mem_keys.mp member)
  omega

omit [DecidableEq κ] in
theorem total_le_total {weight' : κ → ν → Nat}
    (below : ∀ key value, weight key value ≤ weight' key value) :
    total weight table ≤ total weight' table := by
  apply sum_le_sum
  intro entry _
  exact below entry.1 entry.2

/-! ## Keys in order -/

/-- The least key from a bound on, with its value. -/
def firstFrom (table : Table Nat ν) (bound : Nat) : Option (Nat × ν) := do
  let key ← (table.keys.filter fun key => bound ≤ key).min?
  let value ← table.lookup key
  pure (key, value)

/-- The greatest key below a bound, with its value. -/
def lastBelow (table : Table Nat ν) (bound : Nat) : Option (Nat × ν) := do
  let key ← (table.keys.filter fun key => key < bound).max?
  let value ← table.lookup key
  pure (key, value)

/-- The greatest key, with its value. -/
def last (table : Table Nat ν) : Option (Nat × ν) := do
  let key ← table.keys.max?
  let value ← table.lookup key
  pure (key, value)

section

variable {table : Table Nat ν} {bound key : Nat} {value : ν}

theorem firstFrom_eq_some (found : table.firstFrom bound = some (key, value)) :
    bound ≤ key ∧ table.lookup key = some value := by
  simp only [firstFrom, Option.bind_eq_bind, Option.bind_eq_some_iff, Option.pure_def,
    Option.some_inj, Prod.mk.injEq] at found
  rcases found with ⟨key', least, value', stored, rfl, rfl⟩
  have member := min?_mem least
  simp only [mem_filter, decide_eq_true_eq] at member
  exact ⟨member.2, stored⟩

theorem firstFrom_isSome (member : key ∈ table) (above : bound ≤ key) :
    (table.firstFrom bound).isSome := by
  have candidate : key ∈ table.keys.filter fun key => bound ≤ key := by
    simp only [mem_filter, decide_eq_true_eq]
    exact ⟨AList.mem_keys.mp member, above⟩
  cases least : (table.keys.filter fun key => bound ≤ key).min? with
  | none =>
    rw [min?_eq_none_iff] at least
    rw [least] at candidate
    cases candidate
  | some key' =>
    have inside := min?_mem least
    rcases mem_iff_lookup.mp (AList.mem_keys.mpr (mem_of_mem_filter inside)) with
      ⟨value, stored⟩
    simp [firstFrom, least, stored]

theorem lastBelow_eq_some (found : table.lastBelow bound = some (key, value)) :
    key < bound ∧ table.lookup key = some value ∧
      ∀ other ∈ table, other < bound → other ≤ key := by
  simp only [lastBelow, Option.bind_eq_bind, Option.bind_eq_some_iff, Option.pure_def,
    Option.some_inj, Prod.mk.injEq] at found
  rcases found with ⟨key', greatest, value', stored, rfl, rfl⟩
  have extremal := max?_eq_some_iff.mp greatest
  have member := extremal.1
  simp only [mem_filter, decide_eq_true_eq] at member
  refine ⟨member.2, stored, ?_⟩
  intro other inside below
  apply extremal.2
  simp only [mem_filter, decide_eq_true_eq]
  exact ⟨AList.mem_keys.mp inside, below⟩

theorem lastBelow_eq_none (absent : table.lastBelow bound = none) (member : key ∈ table) :
    bound ≤ key := by
  by_contra below
  have candidate : key ∈ table.keys.filter fun key => key < bound := by
    simp only [mem_filter, decide_eq_true_eq]
    exact ⟨AList.mem_keys.mp member, Nat.lt_of_not_le below⟩
  cases greatest : (table.keys.filter fun key => key < bound).max? with
  | none =>
    rw [List.max?_eq_none_iff] at greatest
    rw [greatest] at candidate
    cases candidate
  | some key' =>
    have inside := max?_mem greatest
    rcases mem_iff_lookup.mp (AList.mem_keys.mpr (mem_of_mem_filter inside)) with
      ⟨value, stored⟩
    simp [lastBelow, greatest, stored] at absent

theorem last_eq_none (absent : table.last = none) (key : Nat) : key ∉ table := by
  intro member
  cases greatest : table.keys.max? with
  | none =>
    rw [List.max?_eq_none_iff] at greatest
    rw [AList.mem_keys, greatest] at member
    cases member
  | some key' =>
    rcases mem_iff_lookup.mp (AList.mem_keys.mpr (max?_mem greatest)) with ⟨value, stored⟩
    simp [last, greatest, stored] at absent

theorem last_eq_some (found : table.last = some (key, value)) :
    table.lookup key = some value ∧ ∀ other ∈ table, other ≤ key := by
  simp only [last, Option.bind_eq_bind, Option.bind_eq_some_iff, Option.pure_def,
    Option.some_inj, Prod.mk.injEq] at found
  rcases found with ⟨key', greatest, value', stored, rfl, rfl⟩
  refine ⟨stored, ?_⟩
  intro other inside
  exact (max?_eq_some_iff.mp greatest).2 other (AList.mem_keys.mp inside)

end

/-! ## Keys in order -/

section
variable {κ ν ν' : Type} [LinearOrder κ] {table : Table κ ν}

/-- The keys, the least first. -/
def inOrder (table : Table κ ν) : List κ := table.keys.insertionSort (· ≤ ·)

@[simp] theorem mem_inOrder {key : κ} : key ∈ table.inOrder ↔ key ∈ table := by
  rw [inOrder, mem_insertionSort, AList.mem_keys]

theorem nodup_inOrder (table : Table κ ν) : table.inOrder.Nodup :=
  (perm_insertionSort _ _).nodup_iff.mpr table.keys_nodup

theorem inOrder_eq {table' : Table κ ν'} (same : ∀ key, key ∈ table ↔ key ∈ table') :
    table.inOrder = table'.inOrder := by
  have order : table.inOrder.Perm table'.inOrder := by
    rw [perm_ext_iff_of_nodup table.nodup_inOrder table'.nodup_inOrder]
    intro key
    rw [mem_inOrder, mem_inOrder]
    exact same key
  exact order.eq_of_sortedLE sortedLE_insertionSort sortedLE_insertionSort

end

end Table

end VectorChord.Collections
