import VectorChord.Collections.BestFirst
import VectorChord.Paged.Yields

/-!
# Lazy evaluation by a program

Best-first evaluation of items whose values have to be read from pages.  On pages that
nobody writes to, reading is a function of the item, and the program yields what the pure
evaluation yields.
-/

namespace VectorChord.Paged

open Collections

variable {π τ ι κ β : Type} [LinearOrder κ] {key : ι → κ} {source : Source key} [Heap]

namespace Lazy

/-- Evaluate items while they are ahead. -/
def fill (evaluate : ι → Prog π τ (Option (κ × β))) :
    (fuel : Nat) → BestFirst.State source β → Prog π τ (BestFirst.State source β)
  | 0, state => pure state
  | fuel + 1, state =>
    match source.nextIf (BestFirst.ahead key state.cache) state.pending with
    | (none, pending) => pure { state with pending := pending }
    | (some item, pending) => do
      let value ← evaluate item
      fill evaluate fuel ⟨pending, BestFirst.keep state.cache value⟩

/-- Yield one value, if there is one. -/
def next (evaluate : ι → Prog π τ (Option (κ × β))) (state : BestFirst.State source β) :
    Prog π τ (Option (κ × β) × BestFirst.State source β) := do
  let filled ← fill evaluate ((source.remaining state.pending).length + 1) state
  match Heap.pop Prod.fst filled.cache with
  | none => pure (none, filled)
  | some (top, cache) => pure (some top, { filled with cache := cache })

/-- Yield at most a number of values. -/
def take (evaluate : ι → Prog π τ (Option (κ × β))) :
    (count : Nat) → BestFirst.State source β →
      Prog π τ (List (κ × β) × BestFirst.State source β)
  | 0, state => pure ([], state)
  | count + 1, state => do
    match ← next evaluate state with
    | (none, state) => pure ([], state)
    | (some top, state) => do
      let (later, state) ← take evaluate count state
      pure (top :: later, state)

end Lazy

/-! ## Pages that nobody writes to -/

section

variable {t : Nat} {s : Store π τ} {evaluate : ι → Prog π τ (Option (κ × β))}
  {value : ι → Option (κ × β)}

/-- Evaluating one of the items reads its value. -/
def Lazy.Reads (t : Nat) (s : Store π τ) (evaluate : ι → Prog π τ (Option (κ × β)))
    (value : ι → Option (κ × β)) (items : List ι) : Prop :=
  ∀ item ∈ items, Prog.Yields t s (evaluate item) (value item)

omit [LinearOrder κ] [Heap] in
theorem Lazy.Reads.subset {items items' : List ι} (reads : Lazy.Reads t s evaluate value items)
    (subset : items' ⊆ items) : Lazy.Reads t s evaluate value items' :=
  fun item member => reads item (subset member)

theorem Lazy.yields_fill (fuel : Nat) (state : BestFirst.State source β)
    (reads : Lazy.Reads t s evaluate value (source.remaining state.pending)) :
    Prog.Yields t s (Lazy.fill evaluate fuel state) (BestFirst.fill value fuel state).2 := by
  induction fuel generalizing state with
  | zero => exact Prog.yields_pure _
  | succ fuel ih =>
    rw [fill, BestFirst.fill]
    rcases taken : source.nextIf (BestFirst.ahead key state.cache) state.pending with
      ⟨_ | item, pending⟩
    · exact Prog.yields_pure _
    · have order := source.taken_perm taken
      apply (reads item (order.subset List.mem_cons_self)).bind
      apply ih
      exact reads.subset fun other member => order.subset (List.mem_cons_of_mem item member)

theorem Lazy.yields_next (state : BestFirst.State source β)
    (reads : Lazy.Reads t s evaluate value (source.remaining state.pending)) :
    Prog.Yields t s (Lazy.next evaluate state)
      ((BestFirst.next value state).1, (BestFirst.next value state).2.2) := by
  apply (yields_fill _ state reads).bind
  rw [BestFirst.next]
  cases Heap.pop Prod.fst (BestFirst.fill value _ state).2.cache with
  | none => exact Prog.yields_pure _
  | some popped => exact Prog.yields_pure _

/-- On its way the evaluation only drops items. -/
theorem BestFirst.next_subset (value : ι → Option (κ × β)) (state : BestFirst.State source β) :
    source.remaining (BestFirst.next value state).2.2.pending ⊆
      source.remaining state.pending := by
  intro item member
  exact (BestFirst.next_accounts value state).items.subset (List.mem_append_right _ member)

theorem Lazy.yields_take (count : Nat) (state : BestFirst.State source β)
    (reads : Lazy.Reads t s evaluate value (source.remaining state.pending)) :
    Prog.Yields t s (Lazy.take evaluate count state)
      ((BestFirst.take value count state).yielded, (BestFirst.take value count state).state) := by
  induction count generalizing state with
  | zero => exact Prog.yields_pure _
  | succ count ih =>
    apply (yields_next state reads).bind
    have fewer := BestFirst.next_subset value state
    rw [BestFirst.take]
    rcases stepped : BestFirst.next value state with ⟨_ | top, evaluated, state'⟩
    · exact Prog.yields_pure _
    · rw [stepped] at fewer
      apply (ih state' (reads.subset fewer)).bind
      exact Prog.yields_pure _

end

end VectorChord.Paged
