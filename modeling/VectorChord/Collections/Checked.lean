import Mathlib

/-!
# Checked and saturating arithmetic

Operations of a 64-bit `usize` on natural numbers: the checked ones have no result when
the exact one is out of range, the saturating ones stop at the bound.  A checked sum is
stated for any values and any notion of fitting that is closed downwards.
-/

namespace VectorChord.Collections

/-- `usize::MAX`, which is also `u64::MAX`. -/
def usizeMax : Nat := 2 ^ 64 - 1

def checkedAdd (left right : Nat) : Option Nat :=
  if left + right ≤ usizeMax then some (left + right) else none

def checkedSub (left right : Nat) : Option Nat :=
  if right ≤ left then some (left - right) else none

def checkedMul (left right : Nat) : Option Nat :=
  if left * right ≤ usizeMax then some (left * right) else none

def saturatingAdd (left right : Nat) : Nat := min (left + right) usizeMax

def saturatingMul (left right : Nat) : Nat := min (left * right) usizeMax

variable {left right : Nat}

theorem checkedAdd_eq (fits : left + right ≤ usizeMax) :
    checkedAdd left right = some (left + right) :=
  if_pos fits

theorem checkedSub_eq (fits : right ≤ left) : checkedSub left right = some (left - right) :=
  if_pos fits

theorem checkedMul_eq (fits : left * right ≤ usizeMax) :
    checkedMul left right = some (left * right) :=
  if_pos fits

theorem eq_of_checkedAdd {result : Nat} (known : checkedAdd left right = some result) :
    result = left + right ∧ result ≤ usizeMax := by
  unfold checkedAdd at known
  split at known
  next fits =>
    cases known
    exact ⟨rfl, fits⟩
  next => cases known

theorem elim_checkedAdd_eq_ok {ε : Type} {error : ε} {result : Nat} :
    (checkedAdd left right).elim (throw error) pure = (.ok result : Except ε Nat) ↔
      left + right ≤ usizeMax ∧ result = left + right := by
  rw [checkedAdd]
  split <;> simp [*, eq_comm, Pure.pure, Except.pure]

theorem eq_of_checkedMul {result : Nat} (known : checkedMul left right = some result) :
    result = left * right ∧ result ≤ usizeMax := by
  unfold checkedMul at known
  split at known
  next fits =>
    cases known
    exact ⟨rfl, fits⟩
  next => cases known

section Sums

variable {α ι : Type} [AddMonoid α] (fits : α → Prop)

def addIf [DecidablePred fits] (left right : α) : Option α :=
  if fits (left + right) then some (left + right) else none

/-- If the total fits, so does every sum on the way to it. -/
theorem foldlM_add (closed : ∀ left right, fits (left + right) → fits left)
    {step : α → ι → Option α} (value : ι → α) {items : List ι}
    (steps : ∀ item ∈ items, ∀ sum, fits (sum + value item) →
      step sum item = some (sum + value item)) {sum : α}
    (total : fits (sum + (items.map value).sum)) :
    items.foldlM step sum = some (sum + (items.map value).sum) := by
  induction items generalizing sum with
  | nil => simp
  | cons item items ih =>
    simp only [List.map_cons, List.sum_cons, ← add_assoc] at total ⊢
    rw [List.foldlM_cons, steps item List.mem_cons_self sum (closed _ _ total)]
    exact ih (fun later member => steps later (List.mem_cons_of_mem item member)) total

end Sums

end VectorChord.Collections
