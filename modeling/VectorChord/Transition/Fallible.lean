import Mathlib

/-!
# Operations that can fail

An operation on a mutable state that returns a value or an error.  The state is kept
when it fails: what was changed before the error stays changed.
-/

namespace VectorChord.Transition

open List

/-- Operations on a state `σ` with errors `ε`. -/
abbrev Fallible (ε σ α : Type) := ExceptT ε (StateM σ) α

namespace Fallible

variable {ε σ α β : Type}

/-- The result and the state afterwards. -/
def step (operation : Fallible ε σ α) (s : σ) : Except ε α × σ := operation.run.run s

@[simp] theorem step_pure (value : α) (s : σ) :
    step (pure value : Fallible ε σ α) s = (.ok value, s) := rfl

@[simp] theorem step_set (s s' : σ) : step (set s' : Fallible ε σ Unit) s = (.ok (), s') := rfl

@[simp] theorem step_modify (f : σ → σ) (s : σ) :
    step (modify f : Fallible ε σ Unit) s = (.ok (), f s) := rfl

theorem step_bind (operation : Fallible ε σ α) (f : α → Fallible ε σ β) (s : σ) :
    step (operation >>= f) s =
      match step operation s with
      | (.ok value, s') => step (f value) s'
      | (.error error, s') => (.error error, s') := by
  simp only [step, ExceptT.run_bind, StateT.run_bind]
  rcases operation.run.run s with ⟨result, s'⟩
  cases result <;> rfl

@[simp] theorem step_bind_get (f : σ → Fallible ε σ β) (s : σ) :
    step (get >>= f) s = step (f s) s := rfl

variable {operation : Fallible ε σ α} {s' : σ} {value : α} {error : ε} {f : α → Fallible ε σ β}
  {result : β} {accepted : Prop} {computed : Except ε α} {τ : Type} {read : σ → τ}
  {write : σ → τ → σ} {items : List α} {results : List β}

variable {s : σ}

theorem step_bind_ok (done : step operation s = (.ok value, s')) (f : α → Fallible ε σ β) :
    step (operation >>= f) s = step (f value) s' := by
  rw [step_bind, done]

theorem step_bind_error (failed : step operation s = (.error error, s')) (f : α → Fallible ε σ β) :
    step (operation >>= f) s = (.error error, s') := by
  rw [step_bind, failed]

/-- If two operations in a row succeed, both do. -/
theorem step_bind_eq_ok : step (operation >>= f) s = (.ok result, s') ↔
      ∃ value middle, step operation s = (.ok value, middle) ∧
        step (f value) middle = (.ok result, s') := by
  rw [step_bind]
  rcases step operation s with ⟨first, middle⟩
  cases first with
  | error error =>
    constructor
    · intro done
      cases done
    · rintro ⟨_, _, done, _⟩
      cases done
  | ok value =>
    constructor
    · intro done
      exact ⟨value, middle, rfl, done⟩
    · rintro ⟨_, _, first, done⟩
      cases first
      exact done

/-- A result that does not depend on the state. -/
def lift (result : Except ε α) : Fallible ε σ α :=
  match result with
  | .ok value => pure value
  | .error error => throw error

@[simp] theorem step_lift (result : Except ε α) (s : σ) :
    step (lift result : Fallible ε σ α) s = (result, s) := by
  cases result <;> rfl

/-- Fail unless a condition holds. -/
def require (accepted : Prop) [Decidable accepted] (error : ε) : Fallible ε σ Unit :=
  if accepted then pure () else throw error

theorem step_require [Decidable accepted] (holds : accepted) (error : ε) (s : σ) :
    step (require accepted error : Fallible ε σ Unit) s = (.ok (), s) := by
  rw [require, if_pos holds]
  rfl

theorem step_require_not [Decidable accepted] (fails : ¬ accepted) (error : ε) (s : σ) :
    step (require accepted error : Fallible ε σ Unit) s = (.error error, s) := by
  rw [require, if_neg fails]
  rfl

/-- A check that was passed. -/
theorem step_require_bind_eq_ok [Decidable accepted] {f : Unit → Fallible ε σ β} :
    step (require accepted error >>= f) s = (.ok result, s') ↔
      accepted ∧ step (f ()) s = (.ok result, s') := by
  by_cases holds : accepted
  · rw [step_bind_ok (step_require holds error s)]
    exact (and_iff_right holds).symm
  · rw [step_bind_error (step_require_not holds error s)]
    constructor
    · intro done
      cases done
    · intro both
      exact absurd both.1 holds

/-- A computation that has succeeded. -/
theorem step_lift_bind_eq_ok : step (lift computed >>= f) s = (.ok result, s') ↔
      ∃ value, computed = .ok value ∧ step (f value) s = (.ok result, s') := by
  cases computed with
  | error error =>
    constructor
    · intro done
      cases done
    · rintro ⟨_, known, _⟩
      cases known
  | ok value =>
    constructor
    · intro done
      exact ⟨value, rfl, done⟩
    · rintro ⟨_, known, done⟩
      cases known
      exact done

/-- Run an operation that always succeeds. -/
def act (f : σ → α × σ) : Fallible ε σ α := do
  let s ← get
  set (f s).2
  pure (f s).1

/-- Run an operation and go on even if it fails. -/
def attempt (operation : Fallible ε σ α) : Fallible ε σ (Except ε α) := act operation.step

/-- Run an operation on a part of the state. -/
def focus {τ : Type} (read : σ → τ) (write : σ → τ → σ) (operation : Fallible ε τ α) :
    Fallible ε σ α := do
  let s ← get
  let result := operation.step (read s)
  set (write s result.2)
  lift result.1

@[simp] theorem step_focus (read : σ → τ) (write : σ → τ → σ) (operation : Fallible ε τ α) (s : σ) :
    step (focus read write operation) s =
      ((operation.step (read s)).1, write s (operation.step (read s)).2) := by
  change step (lift (operation.step (read s)).1) _ = _
  rw [step_lift]

/-- If an operation on a part of the state succeeds, it does so on the part. -/
theorem step_focus_eq_ok {operation : Fallible ε τ α} :
    step (focus read write operation) s = (.ok value, s') ↔
      ∃ t, operation.step (read s) = (.ok value, t) ∧ s' = write s t := by
  rw [step_focus]
  constructor
  · intro done
    obtain ⟨ok, rest⟩ := Prod.mk.inj done
    exact ⟨_, Prod.ext ok rfl, rest.symm⟩
  · rintro ⟨t, done, rfl⟩
    rw [done]

/-- If two computations in a row succeed, both do. -/
theorem bind_eq_ok {f : α → Except ε β} :
    (computed >>= f) = .ok result ↔ ∃ value, computed = .ok value ∧ f value = .ok result := by
  cases computed with
  | error error =>
    constructor
    · intro done
      cases done
    · rintro ⟨_, known, _⟩
      cases known
  | ok value =>
    constructor
    · intro done
      exact ⟨value, rfl, done⟩
    · rintro ⟨_, known, done⟩
      cases known
      exact done

/-- What is behind a failing branch has succeeded. -/
theorem guard_eq_ok {rejected : Prop} [Decidable rejected] :
    (if rejected then .error error else computed) = .ok value ↔
      ¬ rejected ∧ computed = .ok value := by
  split <;> simp [*]

theorem require_eq_ok [Decidable accepted] :
    (if accepted then computed else .error error) = .ok value ↔
      accepted ∧ computed = .ok value := by
  split <;> simp [*]

/-! ## Lists of results -/

/-- If all computations of a list succeed, each result is that of its item. -/
theorem mapM_eq_ok {f : α → Except ε β} (done : items.mapM f = .ok results) :
    List.Forall₂ (fun item result => f item = .ok result) items results := by
  induction items generalizing results with
  | nil =>
    cases done
    exact .nil
  | cons item items ih =>
    rw [mapM_cons] at done
    cases first : f item with
    | error error =>
      rw [first] at done
      cases done
    | ok result =>
      cases rest : items.mapM f with
      | error error =>
        rw [first, rest] at done
        cases done
      | ok others =>
        rw [first, rest] at done
        cases done
        exact .cons first (ih rest)

/-- What all computations of a list return, if they can only return one thing. -/
theorem eq_map_of_mapM_eq_ok {f : α → Except ε β} {g : α → β}
    (each : ∀ item result, f item = .ok result → result = g item)
    (done : items.mapM f = .ok results) : results = items.map g := by
  have all := mapM_eq_ok done
  clear done
  induction all with
  | nil => rfl
  | cons first _ ih => rw [map_cons, ih, each _ _ first]

theorem exists_of_mapM_eq_ok {f : α → Except ε β} (done : items.mapM f = .ok results) {item : α}
    (member : item ∈ items) : ∃ result, f item = .ok result := by
  have all := mapM_eq_ok done
  clear done
  induction all with
  | nil => cases member
  | cons first _ ih =>
    rcases mem_cons.mp member with rfl | inside
    · exact ⟨_, first⟩
    · exact ih inside

/-- Every result of a list of computations is that of an item. -/
theorem exists_mem_of_mapM_eq_ok {f : α → Except ε β} (done : items.mapM f = .ok results)
    (member : result ∈ results) : ∃ item ∈ items, f item = .ok result := by
  have all := mapM_eq_ok done
  clear done
  induction all with
  | nil => cases member
  | cons first _ ih =>
    rcases mem_cons.mp member with rfl | inside
    · exact ⟨_, mem_cons_self, first⟩
    · obtain ⟨item, among, known⟩ := ih inside
      exact ⟨item, mem_cons_of_mem _ among, known⟩

/-- If the computations of a list fail, one of them does. -/
theorem mapM_eq_error {f : α → Except ε β} (failed : items.mapM f = .error error) :
    ∃ item ∈ items, f item = .error error := by
  induction items with
  | nil => cases failed
  | cons item items ih =>
    rw [mapM_cons] at failed
    cases first : f item with
    | error error =>
      rw [first] at failed
      cases failed
      exact ⟨item, mem_cons_self, first⟩
    | ok result =>
      cases rest : items.mapM f with
      | error error =>
        rw [first, rest] at failed
        cases failed
        rcases ih rest with ⟨other, member, known⟩
        exact ⟨other, mem_cons_of_mem _ member, known⟩
      | ok others =>
        rw [first, rest] at failed
        cases failed

/-- What each step of a loop keeps holds at its end. -/
theorem foldlM_eq_ok {f : β → α → Except ε β} (LoopInv : List α → β → Prop)
    (iterate : ∀ item rest state next, LoopInv (item :: rest) state → f state item = .ok next →
      LoopInv rest next) {state : β} (start : LoopInv items state)
    (done : items.foldlM f state = .ok result) : LoopInv [] result := by
  induction items generalizing state with
  | nil =>
    cases done
    exact start
  | cons item rest ih =>
    obtain ⟨next, first, later⟩ := bind_eq_ok.mp done
    exact ih (iterate item rest state next start first) later

/-! ## Postconditions -/

/-- What holds after an operation, whether it succeeds or fails. -/
def wp (operation : Fallible ε σ α) (ok : α → σ → Prop) (error : ε → σ → Prop) (s : σ) : Prop :=
  match operation.step s with
  | (.ok value, s') => ok value s'
  | (.error failure, s') => error failure s'

variable {ok ok' : α → σ → Prop} {error error' : ε → σ → Prop} {s : σ} {failure : ε}

theorem wp_of_step_ok (done : operation.step s = (.ok value, s')) :
    wp operation ok error s ↔ ok value s' := by
  rw [wp, done]

theorem wp_of_step_error (failed : operation.step s = (.error failure, s')) :
    wp operation ok error s ↔ error failure s' := by
  rw [wp, failed]

/-- What holds of the state in both cases. -/
theorem state_of_wp {post : σ → Prop} (spec : wp operation (fun _ => post) (fun _ => post) s) :
    post (operation.step s).2 := by
  revert spec
  unfold wp
  rcases operation.step s with ⟨result, s'⟩
  cases result with
  | ok value => exact id
  | error failure => exact id

theorem wp_mono (spec : wp operation ok error s) (weaker : ∀ value s', ok value s' → ok' value s')
    (fails : ∀ failure s', error failure s' → error' failure s') : wp operation ok' error' s := by
  revert spec
  unfold wp
  rcases operation.step s with ⟨result, s'⟩
  cases result with
  | ok value => exact weaker value s'
  | error failure => exact fails failure s'

theorem wp_bind {ok : β → σ → Prop} :
    wp (operation >>= f) ok error s ↔
      wp operation (fun value s' => wp (f value) ok error s') error s := by
  unfold wp
  rw [step_bind]
  rcases operation.step s with ⟨result, s'⟩
  cases result <;> rfl

/-- Go on after an operation that fails as the whole may fail. -/
theorem wp_seq {ok' : β → σ → Prop} (spec : wp operation ok error s)
    (next : ∀ value s', ok value s' → wp (f value) ok' error s') :
    wp (operation >>= f) ok' error s :=
  wp_bind.mpr (wp_mono spec next fun _ _ failed => failed)

/-- What is known of an operation that has succeeded, and that it has done so. -/
theorem wp_done (spec : wp operation ok error s) :
    wp operation (fun value s' => ok value s' ∧ operation.step s = (.ok value, s')) error s := by
  unfold wp at spec ⊢
  cases done : operation.step s with
  | mk result s' =>
    rw [done] at spec
    cases result with
    | error failure => exact spec
    | ok value => exact ⟨spec, rfl⟩

/-- Go on after an operation that does not fail. -/
theorem wp_call {ok' : β → σ → Prop} (spec : wp operation ok (fun _ _ => False) s)
    (next : ∀ value s', ok value s' → wp (f value) ok' error s') :
    wp (operation >>= f) ok' error s :=
  wp_bind.mpr (wp_mono spec next fun _ _ impossible => impossible.elim)

theorem wp_bind_get {f : σ → Fallible ε σ β} {ok : β → σ → Prop} :
    wp (get >>= f) ok error s ↔ wp (f s) ok error s := Iff.rfl

theorem wp_bind_modify {change : σ → σ} {f : Unit → Fallible ε σ β} {ok : β → σ → Prop} :
    wp (modify change >>= f) ok error s ↔ wp (f ()) ok error (change s) := Iff.rfl

theorem wp_lift {result : Except ε α} : wp (lift result) ok error s ↔
    match result with
    | .ok value => ok value s
    | .error failure => error failure s := by
  cases result <;> rfl

theorem wp_require_bind [Decidable accepted] {f : Unit → Fallible ε σ β} {ok : β → σ → Prop} :
    wp (require accepted failure >>= f) ok error s ↔
      (accepted → wp (f ()) ok error s) ∧ (¬ accepted → error failure s) := by
  by_cases holds : accepted
  · rw [wp_bind, wp_of_step_ok (step_require holds failure s)]
    simp [holds]
  · rw [wp_bind, wp_of_step_error (step_require_not holds failure s)]
    simp [holds]

/-- Rule for a loop over a list: the invariant speaks about the items still to come. -/
theorem wp_foldlM {f : β → α → Fallible ε σ β} {ok : β → σ → Prop} (LoopInv : List α → β → σ → Prop)
    (iterate : ∀ item rest state s, LoopInv (item :: rest) state s →
      wp (f state item) (LoopInv rest) error s)
    (finish : ∀ state s, LoopInv [] state s → ok state s) {state : β}
    (start : LoopInv items state s) : wp (items.foldlM f state) ok error s := by
  induction items generalizing state s with
  | nil => exact finish state s start
  | cons item rest ih =>
    exact wp_seq (iterate item rest state s start) fun next s' kept => ih kept

theorem wp_act {f : σ → α × σ} : wp (act f) ok error s ↔ ok (f s).1 (f s).2 := Iff.rfl

/-- The failure of an operation that was attempted is a value. -/
theorem wp_attempt {ok : Except ε α → σ → Prop} :
    wp (attempt operation) ok error s ↔
      wp operation (fun value s' => ok (.ok value) s') (fun failure s' => ok (.error failure) s')
        s := by
  rw [attempt, wp_act, wp]
  rcases operation.step s with ⟨result, s'⟩
  cases result <;> rfl

theorem wp_focus {operation : Fallible ε τ α} :
    wp (focus read write operation) ok error s ↔
      wp operation (fun value t => ok value (write s t))
        (fun failure t => error failure (write s t)) (read s) := by
  rw [wp, step_focus, wp]
  rcases operation.step (read s) with ⟨result, t⟩
  cases result <;> rfl

end Fallible

end VectorChord.Transition
