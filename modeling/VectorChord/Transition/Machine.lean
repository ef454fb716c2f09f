import Mathlib

/-!
# Machines driven by events

A machine reads a list of events one at a time and answers each of them.  Nothing is
assumed about who chooses the events: a schedule of participants, the calls of a client
and the whims of an environment are all lists of events.  An event that cannot happen in
a state is one that leaves it as it is.
-/

namespace VectorChord.Transition

/-- A deterministic machine with states `σ`, events `ε` and answers `ο`. -/
structure Machine (σ ε ο : Type) where
  step : σ → ε → σ × ο

namespace Machine

variable {σ τ ε ο : Type} (m : Machine σ ε ο)

/-- The state after a list of events. -/
def run : σ → List ε → σ
  | s, [] => s
  | s, event :: events => run (m.step s event).1 events

/-- The answers to a list of events. -/
def answers : σ → List ε → List ο
  | _, [] => []
  | s, event :: events => (m.step s event).2 :: answers (m.step s event).1 events

/-- Every step of a run meets a condition on the event and the state before it. -/
def Along (condition : σ → ε → Prop) : σ → List ε → Prop
  | _, [] => True
  | s, event :: events =>
    condition s event ∧ Along condition (m.step s event).1 events

instance decidableAlong (condition : σ → ε → Prop) [∀ s event, Decidable (condition s event)] :
    (s : σ) → (events : List ε) → Decidable (m.Along condition s events)
  | _, [] => isTrue trivial
  | s, event :: events =>
    have := decidableAlong condition (m.step s event).1 events
    inferInstanceAs (Decidable (condition s event ∧ m.Along condition (m.step s event).1 events))

@[simp] theorem run_nil (s : σ) : m.run s [] = s := rfl

@[simp] theorem run_cons (s : σ) (event : ε) (events : List ε) :
    m.run s (event :: events) = m.run (m.step s event).1 events := rfl

@[simp] theorem answers_cons (s : σ) (event : ε) (events : List ε) :
    m.answers s (event :: events) =
      (m.step s event).2 :: m.answers (m.step s event).1 events := rfl

variable {condition : σ → ε → Prop} {s : σ} {events : List ε}

@[simp] theorem along_cons {event : ε} :
    m.Along condition s (event :: events) ↔
      condition s event ∧ m.Along condition (m.step s event).1 events := Iff.rfl

variable {m} {invariant : σ → Prop}

/-- What every step keeps, every run keeps. -/
theorem run_invariant (kept : ∀ s event, invariant s → invariant (m.step s event).1)
    (holds : invariant s) (events : List ε) : invariant (m.run s events) := by
  induction events generalizing s with
  | nil => exact holds
  | cons event events ih => exact ih (kept s event holds)

/-- What every step that meets a condition keeps, every run of such steps keeps. -/
theorem run_invariant_of_along
    (kept : ∀ s event, invariant s → condition s event → invariant (m.step s event).1)
    (holds : invariant s) (along : m.Along condition s events) : invariant (m.run s events) := by
  induction events generalizing s with
  | nil => exact holds
  | cons event events ih => exact ih (kept s event holds along.1) along.2

/-- A machine whose steps are those of another one, or are not seen by it, comes only to states
that the other one comes to. -/
theorem run_stutter {n : Machine τ ε ο} (view : σ → τ)
    (kept : ∀ s event, view (m.step s event).1 = (n.step (view s) event).1 ∨
      view (m.step s event).1 = view s) (s : σ) (events : List ε) :
    ∃ events', view (m.run s events) = n.run (view s) events' := by
  induction events generalizing s with
  | nil => exact ⟨[], rfl⟩
  | cons event events ih =>
    rcases ih (m.step s event).1 with ⟨events', reached⟩
    rcases kept s event with stepped | stayed
    · exact ⟨event :: events', by rw [run_cons, reached, stepped, run_cons]⟩
    · exact ⟨events', by rw [run_cons, reached, stayed]⟩

variable {n : Machine τ ε ο} {related : σ → τ → Prop} {condition : τ → ε → Prop}

section

variable (kept : ∀ s t event, related s t → condition t event → related (m.step s event).1
  (n.step t event).1 ∧ (m.step s event).2 = (n.step t event).2)

include kept

/-- A step that meets the condition keeps two machines related and gets the same answer
from both, so a run of such steps does. -/
theorem answers_eq_of_along {t : τ} (holds : related s t)
    (along : n.Along condition t events) : m.answers s events = n.answers t events := by
  induction events generalizing s t with
  | nil => rfl
  | cons event events ih =>
    have next := kept s t event holds along.1
    rw [answers_cons, answers_cons, next.2, ih next.1 along.2]

/-- If moreover a step that does not meet the condition is answered differently, the
answers agree along the runs that meet the condition and along no others. -/
theorem answers_eq_iff_along (apart : ∀ s t event, related s t → ¬ condition t event →
      (m.step s event).2 ≠ (n.step t event).2) {t : τ} (holds : related s t) (events : List ε) :
    m.answers s events = n.answers t events ↔ n.Along condition t events := by
  induction events generalizing s t with
  | nil => exact iff_of_true rfl trivial
  | cons event events ih =>
    rw [answers_cons, answers_cons, List.cons_eq_cons, along_cons]
    by_cases met : condition t event
    · have next := kept s t event holds met
      rw [ih next.1]
      exact and_congr_left' (iff_of_true next.2 met)
    · constructor
      · intro same
        exact absurd same.1 (apart s t event holds met)
      · intro both
        exact absurd both.1 met

end

end Machine

end VectorChord.Transition
