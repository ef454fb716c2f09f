import VectorChord.Paged.Yields

/-!
# Latches that are left

How many latches a program holds more when it returns than when it is called does not depend on
what is stored: every request takes or gives back a latch, or neither.
-/

namespace VectorChord.Paged

open List

variable {π τ α β : Type}

/-- The latches that a request adds. -/
def Request.latches : (request : Request π τ) → request.Response → Int
  | .read _ _, _ => 1
  | .dropRead _, _ => -1
  | .write _ _ _, _ => 1
  | .put _ _, _ => 0
  | .dropWrite _, _ => -1
  | .extend _ _ _, _ => 1
  | .search _ _, found => if found.isSome then 1 else 0
  | .panic, _ => 0
  | .diverge, _ => 0

theorem length_release {s : Store π τ} {t id : Nat} {mode : Mode}
    (held : s.holds t id mode = true) :
    ((s.release t id mode).latches.length : Int) = s.latches.length + -1 := by
  obtain ⟨latch, member, isHeld⟩ := any_eq_true.mp held
  have fewer := length_eraseP_of_mem member isHeld
  have some_ := length_pos_of_mem member
  rw [Store.release, fewer]
  omega

theorem length_latches_of_exec {t choice : Nat} {request : Request π τ} {s s' : Store π τ}
    {response : request.Response}
    (executed : exec t choice request s = some (response, s')) :
    (s'.latches.length : Int) = s.latches.length + request.latches response := by
  cases request with
  | panic => cases response
  | diverge => cases response
  | dropRead | dropWrite =>
    obtain ⟨held, same⟩ := Option.ite_none_right_eq_some.mp executed
    cases same
    exact length_release held
  | put | extend =>
    obtain ⟨_, same⟩ := Option.ite_none_right_eq_some.mp executed
    cases same
    rfl
  | read tag id =>
    obtain ⟨_, _, rfl⟩ := exec_read executed
    rfl
  | write tag id tracking =>
    obtain ⟨_, _, rfl⟩ := exec_write executed
    rfl
  | search tag fits =>
    simp only [exec] at executed
    split at executed
    next =>
      cases executed
      rfl
    next =>
      split at executed <;>
      · cases executed
        rfl

namespace Prog

/-- The program returns with `change` more latches, whatever the requests return. -/
def Latches : Prog π τ α → Int → Prop
  | .pure _, change => change = 0
  | .step request next, change =>
    ∀ response, (next response).Latches (change - request.latches response)

variable {program : Prog π τ α} {f : α → Prog π τ β} {first change : Int}

theorem Latches.bind (before : program.Latches first)
    (after : ∀ value, (f value).Latches (change - first)) : (program.bind f).Latches change := by
  induction program generalizing first change with
  | pure value =>
    rw [show first = 0 from before, sub_zero] at after
    exact after value
  | step request next ih =>
    intro response
    apply ih response (before response)
    rw [sub_sub_sub_cancel_right]
    exact after

theorem latches_panic : (panic : Prog π τ α).Latches change := fun response => response.elim

theorem latches_expect (found : Option α) : (expect found : Prog π τ α).Latches 0 := by
  cases found with
  | none => exact latches_panic
  | some value => rfl

theorem latches_loop {body : β → Prog π τ (β ⊕ α)}
    (iterate : ∀ state, (body state).Latches 0) (fuel : Nat) (state : β) :
    (loop body fuel state).Latches 0 := by
  induction fuel generalizing state with
  | zero => exact fun response => response.elim
  | succ fuel ih =>
    apply (iterate state).bind
    rintro (next | value)
    · exact ih next
    · rfl

theorem latches_foldlM {ι : Type} {f : β → ι → Prog π τ β}
    (iterate : ∀ state item, (f state item).Latches 0) (items : List ι) (state : β) :
    (items.foldlM f state).Latches 0 := by
  induction items generalizing state with
  | nil => rfl
  | cons item rest ih =>
    rw [foldlM_cons]
    exact (iterate state item).bind ih

theorem length_latches_of_run {t : Nat} {choices : Nat → Nat} {s s' : Store π τ} {value : α}
    (returned : program.run t choices s = .done value s') (balanced : program.Latches change) :
    (s'.latches.length : Int) = s.latches.length + change := by
  induction program generalizing s choices change with
  | pure value =>
    cases returned
    rw [show change = 0 from balanced, add_zero]
  | step request next ih =>
    simp only [run] at returned
    cases executed : exec t (choices 0) request s with
    | none =>
      rw [executed] at returned
      dsimp only at returned
      split at returned <;> cases returned
    | some result =>
      rw [executed] at returned
      rw [ih result.1 returned (balanced result.1), length_latches_of_exec executed]
      omega

/-- A program that gives back all latches leaves a quiet store quiet. -/
theorem quiet_of_run {t : Nat} {choices : Nat → Nat} {s s' : Store π τ} {value : α}
    (none : s.latches = []) (returned : program.run t choices s = .done value s')
    (balanced : program.Latches 0) : s'.Quiet := by
  have length := length_latches_of_run returned balanced
  rw [none] at length
  have empty : s'.latches = [] := length_eq_zero_iff.mp (by simpa using length)
  exact fun id => by rw [Store.readable, empty]; rfl

end Prog

end VectorChord.Paged
