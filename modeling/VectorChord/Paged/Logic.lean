import VectorChord.Paged.Program

/-!
# Rely-guarantee reasoning for latched page programs

A protocol fixes an invariant of the shared state and what a thread may know about
it: a fact that a thread knows is not falsified by any request of another thread.
The state is paired with a ghost component that a proof may choose afresh at every
step.

A program is verified once, against what it knows; `adequacy` then gives the
invariant in every state that any interleaving of verified programs reaches.
-/

namespace VectorChord.Paged

variable {π τ γ κ α β : Type}

/-- The store together with the ghost state of a proof. -/
abbrev World (π τ γ : Type) := Store π τ × γ

/-- What the threads of a system promise each other. -/
structure Protocol (π τ γ κ : Type) where
  /-- Holds between any two requests. -/
  Inv : World π τ γ → Prop
  /-- What a thread may know about the state. -/
  Knows : Nat → κ → World π τ γ → Prop

namespace Protocol

variable (P : Protocol π τ γ κ) (t : Nat)

/-- What the other threads may do between two requests of thread `t`: whatever `t`
knows stays true. -/
def Rely (w w' : World π τ γ) : Prop :=
  ∀ knowledge, P.Knows t knowledge w → P.Knows t knowledge w'

/-- A step of thread `t` that no other thread can object to. -/
def Guarantee (w w' : World π τ γ) : Prop :=
  ∀ u, u ≠ t → P.Rely u w w'

/-- The request of thread `t` that led from `w` to the store `s` keeps the protocol, and
`post` holds whenever the thread goes on. -/
def Next (w : World π τ γ) (s : Store π τ) (post : World π τ γ → Prop) : Prop :=
  ∃ ghost, P.Inv (s, ghost) ∧ P.Guarantee t w (s, ghost) ∧
    ∀ w', P.Rely t (s, ghost) w' → P.Inv w' → post w'

/-- Weakest precondition of a program run by thread `t`: after every request the
proof picks a ghost state that keeps the invariant and what the other threads know,
and goes on from any state that the other threads may then produce. -/
def wp : Prog π τ α → (α → World π τ γ → Prop) → World π τ γ → Prop
  | .pure value, post, w => post value w
  | .step request next, post, w =>
    request ≠ .panic ∧
    ∀ choice response s', exec t choice request w.1 = some (response, s') →
      P.Next t w s' (wp (next response) post)

variable {P t} {post : α → World π τ γ → Prop} {w : World π τ γ} {program : Prog π τ α}

@[simp] theorem wp_pure {value : α} : P.wp t (.pure value) post w ↔ post value w := Iff.rfl

theorem wp_mono {post' : α → World π τ γ → Prop} (weaker : ∀ value w, post value w → post' value w)
    (verified : P.wp t program post w) : P.wp t program post' w := by
  induction program generalizing w with
  | pure value => exact weaker value w verified
  | step request next ih =>
    rcases verified with ⟨allowed, stepped⟩
    refine ⟨allowed, ?_⟩
    intro choice response s' executed
    rcases stepped choice response s' executed with
      ⟨ghost, invNext, guarantee, continued⟩
    refine ⟨ghost, invNext, guarantee, ?_⟩
    intro w' relied inv'
    exact ih response (continued w' relied inv')

theorem wp_bind {f : α → Prog π τ β} {post : β → World π τ γ → Prop} :
    P.wp t (program.bind f) post w ↔
      P.wp t program (fun value => P.wp t (f value) post) w := by
  induction program generalizing w with
  | pure value => exact Iff.rfl
  | step request next ih =>
    simp only [Prog.step_bind, wp, Next, ih]

/-- Rule for a bounded loop. -/
theorem wp_loop {body : β → Prog π τ (β ⊕ α)} (LoopInv : β → World π τ γ → Prop)
    (iterate : ∀ state w, LoopInv state w → P.wp t (body state) (Sum.elim LoopInv post) w)
    {fuel : Nat} {state : β} (start : LoopInv state w) :
    P.wp t (Prog.loop body fuel state) post w := by
  induction fuel generalizing state w with
  | zero =>
    refine ⟨by simp, ?_⟩
    intro choice response
    exact response.elim
  | succ fuel ih =>
    apply wp_bind.mpr (wp_mono _ (iterate state w start))
    intro result w' established
    cases result with
    | inl next => exact ih established
    | inr value => exact established

/-- A thread is safe when its program stays verified under interference. -/
def Safe (P : Protocol π τ γ κ) (t : Nat) (program : Prog π τ α)
    (post : α → World π τ γ → Prop) (w : World π τ γ) : Prop :=
  ∀ w', P.Rely t w w' → P.Inv w' → P.wp t program post w'

theorem Safe.rely {w' : World π τ γ} (safe : P.Safe t program post w) (relied : P.Rely t w w') :
    P.Safe t program post w' := fun w'' relied' inv =>
    safe w'' (fun knowledge known => relied' knowledge (relied knowledge known)) inv

theorem Safe.now (safe : P.Safe t program post w) (inv : P.Inv w) : P.wp t program post w :=
  safe w (fun _ known => known) inv

variable (P) in
/-- The invariant holds for some ghost state under which every thread is safe. -/
def Sound (post : Nat → α → World π τ γ → Prop) (c : Config π τ α) : Prop :=
  ∃ ghost, P.Inv (c.store, ghost) ∧
    ∀ t program, c.threads[t]? = some program →
      P.Safe t program (post t) (c.store, ghost)

theorem Sound.step {post : Nat → α → World π τ γ → Prop} {c c' : Config π τ α}
    (sound : P.Sound post c) (stepped : c.Step c') : P.Sound post c' := by
  obtain ⟨ghost, inv, safe⟩ := sound
  obtain ⟨t, choice, advanced⟩ := stepped
  obtain ⟨request, next, response, s', found, executed, rfl⟩ := Config.advance_eq_some advanced
  obtain ⟨allowed, verified⟩ := (safe t _ found).now inv
  obtain ⟨ghost', inv', guarantee, continued⟩ := verified choice response s' executed
  refine ⟨ghost', inv', ?_⟩
  intro u program foundU
  by_cases same : u = t
  · subst same
    have inRange : u < c.threads.length := (List.getElem?_eq_some_iff.mp found).1
    rw [List.getElem?_set_self inRange] at foundU
    cases foundU
    exact continued
  · rw [List.getElem?_set_ne (Ne.symm same)] at foundU
    exact (safe u program foundU).rely (guarantee u same)

/-- Every interleaving of safe threads keeps the invariant, and every thread that
has returned has established its postcondition. -/
theorem adequacy {post : Nat → α → World π τ γ → Prop} {c c' : Config π τ α}
    (sound : P.Sound post c) (reached : c.Reaches c') : P.Sound post c' := by
  induction reached with
  | refl => exact sound
  | tail _ stepped ih => exact ih.step stepped

end Protocol

end VectorChord.Paged
