import VectorChord.Paged.Sequential

/-!
# Programs that return unless the relation is full

A program that adds pages cannot be sure to return: the relation may have no block number
left.  `returns` is the weakest precondition of returning with a postcondition in every
run in which the relation can be extended, and of extending it only below a limit.  If
there are block numbers up to the limit, the program returns.  Together with `wlp` it
says what the pages look like afterwards.
-/

namespace VectorChord.Paged

variable {π τ α β : Type}

namespace Prog

/-- The program returns, with a result and a store that satisfy the postcondition, or
fails to add a page, below the limit, to a full relation. -/
def returns (t limit : Nat) : Prog π τ α → (α → Store π τ → Prop) → Store π τ → Prop
  | .pure value, post, s => post value s
  | .step request next, post, s => ∀ choice,
      match exec t choice request s with
      | some (response, s') => returns t limit (next response) post s'
      | none => OutOfPages s request = true ∧ s.pages.length < limit

variable {t limit : Nat} {s : Store π τ} {program : Prog π τ α} {post : α → Store π τ → Prop}
  {f : α → Prog π τ β}

theorem returns_mono {post' : α → Store π τ → Prop} (verified : program.returns t limit post s)
    (weaker : ∀ value s', post value s' → post' value s') : program.returns t limit post' s := by
  induction program generalizing s with
  | pure value => exact weaker value s verified
  | step request next ih =>
    intro choice
    have executed := verified choice
    cases outcome : exec t choice request s with
    | none =>
      rw [outcome] at executed
      exact executed
    | some result =>
      rw [outcome] at executed
      exact ih result.1 executed

@[simp] theorem returns_pure {value : α} :
    (Prog.pure value : Prog π τ α).returns t limit post s ↔ post value s := Iff.rfl

@[simp] theorem returns_bind {post : β → Store π τ → Prop} :
    (program.bind f).returns t limit post s ↔
      program.returns t limit (fun value => (f value).returns t limit post) s := by
  induction program generalizing s with
  | pure value => exact Iff.rfl
  | step request next ih => simp only [step_bind, returns, ih]

/-- One program after another. -/
theorem returns_then {between : α → Store π τ → Prop} {post : β → Store π τ → Prop}
    (first : program.returns t limit between s)
    (second : ∀ value s', between value s' → (f value).returns t limit post s') :
    (program.bind f).returns t limit post s :=
  returns_bind.mpr (returns_mono first second)

theorem le_of_outOfPages {request : Request π τ} (out : OutOfPages s request = true) :
    invalidPage ≤ s.pages.length := by
  cases request <;> simp_all [OutOfPages]

/-- A run ends with a full relation, if the limit is beyond its last page, or with everything
that was shown about the result, the store and its content. -/
theorem run_of_returns {post' : α → Content π → Prop}
    (verified : program.returns t limit post s) (content : program.wlp post' s.content)
    (choices : Nat → Nat) :
    (program.run t choices s = .full ∧ invalidPage < limit) ∨
      ∃ value s', program.run t choices s = .done value s' ∧
        post value s' ∧ post' value s'.content := by
  suffices ends : (program.run t choices s = .full ∧ invalidPage < limit) ∨
      ∃ value s', program.run t choices s = .done value s' ∧ post value s' by
    rcases ends with full | ⟨value, s', returned, established⟩
    · exact .inl full
    · exact .inr ⟨value, s', returned, established, post_of_run returned content⟩
  clear content
  induction program generalizing s choices with
  | pure value => exact .inr ⟨value, s, rfl, verified⟩
  | step request next ih =>
    have executed := verified (choices 0)
    rw [run]
    cases outcome : exec t (choices 0) request s with
    | none =>
      rw [outcome] at executed
      exact .inl ⟨if_pos executed.1, (le_of_outOfPages executed.1).trans_lt executed.2⟩
    | some result =>
      rw [outcome] at executed
      exact ih result.1 executed _

/-! ## Requests -/

section Requests

variable {id : Nat} {post : Unit → Store π τ → Prop}

theorem returns_of_exec {request : Request π τ} {response : request.Response} {s' : Store π τ}
    {post : request.Response → Store π τ → Prop}
    (executed : ∀ choice, exec t choice request s = some (response, s'))
    (verified : post response s') : (Prog.step request .pure).returns t limit post s := by
  intro choice
  rw [executed]
  exact verified

theorem returns_put {page : π} (held : s.holds t id .exclusive = true)
    (verified : post () (s.putPage id page)) :
    (Prog.put id page : Prog π τ Unit).returns t limit post s :=
  returns_of_exec (fun _ => if_pos held) verified

theorem returns_dropWrite (held : s.holds t id .exclusive = true)
    (verified : post () (s.release t id .exclusive)) :
    (Prog.dropWrite id : Prog π τ Unit).returns t limit post s :=
  returns_of_exec (fun _ => if_pos held) verified

theorem returns_extend {tag : τ} {page : π} {tracking : Bool} {post : Nat → Store π τ → Prop}
    (below : s.pages.length < limit)
    (verified : s.pages.length < invalidPage → post s.pages.length
      (((s.addPage page).acquire ⟨t, s.pages.length, .exclusive, tag⟩).track
        s.pages.length tracking)) :
    (Prog.extend tag page tracking : Prog π τ Nat).returns t limit post s := by
  intro choice
  by_cases room : s.pages.length < invalidPage
  · simp only [exec, if_pos room]
    exact verified room
  · simp only [exec, if_neg room]
    exact ⟨by simpa [OutOfPages] using room, below⟩

theorem returns_expect {found : Option α} {value : α} {post : α → Store π τ → Prop}
    (present : found = some value) (verified : post value s) :
    (Prog.expect found : Prog π τ α).returns t limit post s := by
  rw [present]
  exact verified

end Requests

/-! ## Loops -/

/-- Rule for a loop: an invariant of the loop state and a variant that decreases.  The
variant may count the pages that can still be added. -/
theorem returns_loop {body : β → Prog π τ (β ⊕ α)} (LoopInv : β → Store π τ → Prop)
    (variant : β → Store π τ → Nat)
    (iterate : ∀ state s, LoopInv state s → (body state).returns t limit (fun result s' =>
      match result with
      | .inl next => LoopInv next s' ∧ variant next s' < variant state s
      | .inr value => post value s') s) {fuel : Nat} {state : β} (start : LoopInv state s)
    (enough : variant state s < fuel) : (Prog.loop body fuel state).returns t limit post s := by
  induction fuel generalizing state s with
  | zero => exact absurd enough (Nat.not_lt_zero _)
  | succ fuel ih =>
    apply returns_then (iterate state s start)
    intro result s' established
    cases result with
    | inl next => exact ih established.1 (by omega)
    | inr value => exact established

/-- Rule for a monadic fold over a list: the invariant speaks about the elements still
to come. -/
theorem returns_foldlM {ι : Type} {f : β → ι → Prog π τ β} {post : β → Store π τ → Prop}
    (FoldInv : List ι → β → Store π τ → Prop)
    (iterate : ∀ item rest state s, FoldInv (item :: rest) state s →
      (f state item).returns t limit (FoldInv rest) s)
    (finish : ∀ state s, FoldInv [] state s → post state s)
    {items : List ι} {state : β} (start : FoldInv items state s) :
    (items.foldlM f state).returns t limit post s := by
  induction items generalizing state s with
  | nil => exact finish state s start
  | cons item rest ih =>
    apply returns_then (iterate item rest state s start)
    intro next s' established
    exact ih established

end Prog

end VectorChord.Paged
