import VectorChord.Paged.Program

/-!
# Programs that run alone

A program that has the relation for itself and returns is described by what it does to
the pages: latches only decide whether it returns.  `wlp` is the weakest liberal
precondition over the pages and the ids known to the free space map.
-/

namespace VectorChord.Paged

variable {π τ α β : Type}

/-- The store without its latches. -/
structure Content (π : Type) where
  pages : List π
  tracked : List Nat

/-- The content of a store. -/
def Store.content (s : Store π τ) : Content π := ⟨s.pages, s.tracked⟩

namespace Content

def put (c : Content π) (id : Nat) (page : π) : Content π :=
  { c with pages := c.pages.set id page }

def track (c : Content π) (id : Nat) (tracking : Bool) : Content π :=
  { c with tracked := if tracking then id :: c.tracked else c.tracked }

def extend (c : Content π) (page : π) (tracking : Bool) : Content π :=
  ({ c with pages := c.pages ++ [page] } : Content π).track c.pages.length tracking

end Content

/-- What a request that is executed returns and does to the content. -/
def Effect : (request : Request π τ) → Content π → request.Response → Content π → Prop
  | .read _ id, c, page, c' => c.pages[id]? = some page ∧ c' = c
  | .dropRead _, c, _, c' => c' = c
  | .write _ id tracking, c, page, c' => c.pages[id]? = some page ∧ c' = c.track id tracking
  | .put id page, c, _, c' => c' = c.put id page
  | .dropWrite _, c, _, c' => c' = c
  | .extend _ page tracking, c, id, c' =>
    (c.pages.length < invalidPage ∧ id = c.pages.length) ∧ c' = c.extend page tracking
  | .search _ fits, c, found, c' =>
    (∀ id page, found = some (id, page) →
      id ∈ c.tracked ∧ c.pages[id]? = some page ∧ fits page = true) ∧ c' = c
  | .panic, _, _, _ => False
  | .diverge, _, _, _ => False

theorem effect_of_exec {t choice : Nat} {request : Request π τ} {s s' : Store π τ}
    {response : request.Response}
    (executed : exec t choice request s = some (response, s')) :
    Effect request s.content response s'.content := by
  cases request with
  | read tag id =>
    obtain ⟨found, _, rfl⟩ := exec_read executed
    exact ⟨found, rfl⟩
  | write tag id tracking =>
    obtain ⟨found, _, rfl⟩ := exec_write executed
    exact ⟨found, rfl⟩
  | dropRead | put | dropWrite =>
    obtain ⟨_, same⟩ := Option.ite_none_right_eq_some.mp executed
    cases same
    rfl
  | extend tag page tracking =>
    obtain ⟨room, same⟩ := Option.ite_none_right_eq_some.mp executed
    cases same
    exact ⟨⟨room, rfl⟩, rfl⟩
  | search tag fits =>
    simp only [exec] at executed
    split at executed
    next =>
      cases executed
      exact ⟨fun _ _ found => (by cases found), rfl⟩
    next pick =>
      split at executed
      next =>
        cases executed
        exact ⟨fun _ _ found => (by cases found), rfl⟩
      next found candidate =>
        cases executed
        apply And.intro _ rfl
        intro id page same
        cases same
        have member := List.mem_of_getElem? candidate
        rcases List.mem_filterMap.mp member with ⟨id', tracked, kept⟩
        cases content : s.pages[id']? with
        | none => simp [content] at kept
        | some page' =>
          simp only [content, Option.ite_none_right_eq_some, Bool.and_eq_true,
            Option.some.injEq, Prod.mk.injEq] at kept
          rcases kept with ⟨⟨fit, _⟩, rfl, rfl⟩
          exact ⟨tracked, content, fit⟩
  | panic => cases response
  | diverge => cases response

namespace Prog

/-- Whatever the program returns satisfies the postcondition. -/
def wlp : Prog π τ α → (α → Content π → Prop) → Content π → Prop
  | .pure value, post, c => post value c
  | .step request next, post, c =>
    ∀ response c', Effect request c response c' → wlp (next response) post c'

variable {program : Prog π τ α} {post : α → Content π → Prop} {c : Content π} {f : α → Prog π τ β}

theorem wlp_mono {post' : α → Content π → Prop} (verified : program.wlp post c)
    (weaker : ∀ value c', post value c' → post' value c') : program.wlp post' c := by
  induction program generalizing c with
  | pure value => exact weaker value c verified
  | step request next ih =>
    intro response c' effect
    exact ih response (verified response c' effect)

theorem wlp_trivial (program : Prog π τ α) : program.wlp (fun _ _ => True) c := by
  induction program generalizing c with
  | pure value => trivial
  | step request next ih => exact fun response _ _ => ih response

@[simp] theorem wlp_pure {value : α} :
    (Prog.pure value : Prog π τ α).wlp post c ↔ post value c := Iff.rfl

@[simp] theorem wlp_bind {post : β → Content π → Prop} :
    (program.bind f).wlp post c ↔ program.wlp (fun value => (f value).wlp post) c := by
  induction program generalizing c with
  | pure value => exact Iff.rfl
  | step request next ih => simp only [step_bind, wlp, ih]

/-- One program after another. -/
theorem wlp_then {between : α → Content π → Prop} {post : β → Content π → Prop}
    (first : program.wlp between c)
    (second : ∀ value c', between value c' → (f value).wlp post c') :
    (program.bind f).wlp post c :=
  wlp_bind.mpr (wlp_mono first second)

section Requests

variable {c : Content π} {tag : τ} {id : Nat} {post : Unit → Content π → Prop}

@[simp] theorem wlp_put {page : π} :
    (Prog.put id page : Prog π τ Unit).wlp post c ↔ post () (c.put id page) := by
  constructor
  · intro verified
    exact verified () _ rfl
  · intro verified response c' effect
    rw [show c' = c.put id page from effect]
    exact verified

@[simp] theorem wlp_dropWrite : (Prog.dropWrite id : Prog π τ Unit).wlp post c ↔ post () c := by
  constructor
  · intro verified
    exact verified () c rfl
  · intro verified response c' effect
    rw [show c' = c from effect]
    exact verified

@[simp] theorem wlp_extend {page : π} {tracking : Bool} {post : Nat → Content π → Prop} :
    (Prog.extend tag page tracking : Prog π τ Nat).wlp post c ↔
      (c.pages.length < invalidPage → post c.pages.length (c.extend page tracking)) := by
  constructor
  · intro verified room
    exact verified _ _ ⟨⟨room, rfl⟩, rfl⟩
  · intro verified id' c' effect
    rcases effect with ⟨⟨room, rfl⟩, rfl⟩
    exact verified room

@[simp] theorem wlp_panic {post : α → Content π → Prop} :
    (Prog.panic : Prog π τ α).wlp post c :=
  fun response _ _ => response.elim

@[simp] theorem wlp_expect {found : Option α} {post : α → Content π → Prop} :
    (Prog.expect found : Prog π τ α).wlp post c ↔ ∀ value, found = some value → post value c := by
  cases found with
  | none => simp [expect]
  | some value => simp [expect]

end Requests

/-- Rule for a loop: an invariant of the loop state. -/
theorem wlp_loop {body : β → Prog π τ (β ⊕ α)} (LoopInv : β → Content π → Prop)
    (iterate : ∀ state c, LoopInv state c → (body state).wlp (Sum.elim LoopInv post) c) {fuel : Nat}
    {state : β} (start : LoopInv state c) : (Prog.loop body fuel state).wlp post c := by
  induction fuel generalizing state c with
  | zero =>
    intro response
    exact response.elim
  | succ fuel ih =>
    rw [loop, wlp_bind]
    apply wlp_mono (iterate state c start)
    intro result c' established
    cases result with
    | inl next => exact ih established
    | inr value => exact established

/-- Rule for a monadic fold over a list: the invariant speaks about the elements still
to come. -/
theorem wlp_foldlM {ι : Type} {f : β → ι → Prog π τ β} {post : β → Content π → Prop}
    (FoldInv : List ι → β → Content π → Prop)
    (iterate : ∀ item rest state c, FoldInv (item :: rest) state c →
      (f state item).wlp (FoldInv rest) c) (finish : ∀ state c, FoldInv [] state c → post state c)
    {items : List ι} {state : β} (start : FoldInv items state c) :
    (items.foldlM f state).wlp post c := by
  induction items generalizing state c with
  | nil => exact finish state c start
  | cons item rest ih =>
    rw [List.foldlM_cons, bind_eq, wlp_bind]
    apply wlp_mono (iterate item rest state c start)
    intro next c' established
    exact ih established

/-- A program that returns has established its postcondition. -/
theorem post_of_run {t : Nat} {choices : Nat → Nat} {s s' : Store π τ} {value : α}
    (returned : program.run t choices s = .done value s') (verified : program.wlp post s.content) :
    post value s'.content := by
  induction program generalizing s choices with
  | pure value =>
    cases returned
    exact verified
  | step request next ih =>
    simp only [run] at returned
    cases executed : exec t (choices 0) request s with
    | none =>
      rw [executed] at returned
      dsimp only at returned
      split at returned <;> cases returned
    | some result =>
      rw [executed] at returned
      exact ih result.1 returned (verified result.1 _ (effect_of_exec executed))

end Prog

end VectorChord.Paged
