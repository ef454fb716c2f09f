import Mathlib

/-!
# Programs over latched pages

A paged relation is a growing list of pages.  A program reads and writes it one
page latch at a time: it takes a latch in share or exclusive mode, replaces the
content of a page it holds exclusively, and releases latches again.  Everything
between two such actions is a pure computation, so one request is one atomic
step and the interleavings of requests are all interleavings of a set of
programs.

The pages, the tags that a program attaches to its latches, and the results are
arbitrary types; nothing here depends on what is stored.
-/

namespace VectorChord.Paged

/-- Mode of a latch: any number of holders may share a page, an exclusive holder
is alone. -/
inductive Mode where
  | share
  | exclusive
  deriving DecidableEq, Repr

/-- A latch held by a thread.  The tag records what the holder uses the page for;
no program can observe it. -/
structure Latch (τ : Type) where
  holder : Nat
  page : Nat
  mode : Mode
  tag : τ
  deriving DecidableEq, Repr

/-- Block numbers have 32 bits and the last one is reserved, so a relation has at
most this many pages and the number itself is never the id of a page. -/
def invalidPage : Nat := 2 ^ 32 - 1

/-- The shared state: the pages, the latches held on them, and the pages whose
free space is tracked in the free space map. -/
structure Store (π τ : Type) where
  pages : List π
  latches : List (Latch τ)
  tracked : List Nat
  deriving DecidableEq, Repr

/-- One atomic action of a program. -/
inductive Request (π τ : Type) where
  /-- Latch a page in share mode and return its content. -/
  | read (tag : τ) (id : Nat)
  | dropRead (id : Nat)
  /-- Latch a page exclusively and return its content. -/
  | write (tag : τ) (id : Nat) (tracking : Bool)
  /-- Replace the content of an exclusively latched page. -/
  | put (id : Nat) (page : π)
  | dropWrite (id : Nat)
  /-- Append a page, exclusively latched. -/
  | extend (tag : τ) (page : π) (tracking : Bool)
  /-- Ask the free space map for a page that passes a test; an answer is latched
  exclusively. -/
  | search (tag : τ) (fits : π → Bool)
  /-- A failed assertion. -/
  | panic
  /-- A loop that has used up the iterations it was given. -/
  | diverge

/-- What a request returns. -/
@[reducible] def Request.Response {π τ : Type} : Request π τ → Type
  | .read _ _ => π
  | .write _ _ _ => π
  | .extend _ _ _ => Nat
  | .search _ _ => Option (Nat × π)
  | .dropRead _ => Unit
  | .put _ _ => Unit
  | .dropWrite _ => Unit
  | .panic => Empty
  | .diverge => Empty

namespace Store

variable {π τ : Type}

/-- No thread holds the page exclusively. -/
def readable (s : Store π τ) (id : Nat) : Bool :=
  s.latches.all fun latch => !(latch.page == id && latch.mode == .exclusive)

/-- No thread holds the page in any mode. -/
def writable (s : Store π τ) (id : Nat) : Bool :=
  s.latches.all fun latch => !(latch.page == id)

/-- The latch of thread `t` on page `id` in the given mode. -/
def isLatch (t id : Nat) (mode : Mode) (latch : Latch τ) : Bool :=
  latch.holder == t && latch.page == id && latch.mode == mode

/-- Thread `t` holds page `id` in the given mode. -/
def holds (s : Store π τ) (t id : Nat) (mode : Mode) : Bool :=
  s.latches.any (isLatch t id mode)

/-- The latches of one thread, the latest first. -/
def mine (s : Store π τ) (t : Nat) : List (Latch τ) :=
  s.latches.filter fun latch => latch.holder == t

def acquire (s : Store π τ) (latch : Latch τ) : Store π τ :=
  { s with latches := latch :: s.latches }

def release (s : Store π τ) (t id : Nat) (mode : Mode) : Store π τ :=
  { s with latches := s.latches.eraseP (isLatch t id mode) }

def putPage (s : Store π τ) (id : Nat) (page : π) : Store π τ :=
  { s with pages := s.pages.set id page }

def track (s : Store π τ) (id : Nat) (tracking : Bool) : Store π τ :=
  { s with tracked := if tracking then id :: s.tracked else s.tracked }

def addPage (s : Store π τ) (page : π) : Store π τ :=
  { s with pages := s.pages ++ [page] }

/-- Tracked pages that pass the test and that no thread holds. -/
def candidates (s : Store π τ) (fits : π → Bool) : List (Nat × π) :=
  s.tracked.filterMap fun id =>
    match s.pages[id]? with
    | none => none
    | some page => if fits page && s.writable id then some (id, page) else none

end Store

variable {π τ α β : Type}

/-- Execute one request of thread `t`.  A request that is blocked by a latch, that
names a missing page, or that halts the program has no result.  `choice` resolves
which page the free space map offers; zero means none. -/
def exec (t choice : Nat) : (request : Request π τ) → Store π τ →
    Option (request.Response × Store π τ)
  | .read tag id, s =>
    match s.pages[id]? with
    | none => none
    | some page =>
      if s.readable id then some (page, s.acquire ⟨t, id, .share, tag⟩) else none
  | .dropRead id, s =>
    if s.holds t id .share then some ((), s.release t id .share) else none
  | .write tag id tracking, s =>
    match s.pages[id]? with
    | none => none
    | some page =>
      if s.writable id then
        some (page, (s.acquire ⟨t, id, .exclusive, tag⟩).track id tracking)
      else none
  | .put id page, s =>
    if s.holds t id .exclusive then some ((), s.putPage id page) else none
  | .dropWrite id, s =>
    if s.holds t id .exclusive then some ((), s.release t id .exclusive) else none
  | .extend tag page tracking, s =>
    if s.pages.length < invalidPage then
      some (s.pages.length, ((s.addPage page).acquire ⟨t, s.pages.length, .exclusive, tag⟩).track
          s.pages.length tracking)
    else none
  | .search tag fits, s =>
    match choice with
    | 0 => some (none, s)
    | pick + 1 =>
      match (s.candidates fits)[pick]? with
      | none => some (none, s)
      | some found => some (some found, s.acquire ⟨t, found.1, .exclusive, tag⟩)
  | .panic, _ => none
  | .diverge, _ => none

section

variable {t choice id : Nat} {tag : τ} {s s' : Store π τ} {page : π}

theorem exec_read (executed : exec t choice (.read tag id) s = some (page, s')) :
    s.pages[id]? = some page ∧ s.readable id = true ∧ s' = s.acquire ⟨t, id, .share, tag⟩ := by
  simp only [exec] at executed
  split at executed
  next => cases executed
  next _ found =>
    obtain ⟨free, same⟩ := Option.ite_none_right_eq_some.mp executed
    cases same
    exact ⟨found, free, rfl⟩

theorem exec_write {tracking : Bool}
    (executed : exec t choice (.write tag id tracking) s = some (page, s')) :
    s.pages[id]? = some page ∧ s.writable id = true ∧
      s' = (s.acquire ⟨t, id, .exclusive, tag⟩).track id tracking := by
  simp only [exec] at executed
  split at executed
  next => cases executed
  next _ found =>
    obtain ⟨free, same⟩ := Option.ite_none_right_eq_some.mp executed
    cases same
    exact ⟨found, free, rfl⟩

end

/-- A program: a result, or a request with a continuation. -/
inductive Prog (π τ α : Type) where
  | pure (value : α)
  | step (request : Request π τ) (next : request.Response → Prog π τ α)

namespace Prog

def bind : Prog π τ α → (α → Prog π τ β) → Prog π τ β
  | .pure value, f => f value
  | .step request next, f => .step request fun response => (next response).bind f

instance : Monad (Prog π τ) where
  pure := Prog.pure
  bind := Prog.bind

@[simp] theorem pure_eq (value : α) :
    (Pure.pure value : Prog π τ α) = Prog.pure value := rfl

@[simp] theorem bind_eq (program : Prog π τ α) (f : α → Prog π τ β) :
    (program >>= f) = program.bind f := rfl

@[simp] theorem pure_bind (value : α) (f : α → Prog π τ β) :
    (Prog.pure value : Prog π τ α).bind f = f value := rfl

@[simp] theorem step_bind (request : Request π τ)
    (next : request.Response → Prog π τ α) (f : α → Prog π τ β) :
    (Prog.step request next).bind f =
      .step request fun response => (next response).bind f := rfl

@[simp] theorem bind_pure (program : Prog π τ α) :
    program.bind Prog.pure = program := by
  induction program with
  | pure value => rfl
  | step request next ih =>
    simp only [step_bind]
    congr 1
    funext response
    exact ih response

theorem bind_assoc {δ : Type} (program : Prog π τ α) (f : α → Prog π τ β)
    (g : β → Prog π τ δ) :
    (program.bind f).bind g = program.bind fun value => (f value).bind g := by
  induction program with
  | pure value => rfl
  | step request next ih =>
    simp only [step_bind]
    congr 1
    funext response
    exact ih response

instance : LawfulMonad (Prog π τ) :=
  LawfulMonad.mk' (Prog π τ) (fun program => bind_pure program) (fun _ _ => rfl)
    (fun program f g => bind_assoc program f g)

def read (tag : τ) (id : Nat) : Prog π τ π := .step (.read tag id) .pure
def dropRead (id : Nat) : Prog π τ Unit := .step (.dropRead id) .pure
def write (tag : τ) (id : Nat) (tracking : Bool) : Prog π τ π :=
  .step (.write tag id tracking) .pure
def put (id : Nat) (page : π) : Prog π τ Unit := .step (.put id page) .pure
def dropWrite (id : Nat) : Prog π τ Unit := .step (.dropWrite id) .pure
def extend (tag : τ) (page : π) (tracking : Bool) : Prog π τ Nat :=
  .step (.extend tag page tracking) .pure
def search (tag : τ) (fits : π → Bool) : Prog π τ (Option (Nat × π)) :=
  .step (.search tag fits) .pure
def panic : Prog π τ α := .step .panic Empty.elim
def diverge : Prog π τ α := .step .diverge Empty.elim

/-- Nothing runs after a failed assertion. -/
theorem panic_bind (f : α → Prog π τ β) : (panic : Prog π τ α).bind f = panic :=
  congrArg (Prog.step .panic) (funext fun response => response.elim)

/-- Unwrap a value or fail an assertion. -/
def expect : Option α → Prog π τ α
  | some value => .pure value
  | none => panic

/-- `loop { .. }` with at most `fuel` iterations: the body returns the next loop
state or the value to break with. -/
def loop (body : β → Prog π τ (β ⊕ α)) : Nat → β → Prog π τ α
  | 0, _ => diverge
  | fuel + 1, state =>
    (body state).bind fun
      | .inl next => loop body fuel next
      | .inr result => .pure result

/-! ## Whatever the requests return -/

/-- No assertion fails, and the result is as it should be, whatever the requests return. -/
def Always (post : α → Prop) : Prog π τ α → Prop
  | .pure value => post value
  | .step request next => request ≠ .panic ∧ ∀ response, (next response).Always post

variable {program : Prog π τ α} {post : α → Prop}

theorem always_bind {f : α → Prog π τ β} {post : β → Prop} :
    (program.bind f).Always post ↔ program.Always fun value => (f value).Always post := by
  induction program with
  | pure value => exact Iff.rfl
  | step request next ih => exact and_congr_right fun _ => forall_congr' fun response => ih response

theorem always_request {request : Request π τ} {f : request.Response → Prog π τ α}
    (proper : request ≠ .panic) (continued : ∀ response, (f response).Always post) :
    ((Prog.step request .pure).bind f).Always post :=
  ⟨proper, continued⟩

theorem Always.mono {post' : α → Prop} (imp : ∀ value, post value → post' value)
    (always : program.Always post) : program.Always post' := by
  induction program with
  | pure value => exact imp value always
  | step request next ih => exact ⟨always.1, fun response => ih response (always.2 response)⟩

theorem always_loop {body : β → Prog π τ (β ⊕ α)}
    (iterate : ∀ state, (body state).Always (Sum.elim (fun _ => True) post)) (fuel : Nat)
    (state : β) : (loop body fuel state).Always post := by
  induction fuel generalizing state with
  | zero => exact ⟨by simp, fun response => response.elim⟩
  | succ fuel ih =>
    apply always_bind.mpr
    apply Always.mono _ (iterate state)
    intro result reached
    cases result with
    | inl next => exact ih next
    | inr result => exact reached

end Prog

/-! ## One program at a time -/

/-- Outcome of running one program to its end: it returned, the relation could not
be extended any further, or it got stuck. -/
inductive Outcome (π τ α : Type) where
  | done (value : α) (store : Store π τ)
  | full
  | stuck

def Outcome.isStuck : Outcome π τ α → Bool
  | .stuck => true
  | _ => false

theorem Outcome.eq_stuck {outcome : Outcome π τ α} (stuck : outcome.isStuck = true) :
    outcome = .stuck := by
  cases outcome with
  | stuck => rfl
  | done value store => cases stuck
  | full => cases stuck

/-- The request failed only because the relation has reached its last page. -/
def OutOfPages (s : Store π τ) : Request π τ → Bool
  | .extend _ _ _ => invalidPage ≤ s.pages.length
  | _ => false

/-- Run a program as thread `t` with no other program in between. -/
def Prog.run (t : Nat) : Prog π τ α → (Nat → Nat) → Store π τ → Outcome π τ α
  | .pure value, _, s => .done value s
  | .step request next, choices, s =>
    match exec t (choices 0) request s with
    | some (response, s') =>
      (next response).run t (fun index => choices (index + 1)) s'
    | none => if OutOfPages s request then .full else .stuck

/-! ## Any interleaving -/

/-- Threads running over one store; thread `t` is the `t`-th program. -/
structure Config (π τ α : Type) where
  store : Store π τ
  threads : List (Prog π τ α)

namespace Config

/-- Let one thread execute its next request. -/
def advance (c : Config π τ α) (t choice : Nat) : Option (Config π τ α) :=
  match c.threads[t]? with
  | some (.step request next) =>
    match exec t choice request c.store with
    | some (response, s') => some ⟨s', c.threads.set t (next response)⟩
    | none => none
  | _ => none

/-- One step of some thread. -/
def Step (c c' : Config π τ α) : Prop := ∃ t choice, c.advance t choice = some c'

/-- Any number of steps, by any threads in any order. -/
def Reaches : Config π τ α → Config π τ α → Prop := Relation.ReflTransGen Step

/-- Follow a schedule of threads and choices. -/
def follow (c : Config π τ α) : List (Nat × Nat) → Option (Config π τ α)
  | [] => some c
  | (t, choice) :: rest =>
    match c.advance t choice with
    | some c' => c'.follow rest
    | none => none

theorem advance_eq_some {c c' : Config π τ α} {t choice : Nat}
    (advanced : c.advance t choice = some c') :
    ∃ request next response s', c.threads[t]? = some (.step request next) ∧
      exec t choice request c.store = some (response, s') ∧
      c' = ⟨s', c.threads.set t (next response)⟩ := by
  unfold advance at advanced
  split at advanced
  next request next found =>
    split at advanced
    next response s' executed =>
      exact ⟨request, next, response, s', found, executed, (Option.some.inj advanced).symm⟩
    next => cases advanced
  next => cases advanced

theorem reaches_of_follow {c c' : Config π τ α} (schedule : List (Nat × Nat))
    (followed : c.follow schedule = some c') : c.Reaches c' := by
  induction schedule generalizing c with
  | nil =>
    cases followed
    exact .refl
  | cons turn rest ih =>
    obtain ⟨t, choice⟩ := turn
    simp only [follow] at followed
    split at followed
    next middle advanced =>
      exact .head ⟨t, choice, advanced⟩ (ih followed)
    next => cases followed

theorem length_of_reaches {c c' : Config π τ α} (reached : c.Reaches c') :
    c'.threads.length = c.threads.length := by
  induction reached with
  | refl => rfl
  | tail _ stepped ih =>
    rcases stepped with ⟨t, choice, advanced⟩
    rcases advance_eq_some advanced with ⟨_, _, _, _, _, _, rfl⟩
    rw [← ih, List.length_set]

/-- Thread `t` has returned `value`. -/
def Returned (c : Config π τ α) (t : Nat) (value : α) : Prop :=
  c.threads[t]? = some (.pure value)

end Config

end VectorChord.Paged
