import VectorChord.Vchordrq.Tape

/-!
# What the pages of a tape say

All tuples of a page of a tape are of one type, and the readers of `Tape` deliver what is
in them, one after the other.
-/

namespace VectorChord.Vchordrq

open Index Paged Rabitq List

variable {kind : VectorKind} {σ : Type}

/-! ## Tuples of a page -/

def directories (page : RPage kind) : List DirectoryTuple :=
  page.tuples.filterMap Tuple.asDirectory

def appendables (page : RPage kind) : List AppendableTuple :=
  page.tuples.filterMap Tuple.asAppendable

def h1s (page : RPage kind) : List H1Tuple := page.tuples.filterMap Tuple.asH1

/-- The ids in a directory page. -/
def pageIds (page : RPage kind) : List Nat :=
  (directories page).flatMap DirectoryTuple.elements

/-- A page without freed slots, all of whose tuples are of one type. -/
structure Typed {α : Type} (as : Tuple kind → Option α) (page : RPage kind) : Prop where
  dense : page.Dense
  typed : ∀ tuple ∈ page.tuples, (as tuple).isSome

/-- On such a page, an action on every slot that expects the type is the action on
every tuple. -/
theorem Typed.foldlM_slots {α : Type} {as : Tuple kind → Option α} {page : RPage kind}
    (typed : Typed as page) (action : σ → α → RProg kind σ) (state : σ) :
    page.slots.foldlM (fun state slot => do
      let tuple ← Prog.expect (slot.bind as)
      action state tuple) state =
      (page.tuples.filterMap as).foldlM action state := by
  rw [typed.dense, foldlM_map]
  have all := typed.typed
  revert all
  induction page.tuples generalizing state with
  | nil => intro; rfl
  | cons tuple rest ih =>
    intro all
    rcases Option.isSome_iff_exists.mp (all tuple mem_cons_self) with ⟨value, found⟩
    rw [filterMap_cons_some found, foldlM_cons, foldlM_cons]
    simp only [Option.bind_some, found, Prog.expect, Prog.bind_eq, Prog.pure_bind]
    congr 1
    funext next
    exact ih next fun other member => all other (mem_cons_of_mem tuple member)

/-! ## Frozen tuples -/

/-- The live entries of a block. -/
def FrozenHeader.branches (header : FrozenHeader) (rows : List Row) :
    List (Branch Payload) :=
  (List.finRange 32).filterMap fun j => (header.payload j).map (header.branch rows j)

/-! ## H1 tuples -/

/-- The children of a list of H1 tuples. -/
def h1Children (tuples : List H1Tuple) : List Child :=
  tuples.flatMap fun
    | .v0 header _ => header.children
    | .v1 _ => []

/-- `read_h1_tape` delivers the children of a page in order. -/
theorem readH1Page_eq {page : RPage kind} (typed : Typed Tuple.asH1 page)
    (children : List Child) :
    readH1Page children page = .pure (children ++ h1Children (h1s page)) := by
  refine (typed.foldlM_slots (fun children tuple =>
    match tuple with
    | .v0 header _ => pure (children ++ header.children)
    | .v1 _ => pure children) children).trans ?_
  rw [h1s]
  induction page.tuples.filterMap Tuple.asH1 generalizing children with
  | nil => simp [h1Children]
  | cons tuple rest ih =>
    cases tuple with
    | v0 header elements =>
      refine (ih (children ++ header.children)).trans ?_
      simp [h1Children]
    | v1 elements =>
      refine (ih children).trans ?_
      simp [h1Children]

end VectorChord.Vchordrq
