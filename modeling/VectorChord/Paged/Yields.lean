import VectorChord.Paged.Returning

/-!
# Programs that only look

A program that adds no page returns if no request of it is blocked, fails or halts.  One that
only looks at pages also leaves the store as it was.
-/

namespace VectorChord.Paged

open List

variable {π τ α β : Type}

namespace Prog

variable {t limit : Nat} {s : Store π τ} {program : Prog π τ α} {post : α → Store π τ → Prop}

section Requests

variable {tag : τ} {id : Nat} {post : Unit → Store π τ → Prop}

theorem returns_read {page : π} {post : π → Store π τ → Prop}
    (found : s.pages[id]? = some page) (readable : s.readable id = true)
    (verified : post page (s.acquire ⟨t, id, .share, tag⟩)) :
    (Prog.read tag id : Prog π τ π).returns t limit post s :=
  returns_of_exec (fun _ => by simp only [exec, found, readable, if_true]) verified

/-- A latch that was taken last is given back. -/
theorem returns_dropRead (verified : post () s) :
    (Prog.dropRead id : Prog π τ Unit).returns t limit post (s.acquire ⟨t, id, .share, tag⟩) := by
  have mine : Store.isLatch t id .share (⟨t, id, .share, tag⟩ : Latch τ) = true := by
    simp [Store.isLatch]
  exact returns_of_exec
    (fun _ => by simp [exec, Store.holds, Store.acquire, Store.release, mine]) verified

/-- So is the one before, if the last one is on another page. -/
theorem returns_dropRead_below {latch : Latch τ} (apart : latch.page ≠ id)
    (verified : post () (s.acquire latch)) :
    (Prog.dropRead id : Prog π τ Unit).returns t limit post
      ((s.acquire ⟨t, id, .share, tag⟩).acquire latch) := by
  have other : Store.isLatch t id .share latch = false := by simp [Store.isLatch, apart]
  have mine : Store.isLatch t id .share (⟨t, id, .share, tag⟩ : Latch τ) = true := by
    simp [Store.isLatch]
  exact returns_of_exec
    (fun _ => by simp [exec, Store.holds, Store.acquire, Store.release, mine, other]) verified

end Requests

/-- The program returns the value and leaves the store as it was. -/
def Yields (t : Nat) (s : Store π τ) (program : Prog π τ α) (value : α) : Prop :=
  program.returns t 0 (fun result s' => result = value ∧ s' = s) s

variable {value : α} {result : β}

theorem yields_pure (value : α) : Yields t s (Prog.pure value : Prog π τ α) value :=
  ⟨rfl, rfl⟩

theorem yields_expect {found : Option α} (present : found = some value) :
    Yields t s (Prog.expect found : Prog π τ α) value :=
  returns_expect present ⟨rfl, rfl⟩

theorem Yields.bind {f : α → Prog π τ β} (first : Yields t s program value)
    (second : Yields t s (f value) result) : Yields t s (program.bind f) result := by
  apply returns_then first
  rintro found s' ⟨rfl, rfl⟩
  exact second

/-- A page is latched while a program looks at it. -/
theorem Yields.latched {tag : τ} {id : Nat} {page : π} {body : π → Prog π τ α}
    {f : π → α → Prog π τ β} (found : s.pages[id]? = some page) (readable : s.readable id = true)
    (looked : Yields t (s.acquire ⟨t, id, .share, tag⟩) (body page) value)
    (later : Yields t s (f page value) result) :
    Yields t s ((Prog.read tag id).bind fun page => (body page).bind fun value =>
      (Prog.dropRead id).bind fun _ => f page value) result := by
  rw [Yields, returns_bind]
  apply returns_read found readable
  apply returns_then looked
  rintro looked s' ⟨rfl, rfl⟩
  exact returns_dropRead later

/-- A fold whose state is known after every part of the list. -/
theorem yields_foldlM {ι : Type} {f : β → ι → Prog π τ β} (states : List ι → β)
    (items : List ι)
    (steps : ∀ front item back, items = front ++ item :: back →
      Yields t s (f (states front) item) (states (front ++ [item]))) :
    Yields t s (items.foldlM f (states [])) (states items) := by
  suffices general : ∀ front back, items = front ++ back →
      Yields t s (back.foldlM f (states front)) (states items) from general [] items rfl
  intro front back
  induction back generalizing front with
  | nil =>
    intro split
    rw [split, append_nil]
    exact yields_pure _
  | cons item back ih =>
    intro split
    apply (steps front item back split).bind
    apply ih
    rw [split, append_assoc]
    rfl

theorem yields_range {f : β → Nat → Prog π τ β} (states : Nat → β) (count : Nat)
    (steps : ∀ index, index < count →
      Yields t s (f (states index) index) (states (index + 1))) :
    Yields t s ((List.range count).foldlM f (states 0)) (states count) := by
  induction count with
  | zero => exact yields_pure _
  | succ count ih =>
    rw [range_succ, foldlM_append]
    apply (ih fun index inside => steps index (Nat.lt_succ_of_lt inside)).bind
    apply (steps count (Nat.lt_succ_self count)).bind
    exact yields_pure _

/-- A fold that collects values. -/
theorem yields_collect {ι : Type} {f : List β → ι → Prog π τ (List β)} {values : ι → List β}
    {items : List ι} (steps : ∀ collected, ∀ item ∈ items,
      Yields t s (f collected item) (collected ++ values item)) (collected : List β) :
    Yields t s (items.foldlM f collected) (collected ++ items.flatMap values) := by
  have folded := yields_foldlM (t := t) (s := s) (f := f)
    (fun front => collected ++ front.flatMap values) items ?_
  · simpa using folded
  · intro front item back split
    have collects := steps (collected ++ front.flatMap values) item (by simp [split])
    simpa using collects

end Prog

/-! ## Stores that nobody writes to -/

/-- No page is latched exclusively. -/
def Store.Quiet (s : Store π τ) : Prop := ∀ id, s.readable id = true

theorem Store.Quiet.acquire {s : Store π τ} (quiet : s.Quiet) (t id : Nat) (tag : τ) :
    (s.acquire ⟨t, id, .share, tag⟩).Quiet := by
  intro other
  have before := quiet other
  simpa [Store.readable, Store.acquire] using before

end VectorChord.Paged
