import VectorChord.Vchordrq.Pages
import VectorChord.Vchordrq.Search

/-!
# Reading an index that nobody writes to

What the readers of a search deliver on pages that stand still: the tuples of a tape in
order, whether its pages are found by their links or through a directory.
-/

namespace VectorChord.Vchordrq

open Collections Index Paged Rabitq List DirectoryState Blocks
open Prog hiding pure
open Collections.Blocks (Slice blocks unfinished)

variable {kind : VectorKind} {σ : Type} {t : Nat} {s : RStore kind} {ids : List Nat}

/-- Distinct ids of pages are no more than the pages. -/
theorem length_le_of_nodup (nodup : ids.Nodup) {size : Nat} (inside : ∀ id ∈ ids, id < size) :
    ids.length ≤ size := by
  have subset : ids ⊆ range size := fun id member => mem_range.mpr (inside id member)
  simpa using (subperm_of_subset nodup subset).length_le

/-- A tape that can be walked from its first page. -/
structure Walkable (s : RStore kind) (ids : List Nat) (first : Nat) : Prop where
  size : s.pages.length ≤ u32Max
  head : ids.headD u32Max = first
  linked : Linked (nextAt (pageAt s)) u32Max ids
  inside : ∀ id ∈ ids, id < s.pages.length
  nodup : ids.Nodup

namespace Walkable

variable {ids : List Nat} {first : Nat}

theorem length_lt (tape : Walkable s ids first) : ids.length + 2 < iterations := by
  have bound := length_le_of_nodup tape.nodup tape.inside
  have size := tape.size
  simp only [u32Max, invalidPage, iterations] at size ⊢
  omega

theorem ne_u32Max (tape : Walkable s ids first) {id : Nat} (member : id ∈ ids) :
    id ≠ u32Max := by
  have inside := tape.inside id member
  have size := tape.size
  omega

/-- Latches do not matter. -/
theorem acquire (tape : Walkable s ids first) (latch : Latch Tag) :
    Walkable (s.acquire latch) ids first :=
  ⟨tape.size, tape.head, tape.linked, tape.inside, tape.nodup⟩

end Walkable

variable {tag : Tag} {first : Nat} {body : σ → Nat → RPage kind → RProg kind σ}

/-- `by_next` with a body that only computes: `states` is its state behind every part of
the tape. -/
theorem yields_forNext (quiet : s.Quiet) (tape : Walkable s ids first) (states : List Nat → σ)
    (steps : ∀ front id back, ids = front ++ id :: back →
      body (states front) id (pageAt s id) = .pure (states (front ++ [id]))) :
    Prog.Yields t s (forNext tag first (states []) body) (states ids) := by
  suffices general : ∀ back front fuel, ids = front ++ back → back.length < fuel →
      Linked (nextAt (pageAt s)) u32Max back →
      Prog.Yields t s (loop (fun turn =>
        if turn.1 = u32Max then pure (.inr turn.2)
        else do
          let page ← read tag turn.1
          let state ← body turn.2 turn.1 page
          dropRead turn.1
          pure (.inl (page.special.next, state))) fuel (back.headD u32Max, states front))
        (states ids) by
    have enough := tape.length_lt
    have walked := general ids [] iterations rfl (by omega) tape.linked
    rw [tape.head] at walked
    exact walked
  intro back
  induction back with
  | nil =>
    intro front fuel split enough _
    obtain ⟨fuel, rfl⟩ := Nat.exists_eq_succ_of_ne_zero (ne_of_gt enough)
    rw [split, append_nil]
    exact yields_pure _
  | cons id back ih =>
    intro front fuel split enough linked
    obtain ⟨fuel, rfl⟩ := Nat.exists_eq_succ_of_ne_zero (ne_of_gt (Nat.zero_lt_of_lt enough))
    have member : id ∈ ids := by simp [split]
    have rest := ih (front ++ [id]) fuel (by simp [split]) (Nat.lt_of_succ_lt_succ enough)
      linked.2
    rw [loop, headD_cons]
    simp only [if_neg (tape.ne_u32Max member), bind_eq, bind_assoc]
    apply Prog.Yields.latched (getElem?_pages (tape.inside id member)) (quiet id)
    · rw [steps front id back split]
      exact yields_pure _
    · have next : (pageAt s id).special.next = back.headD u32Max := linked.1
      rw [next]
      exact rest

/-- The same for a body that collects. -/
theorem yields_forNext_collect {β : Type} {body : List β → Nat → RPage kind → RProg kind (List β)}
    (quiet : s.Quiet) (tape : Walkable s ids first) (values : RPage kind → List β)
    (steps : ∀ collected, ∀ id ∈ ids,
      body collected id (pageAt s id) = .pure (collected ++ values (pageAt s id)))
    (collected : List β) :
    Prog.Yields t s (forNext tag first collected body)
      (collected ++ ids.flatMap fun id => values (pageAt s id)) := by
  let states (front : List Nat) := collected ++ front.flatMap fun id => values (pageAt s id)
  have walked : Prog.Yields t s (forNext tag first (states []) body) (states ids) := by
    apply yields_forNext quiet tape states
    intro front id back split
    rw [steps _ id (by simp [split])]
    simp [states]
  simpa [states] using walked

/-! ## Blocks -/

section
variable {η β : Type} {as : Tuple kind → Option (Slice η Row)} {dim : Nat}

/-- The slices on a page. -/
def slicesOf (as : Tuple kind → Option (Slice η Row)) (page : RPage kind) :
    List (Slice η Row) :=
  page.tuples.filterMap as

/-- All blocks have the rows of a query. -/
def FullBlocks (dim : Nat) (rows : List Row) (slices : List (Slice η Row)) : Prop :=
  ∀ block ∈ blocks rows slices, block.2.length = (dim + 3) / 4

theorem FullBlocks.append {rows : List Row} {front back : List (Slice η Row)}
    (full : FullBlocks dim rows (front ++ back)) :
    FullBlocks dim rows front ∧ FullBlocks dim (unfinished rows front) back := by
  rw [FullBlocks, blocks_append] at full
  exact ⟨fun block member => full block (mem_append_left _ member),
    fun block member => full block (mem_append_right _ member)⟩

theorem readBlocks_eq {page : RPage kind} (typed : Typed as page) (values : η → List Row → List β)
    (rows : List Row) (results : List β) (full : FullBlocks dim rows (slicesOf as page)) :
    readBlocks as dim values (rows, results) page =
      .pure (unfinished rows (slicesOf as page),
        results ++ (blocks rows (slicesOf as page)).flatMap fun block =>
          values block.1 block.2) := by
  refine (typed.foldlM_slots _ (rows, results)).trans ?_
  rw [slicesOf] at full ⊢
  revert full
  induction page.tuples.filterMap as generalizing rows results with
  | nil => intro; simp [blocks, unfinished]
  | cons slice slices ih =>
    intro full
    obtain ⟨header, elements⟩ := slice
    rw [foldlM_cons]
    cases header with
    | none => exact ih (rows ++ elements) results full
    | some header =>
      have first : (rows ++ elements).length = (dim + 3) / 4 :=
        full (header, rows ++ elements) mem_cons_self
      have later := ih [] (results ++ values header (rows ++ elements))
        fun block member => full block (mem_cons_of_mem _ member)
      simp only [if_pos first, bind_eq, pure_eq, pure_bind]
      refine later.trans ?_
      simp [blocks, unfinished]

/-- The state of a reader of blocks behind some pages of a tape. -/
def blockState (as : Tuple kind → Option (Slice η Row)) (values : η → List Row → List β)
    (results : List β) (page : Nat → RPage kind) (front : List Nat) : List Row × List β :=
  (unfinished [] (front.flatMap fun id => slicesOf as (page id)),
    results ++ (blocks [] (front.flatMap fun id => slicesOf as (page id))).flatMap
      fun block => values block.1 block.2)

/-- Reading one more page. -/
theorem readBlocks_blockState {page : Nat → RPage kind} {ids : List Nat}
    (typed : ∀ id ∈ ids, Typed as (page id))
    (full : FullBlocks dim [] (ids.flatMap fun id => slicesOf as (page id)))
    (values : η → List Row → List β) (results : List β) {front back : List Nat} {id : Nat}
    (split : ids = front ++ id :: back) :
    readBlocks as dim values (blockState as values results page front) (page id) =
      .pure (blockState as values results page (front ++ [id])) := by
  have member : id ∈ ids := by simp [split]
  rw [split, flatMap_append, flatMap_cons] at full
  rw [blockState, readBlocks_eq (typed id member) _ _ _ full.append.2.append.1, blockState]
  simp [blocks_append, unfinished_append]

end

/-! ## Directories -/

namespace DirectoryState

variable {tag : Tag} {post : Unit → RStore kind → Prop} {state : DirectoryState kind}

/-- The ids in some slots of a directory page. -/
def slotIds (slots : List (Option (Tuple kind))) : List Nat :=
  (slots.filterMap fun slot => slot.bind Tuple.asDirectory).flatMap DirectoryTuple.elements

/-- The ids that are left on the page under the latch. -/
def nowIds (state : DirectoryState kind) : List Nat :=
  match state.now with
  | none => []
  | some (_, slots) => slotIds slots

/-- The store with the latch of the reader. -/
def latched (t : Nat) (tag : Tag) (s : RStore kind) (state : DirectoryState kind) :
    RStore kind :=
  match state.now with
  | none => s
  | some (id, _) => s.acquire ⟨t, id, .share, tag⟩

/-- The reader still has to deliver `pending`; it has not been to the pages `back`. -/
structure Delivers (s : RStore kind) (state : DirectoryState kind) (back pending : List Nat) :
    Prop where
  tape : Walkable s back state.current
  pages : ∀ id ∈ back, Typed Tuple.asDirectory (pageAt s id)
  idle : state.now = none → back = [] ∧ state.slice = []
  busy : ∀ id slots, state.now = some (id, slots) →
    id ∉ back ∧ ∀ slot ∈ slots, (slot.bind Tuple.asDirectory).isSome
  pending : pending =
    state.slice ++ (state.nowIds ++ back.flatMap fun id => pageIds (pageAt s id))

theorem quiet_latched (quiet : s.Quiet) (state : DirectoryState kind) :
    (latched t tag s state).Quiet := by
  rw [latched]
  split
  · exact quiet
  · exact quiet.acquire _ _ _

@[simp] theorem pages_latched (state : DirectoryState kind) :
    (latched t tag s state).pages = s.pages := by
  rw [latched]
  split <;> rfl

/-- On a page without freed slots, the ids of all slots are those of the page. -/
theorem slotIds_slots {page : RPage kind} (typed : Typed Tuple.asDirectory page) :
    slotIds page.slots = pageIds page := by
  rw [slotIds, pageIds, directories, typed.dense, filterMap_map]
  rfl

theorem returns_close (state : DirectoryState kind) (verified : post () s) :
    state.close.returns t 0 post (latched t tag s state) := by
  cases now : state.now with
  | none =>
    simp only [close, latched, now]
    exact verified
  | some page =>
    simp only [close, latched, now]
    exact returns_dropRead verified

/-- Releasing the page before after the next one has been latched. -/
theorem returns_close_below {latch : Latch Tag}
    (apart : ∀ id slots, state.now = some (id, slots) → latch.page ≠ id)
    (verified : post () (s.acquire latch)) :
    state.close.returns t 0 post ((latched t tag s state).acquire latch) := by
  cases now : state.now with
  | none =>
    simp only [close, latched, now]
    exact verified
  | some page =>
    simp only [close, latched, now]
    exact returns_dropRead_below (apart page.1 page.2 now) verified

/-- The next directory page, or the end of the directory. -/
theorem returns_advance (quiet : s.Quiet) {back : List Nat} (tape : Walkable s back state.current)
    (pages : ∀ id ∈ back, Typed Tuple.asDirectory (pageAt s id))
    (apart : ∀ id slots, state.now = some (id, slots) → id ∉ back) (done : state.slice = []) :
    (advance tag state).returns t 0 (fun state' s' => s' = latched t tag s state' ∧
      Delivers s state' back.tail (back.flatMap fun id => pageIds (pageAt s id)) ∧
      (back = [] → state'.now = none)) (latched t tag s state) := by
  rw [advance]
  cases back with
  | nil =>
    have last : state.current = u32Max := tape.head.symm
    simp only [last, if_true, bind_eq, pure_eq, pure_bind, returns_bind]
    apply returns_close
    refine ⟨rfl, ?_, fun _ => rfl⟩
    rw [last] at tape
    exact {
      tape := tape
      pages := pages
      idle := fun _ => ⟨rfl, done⟩
      busy := fun id slots now => by cases now
      pending := by simp [nowIds, done] }
  | cons id back =>
    have inside := tape.inside id mem_cons_self
    have current : state.current = id := tape.head.symm
    have distinct := nodup_cons.mp tape.nodup
    rw [current, if_neg (tape.ne_u32Max mem_cons_self)]
    have found : (latched t tag s state).pages[id]? = some (pageAt s id) := by
      rw [pages_latched, getElem?_pages inside]
    simp only [bind_eq, pure_eq, returns_bind]
    apply returns_read found
    · exact quiet_latched quiet state id
    · rw [pure_bind, returns_bind]
      apply returns_close_below
      · intro old slots now same
        exact apart old slots now (same ▸ mem_cons_self)
      · refine ⟨rfl, ?_, fun empty => by cases empty⟩
        have typed := pages id mem_cons_self
        exact {
          tape := ⟨tape.size, tape.linked.1.symm, tape.linked.2,
            fun other member => tape.inside other (mem_cons_of_mem id member), distinct.2⟩
          pages := fun other member => pages other (mem_cons_of_mem id member)
          idle := fun now => by cases now
          busy := by
            intro other slots now
            cases now
            refine ⟨distinct.1, fun slot member => ?_⟩
            rw [typed.dense] at member
            obtain ⟨tuple, listed, rfl⟩ := mem_map.mp member
            exact typed.typed tuple listed
          pending := by simp [nowIds, done, slotIds_slots typed] }

/-- Looking for the next tuple with ids. -/
theorem scanSlots_eq {slots : List (Option (Tuple kind))}
    (typed : ∀ slot ∈ slots, (slot.bind Tuple.asDirectory).isSome) :
    (scanSlots slots = .pure none ∧ slotIds slots = []) ∨
      ∃ slice rest, scanSlots slots = .pure (some (slice, rest)) ∧ slice ≠ [] ∧
        slotIds slots = slice ++ slotIds rest ∧ rest ⊆ slots := by
  induction slots with
  | nil => exact .inl ⟨rfl, rfl⟩
  | cons slot slots ih =>
    obtain ⟨tuple, found⟩ := Option.isSome_iff_exists.mp (typed slot mem_cons_self)
    have later := ih fun other member => typed other (mem_cons_of_mem slot member)
    have ids : slotIds (slot :: slots) = tuple.elements ++ slotIds slots := by
      simp [slotIds, found]
    rw [scanSlots, found, ids]
    simp only [expect, bind_eq, pure_bind]
    cases elements : tuple.elements with
    | nil =>
      cases later with
      | inl none => exact .inl none
      | inr some =>
        obtain ⟨slice, rest, scanned, nonempty, same, subset⟩ := some
        exact .inr ⟨slice, rest, scanned, nonempty, same,
          fun other member => mem_cons_of_mem slot (subset member)⟩
    | cons id more =>
      exact .inr ⟨id :: more, slots, rfl, cons_ne_nil id more, rfl,
        fun other member => mem_cons_of_mem slot member⟩

section
variable {state : DirectoryState kind} {back pending : List Nat}

/-- The first id at hand is handed out. -/
theorem Delivers.tail (delivers : Delivers s state back pending) {first : Nat} {more : List Nat}
    (slice : state.slice = first :: more) :
    Delivers s { state with slice := more } back pending.tail where
  tape := delivers.tape
  pages := delivers.pages
  idle := by
    intro now
    have empty := (delivers.idle now).2
    rw [slice] at empty
    cases empty
  busy := delivers.busy
  pending := by
    rw [delivers.pending, slice]
    rfl

/-- The ids of the next tuple are at hand. -/
theorem Delivers.scan (delivers : Delivers s state back pending) (slice : state.slice = [])
    {id : Nat} {slots rest : List (Option (Tuple kind))} (now : state.now = some (id, slots))
    {found : List Nat} (same : slotIds slots = found ++ slotIds rest) (subset : rest ⊆ slots) :
    Delivers s { state with slice := found, now := some (id, rest) } back pending where
  tape := delivers.tape
  pages := delivers.pages
  idle := fun none => nomatch none
  busy := by
    intro other slots' now'
    have busy := delivers.busy id slots now
    cases now'
    exact ⟨busy.1, fun slot member => busy.2 slot (subset member)⟩
  pending := by
    rw [delivers.pending, slice]
    simp [nowIds, now, same]

end

/-- What the reader guarantees after it was asked for an id. -/
def Asked (t : Nat) (tag : Tag) (s : RStore kind) (pending : List Nat)
    (result : Option Nat × DirectoryState kind) (s' : RStore kind) : Prop :=
  s' = latched t tag s result.2 ∧ result.1 = pending.head? ∧
    (∃ back, Delivers s result.2 back pending.tail) ∧
    (result.1 = none → result.2.now = none)

theorem returns_next (quiet : s.Quiet) {back pending : List Nat}
    (delivers : Delivers s state back pending) :
    (next tag state).returns t 0 (Asked t tag s pending) (latched t tag s state) := by
  have enough : back.length + 2 ≤ iterations := le_of_lt delivers.tape.length_lt
  rw [next]
  -- A page is turned at most once for every page that is left; then there are ids at hand
  -- or the reader is at its end.
  replace enough : back.length + 2 ≤ iterations ∨
    0 < iterations ∧ (state.slice ≠ [] ∨ state.now = none) := .inl enough
  revert enough
  generalize iterations = fuel
  induction fuel generalizing state back with
  | zero =>
    intro enough
    rcases enough with enough | enough <;> omega
  | succ fuel ih =>
    intro enough
    have remaining := delivers.pending
    rw [loop, returns_bind]
    cases slice : state.slice with
    | cons first more =>
      have head : pending.head? = some first := by
        rw [remaining, slice]
        rfl
      exact ⟨rfl, head.symm, ⟨back, delivers.tail slice⟩, fun none => by cases none⟩
    | nil =>
      cases now : state.now with
      | none =>
        have idle := delivers.idle now
        have empty : pending = [] := by
          rw [remaining, idle.1, slice, nowIds, now]
          rfl
        rw [empty]
        refine ⟨rfl, rfl, ⟨back, ?_⟩, fun _ => now⟩
        rw [empty] at delivers
        exact delivers
      | some page =>
        obtain ⟨id, slots⟩ := page
        have busy := delivers.busy id slots now
        have room : back.length + 1 ≤ fuel := by
          rcases enough with enough | enough
          · omega
          · simp [slice, now] at enough
        dsimp only
        cases scanSlots_eq busy.2 with
        | inl scanned =>
          rw [scanned.1]
          simp only [bind_eq, pure_eq, pure_bind, returns_bind]
          have ids : pending = back.flatMap fun id => pageIds (pageAt s id) := by
            rw [remaining, slice, nowIds, now]
            simp [scanned.2]
          apply returns_mono (returns_advance quiet delivers.tape delivers.pages
            (fun id slots now => (delivers.busy id slots now).1) slice)
          rintro state' s' ⟨rfl, delivers', ended⟩
          rw [← ids] at delivers'
          apply ih delivers'
          cases back with
          | nil => exact .inr ⟨by omega, .inr (ended rfl)⟩
          | cons other back => exact .inl room
        | inr scanned =>
          obtain ⟨slice', rest, scanned, nonempty, same, subset⟩ := scanned
          rw [scanned]
          simp only [bind_eq, pure_eq, pure_bind]
          have kept : latched t tag s state = latched t tag s
              { state with slice := slice', now := some (id, rest) } := by
            simp only [latched, now]
          rw [returns_pure, kept]
          exact ih (delivers.scan slice now same subset) (.inr ⟨by omega, .inl nonempty⟩)

/-- What the reader guarantees after a window was filled. -/
def Filled (t : Nat) (tag : Tag) (s : RStore kind) (pending : List Nat) (n : Nat)
    (window : List Nat) (result : DirectoryState kind × List Nat) (s' : RStore kind) : Prop :=
  s' = latched t tag s result.1 ∧ result.2 = window ++ pending.take n ∧
    (∃ back, Delivers s result.1 back (pending.drop n)) ∧
    (pending.length < n → result.1.now = none)

theorem returns_fill (quiet : s.Quiet) (n : Nat) {back pending : List Nat}
    (delivers : Delivers s state back pending) (window : List Nat) :
    (fill tag n state window).returns t 0 (Filled t tag s pending n window)
      (latched t tag s state) := by
  induction n generalizing state back pending window with
  | zero =>
    refine ⟨rfl, by simp, ⟨back, ?_⟩, fun less => absurd less (Nat.not_lt_zero _)⟩
    simpa using delivers
  | succ n ih =>
    rw [fill, bind_eq, returns_bind]
    apply returns_mono (returns_next quiet delivers)
    rintro ⟨item, state'⟩ s' ⟨rfl, head, ⟨back', delivers'⟩, ended⟩
    cases item with
    | none =>
      have empty : pending = [] := head?_eq_none_iff.mp head.symm
      subst empty
      exact ⟨rfl, by simp, ⟨back', delivers'⟩, fun _ => ended rfl⟩
    | some id =>
      obtain ⟨rest, rfl⟩ := head?_eq_some_iff.mp head.symm
      apply returns_mono (ih delivers' (window ++ [id]))
      rintro result s' ⟨rfl, filled, ⟨back'', delivers''⟩, ended⟩
      refine ⟨rfl, ?_, ⟨back'', delivers''⟩, ?_⟩
      · rw [filled]
        simp
      · intro less
        exact ended (by simpa using less)

end DirectoryState

/-- `by_directory` with a body that only computes: it goes over the ids of the directory,
however far the prefetcher looks ahead. -/
theorem returns_forDirectory {ahead : Nat → Nat} {directoryTag : Tag} {directory : List Nat}
    (quiet : s.Quiet) (tape : Walkable s directory first)
    (typed : ∀ id ∈ directory, Typed Tuple.asDirectory (pageAt s id))
    (listed : directory.flatMap (fun id => pageIds (pageAt s id)) = ids)
    (inside : ∀ id ∈ ids, id < s.pages.length) (nodup : ids.Nodup) (states : List Nat → σ)
    (steps : ∀ front id back, ids = front ++ id :: back →
      body (states front) id (pageAt s id) = .pure (states (front ++ [id]))) :
    (forDirectory ahead directoryTag tag first (states []) body).returns t 0
      (fun result s' => result.1 = states ids ∧ s' = s) s := by
  have bound : ids.length < iterations := by
    have length := length_le_of_nodup nodup inside
    have size := tape.size
    simp only [u32Max, invalidPage, iterations] at size ⊢
    omega
  rw [forDirectory, bind_eq, returns_bind]
  let opened : DirectoryState kind := ⟨[], none, first, []⟩
  have start : Walkable s directory opened.current := tape
  apply returns_mono (returns_advance quiet start typed
    (fun _ _ now => by cases now) rfl)
  rintro reader s' ⟨rfl, delivers, _⟩
  rw [listed] at delivers
  -- The window and what the directory still has to deliver are the ids to come.
  apply returns_loop (fun turn s' => s' = latched t directoryTag s turn.2.1 ∧
      ∃ front back pending, DirectoryState.Delivers s turn.2.1 back pending ∧
        ids = front ++ (turn.2.2.1 ++ pending) ∧ front.length = turn.1 ∧ states front = turn.2.2.2)
    (fun turn _ => ids.length - turn.1) _ ⟨rfl, [], _, ids, delivers, rfl, rfl, rfl⟩
    ((Nat.sub_le _ _).trans_lt bound)
  rintro ⟨k, reader, window, state⟩ s' ⟨rfl, front, back, pending, delivers, split, length, rfl⟩
  dsimp only at delivers split length ⊢
  apply returns_then (returns_fill quiet _ delivers window)
  rintro ⟨reader', window'⟩ s' ⟨rfl, filled, ⟨back', delivers'⟩, ended⟩
  dsimp only at filled delivers' ended ⊢
  have parts : window ++ pending =
      window' ++ pending.drop (max 1 (ahead k) - window.length) := by
    rw [filled, append_assoc, take_append_drop]
  cases window' with
  | nil =>
    obtain ⟨rfl, nothing⟩ := append_eq_nil_iff.mp filled.symm
    have empty : pending = [] := by
      cases take_eq_nil_iff.mp nothing with
      | inl zero => simp at zero
      | inr empty => exact empty
    subst empty
    have now : reader'.now = none := ended (by simp)
    have front' : ids = front := by simpa using split
    refine ⟨by rw [front'], ?_⟩
    rw [latched, now]
  | cons id window' =>
    rw [parts] at split
    have member : id ∈ ids := by simp [split]
    have found : (latched t directoryTag s reader').pages[id]? = some (pageAt s id) := by
      rw [pages_latched, getElem?_pages (inside id member)]
    have whole := congrArg List.length split
    simp only [length_append, length_cons] at whole
    dsimp only
    rw [bind_eq, returns_bind]
    apply returns_read found
    · exact quiet_latched quiet reader' id
    · rw [steps front id _ split, bind_eq, pure_bind, bind_eq, returns_bind]
      apply returns_dropRead
      refine ⟨⟨rfl, front ++ [id], back', _, delivers', ?_, ?_, rfl⟩, ?_⟩
      · rw [split]
        simp
      · simp [length]
      · dsimp only
        omega

end VectorChord.Vchordrq
