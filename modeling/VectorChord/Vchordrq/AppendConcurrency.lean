import VectorChord.Vchordrq.Append

/-!
# Concurrent appends to one tape

Any number of threads append to one tape while the rest of the relation stands still.
In every state that they reach the tape is a chain without cycles, and every tuple of a
call that has returned is where the call says it is.
-/

namespace VectorChord.Vchordrq

open Index Paged Rabitq List

variable {kind : VectorKind}

/-- A tape in a store without latches, with or without a free list to take pages from. -/
structure TapeStart (s : RStore kind) (first : Nat) (ids : List Nat) (freeHead : Option Nat)
    (free : List Nat) : Prop where
  size : s.pages.length ≤ u32Max
  latches : s.latches = []
  tape : TapeOk (pageAt s) ids first
  freeLinked : Linked (nextAt (pageAt s)) u32Max free
  freeFirst : ∀ h, freeHead = some h →
    (pageAt s h).get 1 = some (.freepages (free.headD u32Max))
  inside : ∀ id ∈ ids ++ freeHead.toList ++ free, id < s.pages.length
  nodup : (ids ++ freeHead.toList ++ free).Nodup

/-- A call of `append`. -/
structure AppendCall (kind : VectorKind) where
  tuple : Tuple kind
  tracking : Bool
  freepages : Option Nat

namespace AppendCall

variable [PageSpace (Tuple kind)]

/-- What `append` asserts: pages are tracked or come from the free list, not both, and a
clear page has room for the tuple. -/
structure Valid (freeHead : Option Nat) (call : AppendCall kind) : Prop where
  pool : ∀ h, call.freepages = some h → freeHead = some h ∧ call.tracking = false
  fits : ∃ filled i, (Page.clear .last : RPage kind).alloc call.tuple = some (filled, i)

def program (first : Nat) (call : AppendCall kind) : RProg kind (Nat × Nat) :=
  append .plain first call.tuple call.tracking call.freepages

end AppendCall

namespace TapeStart

variable {s : RStore kind} {first : Nat} {ids : List Nat} {freeHead : Option Nat}
  {free : List Nat}

/-- At the start nobody holds a page and nothing has been placed. -/
def ghost (ids free : List Nat) : TapeGhost := ⟨ids, free, fun _ => none, fun _ => none⟩

theorem kept (start : TapeStart s first ids freeHead free) :
    (tapeAgreement kind first freeHead).Kept (s, ghost ids free) where
  compatible := by simp [start.latches]
  inside := by simp [start.latches]
  inv :=
    { size := start.size
      tape := start.tape
      free := start.freeLinked
      freeFirst := start.freeFirst
      inside := start.inside
      nodup := start.nodup
      held := fun _ _ held => nomatch held
      placed := fun _ _ placed => nomatch placed }

theorem knows (start : TapeStart s first ids freeHead free) (t : Nat) :
    (tapeAgreement kind first freeHead).Knows t (0, ⟨[first], none, []⟩)
      (s, ghost ids free) where
  latches := by simp [Store.mine, start.latches]
  content := by simp
  fact :=
    { known := by
        have head := start.tape.head
        cases ids with
        | nil => cases head
        | cons id rest =>
          cases head
          exact ⟨rest, rfl⟩
      own := fun _ own => nomatch own
      placed := by simp }

variable [PageSpace (Tuple kind)]

/-- A call of `append` does what it should while other threads append. -/
theorem safe (start : TapeStart s first ids freeHead free) (t : Nat) {call : AppendCall kind}
    (valid : call.Valid freeHead) :
    (tapeAgreement kind first freeHead).protocol.Safe t (call.program first)
      (Appended first freeHead t ⟨[first], none, []⟩ call.tuple) (s, ghost ids free) := by
  intro w relied kept
  exact wp_append ⟨kept, relied _ (start.knows t)⟩ rfl (mem_singleton.mpr rfl) valid.pool
    valid.fits

end TapeStart

/-! ## The way to the last page -/

/-- Where `append` goes from page `id`; it stays on the last page. -/
def advance (page : Nat → RPage kind) (first id : Nat) : Nat :=
  if (page id).special.next = u32Max then id else follow first id (page id).special

/-- From any page of a tape `append` gets to the last page. -/
theorem TapeOk.advance_last {page : Nat → RPage kind} {ids : List Nat} {first : Nat}
    (tape : TapeOk page ids first) (nodup : ids.Nodup) {id : Nat} (member : id ∈ ids) :
    ∃ n, (advance page first)^[n] id ∈ ids ∧
      nextAt page ((advance page first)^[n] id) = u32Max := by
  -- the position in the tape grows with every page
  induction distance : ids.length - ids.idxOf id using Nat.strong_induction_on generalizing id with
  | _ distance ih =>
    by_cases last : (page id).special.next = u32Max
    · exact ⟨0, member, last⟩
    · have later := tape.follow_mem nodup member last
      have inside := idxOf_lt_length_of_mem later.1
      rcases ih _ (by omega) later.1 rfl with ⟨n, reached⟩
      refine ⟨n + 1, ?_⟩
      rw [Function.iterate_succ_apply, advance, if_neg last]
      exact reached

/-- Concurrent appends lose nothing: whatever the interleaving, the tape is a chain without
cycles that starts at `first` and whose only page without successor is reached by every
later append, `skip` names one of its pages, and the calls that have returned have their
tuples in different slots of it. -/
theorem append_concurrent [PageSpace (Tuple kind)] {s : RStore kind} {first : Nat}
    {ids : List Nat} {freeHead : Option Nat} {free : List Nat}
    (start : TapeStart s first ids freeHead free) {calls : List (AppendCall kind)}
    (valid : ∀ call ∈ calls, call.Valid freeHead) {c : Config (RPage kind) Tag (Nat × Nat)}
    (reached : (Config.mk s (calls.map (AppendCall.program first))).Reaches c) :
    ∃ ids', TapeOk (pageAt c.store) ids' first ∧ ids'.Nodup ∧
      (∀ id ∈ ids', id < c.store.pages.length ∧ id ≠ u32Max) ∧
      (∃ tail ∈ ids', (∀ id ∈ ids', nextAt (pageAt c.store) id = u32Max ↔ id = tail) ∧
        ∀ id ∈ ids', ∃ n, (advance (pageAt c.store) first)^[n] id = tail) ∧
      (∀ t call placed, calls[t]? = some call → c.Returned t placed →
        placed.1 ∈ ids' ∧ (pageAt c.store placed.1).get placed.2 = some call.tuple) ∧
      ∀ t u placed, c.Returned t placed → c.Returned u placed → t = u := by
  have initially : (tapeAgreement kind first freeHead).protocol.Sound
      (fun t placed w => ∀ call, calls[t]? = some call →
        Appended first freeHead t ⟨[first], none, []⟩ call.tuple placed w)
      ⟨s, calls.map (AppendCall.program first)⟩ := by
    refine ⟨TapeStart.ghost ids free, start.kept, ?_⟩
    intro t program found
    rw [getElem?_map, Option.map_eq_some_iff] at found
    rcases found with ⟨call, isCall, rfl⟩
    intro w relied kept
    apply Protocol.wp_mono ?_
      (start.safe t (valid call (mem_of_getElem? isCall)) w relied kept)
    intro placed w' inPlace other isOther
    rw [isCall] at isOther
    cases isOther
    exact inPlace
  rcases Protocol.adequacy initially reached with ⟨ghost, kept, threads⟩
  have inv : TapeInv first freeHead c.store.pages ghost := kept.inv
  have tape : TapeOk (pageAt c.store) ghost.ids first := inv.tape
  have nodup : ghost.ids.Nodup := by
    have nodup := inv.nodup
    rw [TapeGhost.used, append_assoc] at nodup
    exact (nodup_append.mp nodup).1
  have inside : ∀ id ∈ ghost.ids, id < c.store.pages.length ∧ id ≠ u32Max := by
    intro id member
    have located := (inv.mem_used member).1
    exact ⟨located, Nat.ne_of_lt (located.trans_le inv.size)⟩
  have unique : ∀ {id id'}, id ∈ ghost.ids → id' ∈ ghost.ids →
      nextAt (pageAt c.store) id = u32Max → nextAt (pageAt c.store) id' = u32Max → id = id' := by
    intro id id' member member' last last'
    have proper : u32Max ∉ ghost.ids := fun isIn => (inside _ isIn).2 rfl
    rcases tape.linked.eq_concat member last proper with ⟨front, split⟩
    rcases tape.linked.eq_concat member' last' proper with ⟨front', split'⟩
    rw [split] at split'
    exact (append_inj_right' split' rfl |> singleton_inj.mp)
  have completed : ∀ t call placed, calls[t]? = some call → c.Returned t placed →
      placed.1 ∈ ghost.ids ∧ (pageAt c.store placed.1).get placed.2 = some call.tuple ∧
        ghost.placer placed = some t := by
    intro t call placed isCall returned
    rcases (threads t _ returned).now kept call isCall with ⟨known, here⟩
    have hold : TapeFacts.Hold t ⟨known, none, [(placed.1, placed.2, call.tuple)]⟩ c.store.pages
      ghost := here.relied
    exact hold.placed _ (mem_singleton.mpr rfl)
  rcases tape.advance_last nodup tape.first_mem with ⟨n, tailIn, last⟩
  refine ⟨ghost.ids, tape, nodup, inside,
    ⟨(advance (pageAt c.store) first)^[n] first, tailIn, ?_, ?_⟩, ?_, ?_⟩
  · intro id member
    constructor
    · intro ends
      exact unique member tailIn ends last
    · rintro rfl
      exact last
  · intro id member
    rcases tape.advance_last nodup member with ⟨m, reachedIn, ends⟩
    exact ⟨m, unique reachedIn tailIn ends last⟩
  · intro t call placed isCall returned
    have found := completed t call placed isCall returned
    exact ⟨found.1, found.2.1⟩
  · have placer : ∀ t placed, c.Returned t placed → ghost.placer placed = some t := by
      intro t placed returned
      have running : t < calls.length := by
        have inRange := (List.getElem?_eq_some_iff.mp returned).1
        rwa [Config.length_of_reaches reached, length_map] at inRange
      exact (completed t _ placed (getElem?_eq_getElem running) returned).2.2
    intro t u placed returnedT returnedU
    have same := placer t placed returnedT
    rw [placer u placed returnedU] at same
    exact (Option.some.inj same).symm

/-! Two calls that take turns on a tape of one page: the second one sees room on it, but the
first one, which does not, links a new page before the second one latches the page again. -/

section
local instance : PageSpace (Tuple .vecf32) := Slotted.firstFree

/-- Half a page of ids. -/
def halfPage : Tuple .vecf32 := .directory (.v1 (List.replicate 1020 0))

def onePage : RStore .vecf32 := ⟨[⟨⟨u32Max, 0⟩, [some halfPage]⟩], [], []⟩

def twoCalls : List (AppendCall .vecf32) :=
  [⟨halfPage, false, none⟩, ⟨.freepages 8, true, none⟩]

set_option maxRecDepth 10000 in
theorem append_concurrent_two :
    ∃ (c : Config (RPage .vecf32) Tag (Nat × Nat)) (ids : List Nat),
      (Config.mk onePage (twoCalls.map (AppendCall.program 0))).Reaches c ∧
      c.Returned 0 (1, 1) ∧ c.Returned 1 (1, 2) ∧ TapeOk (pageAt c.store) ids 0 ∧ 1 ∈ ids ∧
      (pageAt c.store 1).get 2 = some (.freepages 8) := by
  have start : TapeStart onePage 0 [0] none [] :=
    { size := by decide
      latches := rfl
      tape := ⟨rfl, ⟨rfl, trivial⟩, mem_singleton.mpr rfl⟩
      freeLinked := trivial
      freeFirst := by simp
      inside := by decide
      nodup := by decide }
  have valid : ∀ call ∈ twoCalls, call.Valid none := by
    intro call member
    refine ⟨?_, ?_⟩ <;> rcases mem_cons.mp member with rfl | member
    · simp
    · simp [mem_singleton.mp member]
    · exact ⟨_, _, rfl⟩
    · rw [mem_singleton.mp member]
      exact ⟨_, _, rfl⟩
  have reached : (Config.mk onePage (twoCalls.map (AppendCall.program 0))).Reaches
      ⟨⟨[⟨⟨1, 1⟩, [some halfPage]⟩, ⟨⟨u32Max, u32Max⟩, [some halfPage, some (.freepages 8)]⟩], [],
        [1, 0]⟩, [.pure (1, 1), .pure (1, 2)]⟩ :=
    Config.reaches_of_follow ([(1, 0), (1, 0)] ++ List.replicate 11 (0, 0) ++
      List.replicate 7 (1, 0)) rfl
  obtain ⟨ids, tape, _, _, _, placed, _⟩ := append_concurrent start valid reached
  exact ⟨_, ids, reached, rfl, rfl, tape, placed 1 _ (1, 2) rfl rfl⟩

end

end VectorChord.Vchordrq
