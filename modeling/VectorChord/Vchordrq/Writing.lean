import VectorChord.Paged.Sequential
import VectorChord.Vchordrq.Build
import VectorChord.Vchordrq.Pages

/-!
# Writing tapes alone

What a tape writer does to the pages if it has the relation for itself: the tape grows at
its end by the pages that are added, the tuples of the tape by those that are put, and no
other page changes.
-/

namespace VectorChord.Vchordrq

open Index Paged Rabitq List
open Prog hiding pure

variable {kind : VectorKind} {c c' c'' : Content (RPage kind)} {id : Nat} {ids : List Nat}
  {tape : TapeWriter kind}

/-- The page with the given id. -/
def pageIn (c : Content (RPage kind)) (id : Nat) : RPage kind :=
  c.pages.getD id (Page.clear .last)

theorem pageIn_put_self (inside : id < c.pages.length) (page : RPage kind) :
    pageIn (c.put id page) id = page := by
  simp [pageIn, Content.put, inside]

theorem pageIn_put_ne {other : Nat} (different : other ≠ id) (page : RPage kind) :
    pageIn (c.put id page) other = pageIn c other := by
  simp [pageIn, Content.put, getElem?_set_ne (Ne.symm different)]

@[simp] theorem length_put (id : Nat) (page : RPage kind) :
    (c.put id page).pages.length = c.pages.length := by
  simp [Content.put]

@[simp] theorem pages_extend (page : RPage kind) (tracking : Bool) :
    (c.extend page tracking).pages = c.pages ++ [page] := rfl

/-- Pages that are there stay as they are. -/
theorem pageIn_of_grown (grown : c.pages <+: c'.pages) (inside : id < c.pages.length) :
    pageIn c' id = pageIn c id := by
  obtain ⟨more, pages⟩ := grown
  simp [pageIn, ← pages, getElem?_append_left inside]

/-- The tuples of some pages. -/
def tuplesOn (page : Nat → RPage kind) (ids : List Nat) : List (Tuple kind) :=
  ids.flatMap fun id => (page id).tuples

theorem tuplesOn_append (page : Nat → RPage kind) (front back : List Nat) :
    tuplesOn page (front ++ back) = tuplesOn page front ++ tuplesOn page back := by
  simp [tuplesOn]

theorem tuplesOn_congr {page page' : Nat → RPage kind} (same : ∀ id ∈ ids, page' id = page id) :
    tuplesOn page' ids = tuplesOn page ids := by
  apply flatMap_congr
  intro id member
  rw [same id member]

/-- A writer at the end of the tape with the given pages. -/
structure Writes (c : Content (RPage kind)) (tape : TapeWriter kind) (ids : List Nat) :
    Prop where
  size : c.pages.length ≤ u32Max
  head : ids.head? = some tape.first
  last : ∃ front, ids = front ++ [tape.head]
  inside : ∀ id ∈ ids, id < c.pages.length
  nodup : ids.Nodup
  linked : Linked (nextAt (pageIn c)) u32Max ids
  page : pageIn c tape.head = tape.page
  dense : ∀ id ∈ ids, (pageIn c id).Dense

theorem Writes.head_mem (writes : Writes c tape ids) : tape.head ∈ ids := by
  obtain ⟨front, rfl⟩ := writes.last
  simp

theorem Writes.apart {front : List Nat} (writes : Writes c tape ids)
    (split : ids = front ++ [tape.head]) : ∀ id ∈ front, id ≠ tape.head := by
  intro id member equal
  have nodup := writes.nodup
  rw [split, nodup_append] at nodup
  exact nodup.2.2 id member tape.head (by simp) equal

/-- The tape `ids` has grown to `ids'` and has got the tuples `added`; everything else is as
before. -/
structure Grows (c c' : Content (RPage kind)) (ids ids' : List Nat)
    (added : List (Tuple kind)) : Prop where
  size : c.pages.length ≤ c'.pages.length
  pages : ids' = ids ++ List.range' c.pages.length (c'.pages.length - c.pages.length)
  frame : ∀ id, id < c.pages.length → id ∉ ids → pageIn c' id = pageIn c id
  kept : ∀ id ∈ ids, (pageIn c id).tuples <+: (pageIn c' id).tuples
  tuples : tuplesOn (pageIn c') ids' = tuplesOn (pageIn c) ids ++ added

namespace Grows

variable {ids ids' ids'' : List Nat} {added added' : List (Tuple kind)}

theorem refl (c : Content (RPage kind)) (ids : List Nat) : Grows c c ids ids [] where
  size := le_refl _
  pages := by simp
  frame := fun _ _ _ => rfl
  kept := fun _ _ => prefix_rfl
  tuples := by simp

theorem mem_of_mem (grows : Grows c c' ids ids' added) {id : Nat} (member : id ∈ ids) :
    id ∈ ids' := by
  rw [grows.pages]
  exact mem_append_left _ member

theorem trans (first : Grows c c' ids ids' added) (second : Grows c' c'' ids' ids'' added') :
    Grows c c'' ids ids'' (added ++ added') where
  size := first.size.trans second.size
  pages := by
    obtain ⟨m, sizes⟩ := Nat.exists_eq_add_of_le first.size
    obtain ⟨n, sizes'⟩ := Nat.exists_eq_add_of_le second.size
    have total : c''.pages.length - c.pages.length = m + n := by omega
    rw [second.pages, first.pages, append_assoc, total, ← range'_append_1, ← sizes,
      sizes', sizes, Nat.add_sub_cancel_left, Nat.add_sub_cancel_left]
  frame := by
    intro id inside outside
    have sizes := first.size
    rw [second.frame id (by omega), first.frame id inside outside]
    rw [first.pages, mem_append, mem_range'_1]
    rintro (member | range)
    · exact outside member
    · omega
  kept := fun id member =>
    (first.kept id member).trans (second.kept id (first.mem_of_mem member))
  tuples := by rw [second.tuples, first.tuples, append_assoc]

/-- A tape that began behind all pages leaves them all and stays behind them. -/
theorem behind {pages : List (RPage kind)} {page : RPage kind} (new : c.pages = pages ++ [page])
    (grows : Grows c c' [pages.length] ids' added) :
    pages <+: c'.pages ∧ ∀ id ∈ ids', pages.length ≤ id := by
  have size : c.pages.length = pages.length + 1 := by simp [new]
  have sizes := grows.size
  constructor
  · rw [prefix_iff_eq_take]
    apply ext_getElem?
    intro id
    by_cases below : id < pages.length
    · have same := grows.frame id (by omega) (by simp; omega)
      have here : id < c.pages.length := by omega
      have there : id < c'.pages.length := by omega
      simp only [pageIn, getD_eq_getElem?_getD, getElem?_eq_getElem here,
        getElem?_eq_getElem there, Option.getD_some] at same
      simp [below, getElem?_eq_getElem there, same, new]
    · simp [below]
  · intro id member
    rw [grows.pages, mem_append, mem_range'_1, mem_singleton] at member
    omega

end Grows

/-- A tape keeps its first page. -/
theorem Grows.first_eq {tape' : TapeWriter kind} {ids' : List Nat} {added : List (Tuple kind)}
    (grows : Grows c c' ids ids' added) (writes : Writes c tape ids)
    (writes' : Writes c' tape' ids') : tape'.first = tape.first := by
  have head := writes'.head
  rw [grows.pages, head?_append, writes.head] at head
  exact (Option.some.inj head).symm

namespace TapeWriter

variable {tape : TapeWriter kind} {ids : List Nat}

/-- A new tape: one page, behind all others. -/
theorem wlp_create (tracking : Bool) :
    (create extendIndex tracking () : RProg kind _).wlp (fun result c' =>
      result.1 = ⟨c.pages.length, setSkip (Page.clear .last) c.pages.length, c.pages.length,
        tracking⟩ ∧
      c'.pages = c.pages ++ [setSkip (Page.clear .last) c.pages.length] ∧
      Writes c' result.1 [c.pages.length]) c := by
  rw [create, extendIndex]
  simp only [bind_eq, pure_eq, wlp_bind, wlp_extend, wlp_pure,
    wlp_put]
  intro room
  have added : ((c.extend (Page.clear .last) tracking).put c.pages.length
      (setSkip (Page.clear .last) c.pages.length)).pages =
        c.pages ++ [setSkip (Page.clear .last) c.pages.length] := by
    simp [Content.put]
  have page : pageIn ((c.extend (Page.clear .last) tracking).put c.pages.length
      (setSkip (Page.clear .last) c.pages.length)) c.pages.length =
        setSkip (Page.clear .last) c.pages.length := by
    apply pageIn_put_self
    simp
  refine ⟨trivial, added, ?_⟩
  exact {
    size := by
      rw [added, length_append]
      exact room
    head := rfl
    last := ⟨[], rfl⟩
    inside := by simp
    nodup := nodup_singleton _
    linked := ⟨by rw [nextAt, page]; rfl, trivial⟩
    page := page
    dense := by
      intro id member
      rw [mem_singleton.mp member, page]
      rfl }

/-- A fresh page behind all others follows the last page of the tape. -/
structure Moved (c c' : Content (RPage kind)) (tape : TapeWriter kind) : Prop where
  size : c'.pages.length = c.pages.length + 1
  last : pageIn c' tape.head = setNext tape.page c.pages.length
  fresh : pageIn c' c.pages.length = Page.clear .last
  same : ∀ id, id < c.pages.length → id ≠ tape.head → pageIn c' id = pageIn c id

theorem moved_put (writes : Writes c tape ids) :
    Moved c ((c.extend (Page.clear .last) tape.tracking).put tape.head
      (setNext tape.page c.pages.length)) tape where
  size := by simp
  last := by
    have inside := writes.inside _ writes.head_mem
    apply pageIn_put_self
    simp
    omega
  fresh := by
    have inside := writes.inside _ writes.head_mem
    rw [pageIn_put_ne (by omega)]
    simp [pageIn]
  same := by
    intro id below different
    rw [pageIn_put_ne different]
    simp [pageIn, getElem?_append_left below]

theorem Moved.writes (moved : Moved c c' tape) (writes : Writes c tape ids)
    (room : c.pages.length + 1 ≤ u32Max) :
    Writes c' { tape with head := c.pages.length, page := Page.clear .last }
      (ids ++ [c.pages.length]) where
  size := by
    rw [moved.size]
    exact room
  head := by simp [writes.head]
  last := ⟨ids, rfl⟩
  inside := by
    intro id member
    rw [moved.size]
    cases mem_append.mp member with
    | inl before => exact Nat.lt_succ_of_lt (writes.inside id before)
    | inr added => simp [mem_singleton.mp added]
  nodup := by
    rw [nodup_append]
    refine ⟨writes.nodup, nodup_singleton _, ?_⟩
    intro id member other added equal
    have := writes.inside id member
    rw [equal, mem_singleton.mp added] at this
    exact absurd this (lt_irrefl _)
  linked := by
    obtain ⟨front, split⟩ := writes.last
    have before := writes.linked
    rw [split] at before ⊢
    apply before.concat
    · rw [nextAt, moved.last]
      rfl
    · rw [nextAt, moved.fresh]
      rfl
    · intro id member
      rw [nextAt, nextAt, moved.same id (writes.inside id (by simp [split, member]))
        (writes.apart split id member)]
  page := moved.fresh
  dense := by
    intro id member
    cases mem_append.mp member with
    | inl before =>
      by_cases last : id = tape.head
      · rw [last, moved.last, ← writes.page]
        exact writes.dense _ writes.head_mem
      · rw [moved.same id (writes.inside id before) last]
        exact writes.dense id before
    | inr added =>
      rw [mem_singleton.mp added, moved.fresh]
      rfl

theorem Moved.grows (moved : Moved c c' tape) (writes : Writes c tape ids) :
    Grows c c' ids (ids ++ [c.pages.length]) [] := by
  have tuples : ∀ id ∈ ids, (pageIn c' id).tuples = (pageIn c id).tuples := by
    intro id member
    by_cases last : id = tape.head
    · rw [last, moved.last, writes.page]
      rfl
    · rw [moved.same id (writes.inside id member) last]
  exact {
    size := by
      rw [moved.size]
      exact Nat.le_succ _
    pages := by simp [moved.size]
    frame := by
      intro id below outside
      apply moved.same id below
      intro equal
      exact outside (equal ▸ writes.head_mem)
    kept := fun id member => by rw [tuples id member]
    tuples := by
      have empty : tuplesOn (pageIn c') [c.pages.length] = [] := by
        simp [tuplesOn, moved.fresh]
      rw [tuplesOn_append, empty, append_nil, append_nil]
      exact flatMap_congr tuples }

/-- Going on on a fresh page. -/
theorem wlp_moveOn (writes : Writes c tape ids) :
    (tape.moveOn extendIndex ()).wlp (fun result c' =>
      result.1.page = Page.clear .last ∧ ∃ ids', Writes c' result.1 ids' ∧
        Grows c c' ids ids' []) c := by
  rw [moveOn, extendIndex]
  simp only [bind_eq, pure_eq, wlp_bind, wlp_extend, wlp_pure,
    wlp_put, wlp_dropWrite]
  intro room
  have moved := moved_put writes
  exact ⟨trivial, _, moved.writes writes room, moved.grows writes⟩

theorem wlp_close {post : Nat → Content (RPage kind) → Prop}
    (verified : post tape.first c) : (tape.close : RProg kind Nat).wlp post c := by
  rw [close, bind_eq, wlp_bind, wlp_dropWrite]
  exact verified

variable [PageSpace (Tuple kind)]

/-- Putting a tuple that fits on the current page. -/
theorem writes_put {page : RPage kind} {i : Nat} {tuple : Tuple kind} (writes : Writes c tape ids)
    (fits : tape.page.alloc tuple = some (page, i)) :
    Writes (c.put tape.head page) { tape with page := page } ids ∧
      Grows c (c.put tape.head page) ids ids [tuple] ∧
      (pageIn (c.put tape.head page) tape.head).get i = some tuple := by
  obtain ⟨front, split⟩ := writes.last
  have inside : tape.head < c.pages.length := writes.inside _ writes.head_mem
  have dense : tape.page.Dense := writes.page ▸ writes.dense _ writes.head_mem
  have gets := (PageSpace.alloc_eq_some fits).2.2.2.1
  rw [PageSpace.alloc_dense tuple dense] at fits
  split at fits
  case isFalse => cases fits
  case isTrue =>
    cases fits
    have here := pageIn_put_self inside
      (⟨tape.page.special, (tape.page.tuples ++ [tuple]).map some⟩ : RPage kind)
    have same : ∀ id, id ≠ tape.head → pageIn (c.put tape.head
        (⟨tape.page.special, (tape.page.tuples ++ [tuple]).map some⟩ : RPage kind)) id =
          pageIn c id := fun id different => pageIn_put_ne different _
    have apart := writes.apart split
    refine ⟨?_, ?_, by rw [here]; exact gets⟩
    · exact {
        size := by simpa using writes.size
        head := writes.head
        last := writes.last
        inside := by simpa using writes.inside
        nodup := writes.nodup
        linked := by
          apply writes.linked.congr
          intro id member
          by_cases last : id = tape.head
          · rw [last, nextAt, nextAt, here, writes.page]
          · rw [nextAt, nextAt, same id last]
        page := here
        dense := by
          intro id member
          by_cases last : id = tape.head
          · rw [last, here]
            exact Page.dense_mk _ _
          · rw [same id last]
            exact writes.dense id member }
    · exact {
        size := by simp
        pages := by simp
        frame := by
          intro id _ outside
          apply same
          intro equal
          exact outside (equal ▸ writes.head_mem)
        kept := by
          intro id member
          by_cases last : id = tape.head
          · rw [last, here, writes.page, Page.tuples_mk]
            exact prefix_append _ _
          · rw [same id last]
        tuples := by
          have before : tuplesOn (pageIn (c.put tape.head
              (⟨tape.page.special, (tape.page.tuples ++ [tuple]).map some⟩ : RPage kind)))
                front = tuplesOn (pageIn c) front :=
            tuplesOn_congr fun id member => same id (apart id member)
          rw [split, tuplesOn_append, tuplesOn_append, before, append_assoc]
          simp only [tuplesOn, flatMap_cons, flatMap_nil, append_nil]
          rw [here, writes.page, Page.tuples_mk] }

/-- What is known after a tuple was put. -/
def Put (c : Content (RPage kind)) (ids : List Nat) (tuple : Tuple kind) (key : Nat × Nat)
    (tape' : TapeWriter kind) (c' : Content (RPage kind)) : Prop :=
  ∃ ids', Writes c' tape' ids' ∧ Grows c c' ids ids' [tuple] ∧ key.1 ∈ ids' ∧
    (pageIn c' key.1).get key.2 = some tuple

theorem wlp_tapePut (writes : Writes c tape ids) (tuple : Tuple kind) :
    (tape.tapePut tuple).wlp (fun result c' => Put c ids tuple result.1 result.2 c' ∧
      result.2.first = tape.first ∧ c'.pages.length = c.pages.length) c := by
  rw [tapePut]
  simp only [bind_eq, pure_eq, wlp_bind, wlp_expect, wlp_pure,
    wlp_put]
  intro result fits
  obtain ⟨written, grows, gets⟩ := writes_put writes fits
  exact ⟨⟨ids, written, grows, writes.head_mem, gets⟩, trivial, length_put _ _⟩

theorem wlp_push (writes : Writes c tape ids) (tuple : Tuple kind) :
    (tape.push extendIndex tuple ()).wlp (fun result c' =>
      Put c ids tuple result.1 result.2.1 c') c := by
  rw [push]
  split
  next page i fits =>
    simp only [bind_eq, pure_eq, wlp_bind, wlp_pure, wlp_put]
    obtain ⟨written, grows, gets⟩ := writes_put writes fits
    exact ⟨ids, written, grows, writes.head_mem, gets⟩
  next =>
    apply wlp_then (wlp_moveOn writes)
    rintro ⟨tape', _⟩ c' ⟨_, ids', writes', moved⟩
    apply wlp_then (wlp_tapePut writes' tuple)
    rintro ⟨key, tape''⟩ c'' ⟨⟨ids'', writes'', grows, member, gets⟩, _⟩
    exact ⟨ids'', writes'', moved.trans grows, member, gets⟩

/-- A tuple that is pushed on an empty page stays on it. -/
theorem wlp_push_clear (empty : tape.page.tuples = []) (writes : Writes c tape ids)
    (tuple : Tuple kind) :
    (tape.push extendIndex tuple ()).wlp (fun result c' => Writes c' result.2.1 ids ∧
      result.2.1.first = tape.first ∧ result.2.1.head = tape.head ∧
      c'.pages = c.pages.set tape.head ⟨tape.page.special, [some tuple]⟩) c := by
  have dense : tape.page.Dense := writes.page ▸ writes.dense _ writes.head_mem
  have same : tape.page = Page.clear tape.page.special := by
    have slots : tape.page.slots = [] := by rw [dense, empty, map_nil]
    rw [Page.clear, ← slots]
  rw [push]
  split
  next page i fits =>
    simp only [bind_eq, pure_eq, wlp_bind, wlp_pure, wlp_put]
    have written := (writes_put writes fits).1
    rw [PageSpace.alloc_dense tuple dense, empty] at fits
    split at fits
    case isFalse => cases fits
    case isTrue =>
      cases fits
      exact ⟨written, trivial, trivial, rfl⟩
  next full =>
    apply wlp_then (wlp_moveOn writes)
    rintro ⟨tape', _⟩ c' ⟨clear, _⟩
    -- the tuple does not fit on a clear page either
    dsimp only [tapePut]
    simp only [bind_eq, wlp_bind, wlp_expect]
    intro value fits
    rw [same, PageSpace.alloc_dense tuple (Page.dense_clear _),
      PageSpace.freespace_clear] at full
    dsimp only at clear
    rw [clear, PageSpace.alloc_dense tuple (Page.dense_clear _),
      PageSpace.freespace_clear] at fits
    split at fits
    next small => simp [small] at full
    next => cases fits

/-- A block that is cut into slices. -/
theorem wlp_putSplit {ε : Type} {estimate : Nat → Nat} {fit : Nat → Option Nat}
    {closing slice : List ε → Tuple kind} (writes : Writes c tape ids) (elements : List ε) :
    (tape.putSplit extendIndex estimate fit closing slice elements ()).wlp (fun result c' =>
      ∃ (ids' : List Nat) (parts : List (List ε)) (last : List ε), Writes c' result.1 ids' ∧
        Grows c c' ids ids' (parts.map slice ++ [closing last]) ∧
        parts.flatten ++ last = elements) c := by
  apply wlp_loop fun state c' => ∃ (ids' : List Nat) (parts : List (List ε)),
    Writes c' state.2.1 ids' ∧ Grows c c' ids ids' (parts.map slice) ∧
      parts.flatten ++ state.1 = elements
  · rintro ⟨remain, tape, _⟩ c' ⟨ids', parts, writes', grows, split⟩
    dsimp only at writes' split ⊢
    split_ifs
    · apply wlp_then (wlp_tapePut writes' (closing remain))
      rintro ⟨key, tape'⟩ c'' ⟨⟨ids'', writes'', put, _⟩, _⟩
      exact ⟨ids'', parts, remain, writes'', grows.trans put, split⟩
    · cases fit tape.freespace with
      | none =>
        dsimp only [tapeMove]
        split_ifs
        · exact wlp_bind.mpr wlp_panic
        · apply wlp_then (wlp_moveOn writes')
          rintro ⟨tape', _⟩ c'' ⟨_, ids'', writes'', moved⟩
          have both := grows.trans moved
          rw [append_nil] at both
          exact ⟨ids'', parts, writes'', both, split⟩
      | some w =>
        apply wlp_then
          (wlp_tapePut writes' (slice (remain.take (min w remain.length))))
        rintro ⟨key, tape'⟩ c'' ⟨⟨ids'', writes'', put, _⟩, _⟩
        refine ⟨ids'', parts ++ [remain.take (min w remain.length)], writes'', ?_, ?_⟩
        · rw [map_append]
          exact grows.trans put
        · rw [flatten_append, flatten_singleton, append_assoc, take_append_drop, split]
  · exact ⟨ids, [], writes, Grows.refl c ids, rfl⟩

end TapeWriter

end VectorChord.Vchordrq
