import VectorChord.Paged.Requests
import VectorChord.Vchordrq.Pages

/-!
# Appending to a tape

What any number of threads agree on while they append to one tape and take fresh pages
from a free list: a page is on the tape, on the free list, the head of the free list, or
held by a thread that is about to link it.  Under this agreement `append` adds its tuple to
the last page of the tape, whichever page that is by then, and never changes another tuple.
-/

namespace VectorChord.Vchordrq

open Index Paged List Function Agreement Protocol

variable {kind : VectorKind}

/-- The page with a given id. -/
def pageOf (pages : List (RPage kind)) (id : Nat) : RPage kind := pages.getD id (Page.clear .last)

section
variable {pages : List (RPage kind)} {id : Nat}

theorem pageOf_of_getElem? {page : RPage kind} (found : pages[id]? = some page) :
    pageOf pages id = page := by
  simp [pageOf, found]

theorem pageOf_set (inside : id < pages.length) (page : RPage kind) :
    pageOf (pages.set id page) = Function.update (pageOf pages) id page := by
  funext x
  by_cases same : x = id
  · subst same
    simp [pageOf, inside]
  · simp [pageOf, update_of_ne same, getElem?_set_ne (Ne.symm same)]

end

/-! ## The agreement -/

/-- Ghost state: the pages of the tape and of the free list in order, which thread holds a
page of its own, and who has placed the tuple in a slot. -/
structure TapeGhost where
  ids : List Nat
  free : List Nat
  holder : Nat → Option Nat
  placer : Nat × Nat → Option Nat

/-- All pages that nobody holds for himself. -/
def TapeGhost.used (ghost : TapeGhost) (freeHead : Option Nat) : List Nat :=
  ghost.ids ++ freeHead.toList ++ ghost.free

/-- Thread `t` has placed tuples in some slots of a page. -/
def TapeGhost.place (ghost : TapeGhost) (t id : Nat) (slots : List Nat) : TapeGhost :=
  { ghost with placer := fun x => if x.1 = id ∧ x.2 ∈ slots then some t else ghost.placer x }

/-- The page `fresh` is linked to the tape. -/
def TapeGhost.link (ghost : TapeGhost) (fresh : Nat) : TapeGhost :=
  { ghost with
    ids := ghost.ids ++ [fresh]
    holder := Function.update ghost.holder fresh none }

/-- Thread `t` holds a page, and `free` is what is left of the free list. -/
def TapeGhost.hold (ghost : TapeGhost) (t id : Nat) (free : List Nat) : TapeGhost :=
  { ghost with
    free := free
    holder := Function.update ghost.holder id (some t) }

@[simp] theorem TapeGhost.ids_link (ghost : TapeGhost) (fresh : Nat) :
    (ghost.link fresh).ids = ghost.ids ++ [fresh] := rfl

@[simp] theorem TapeGhost.holder_link (ghost : TapeGhost) (fresh : Nat) :
    (ghost.link fresh).holder = Function.update ghost.holder fresh none := rfl

@[simp] theorem TapeGhost.holder_hold (ghost : TapeGhost) (t id : Nat) (free : List Nat) :
    (ghost.hold t id free).holder = Function.update ghost.holder id (some t) := rfl

theorem TapeGhost.placer_place (ghost : TapeGhost) (t id : Nat) (slots : List Nat)
    (x : Nat × Nat) : (ghost.place t id slots).placer x =
      if x.1 = id ∧ x.2 ∈ slots then some t else ghost.placer x := rfl

open TapeGhost (used link holder_hold holder_link ids_link placer_place)

structure TapeInv (first : Nat) (freeHead : Option Nat) (pages : List (RPage kind))
    (ghost : TapeGhost) : Prop where
  size : pages.length ≤ u32Max
  tape : TapeOk (pageOf pages) ghost.ids first
  free : Linked (nextAt (pageOf pages)) u32Max ghost.free
  freeFirst : ∀ h, freeHead = some h →
    (pageOf pages h).get 1 = some (.freepages (ghost.free.headD u32Max))
  inside : ∀ id ∈ ghost.used freeHead, id < pages.length
  nodup : (ghost.used freeHead).Nodup
  held : ∀ id t, ghost.holder id = some t → id < pages.length ∧ id ∉ ghost.used freeHead
  /-- A slot that has been filled stays filled. -/
  placed : ∀ x t, ghost.placer x = some t →
    x.1 ∈ ghost.ids ∧ ((pageOf pages x.1).get x.2).isSome

/-- What a thread relies on: the beginning of the tape, the page that it holds, and the
tuples that it has placed. -/
structure TapeFacts (kind : VectorKind) where
  known : List Nat
  own : Option Nat
  placed : List (Nat × Nat × Tuple kind)

structure TapeFacts.Hold (t : Nat) (facts : TapeFacts kind) (pages : List (RPage kind))
    (ghost : TapeGhost) : Prop where
  known : facts.known <+: ghost.ids
  own : ∀ id, facts.own = some id → ghost.holder id = some t
  placed : ∀ x ∈ facts.placed, x.1 ∈ ghost.ids ∧
    (pageOf pages x.1).get x.2.1 = some x.2.2 ∧ ghost.placer (x.1, x.2.1) = some t

def tapeAgreement (kind : VectorKind) (first : Nat) (freeHead : Option Nat) :
    Agreement (RPage kind) TapeGhost (TapeFacts kind) where
  Inv := TapeInv first freeHead
  Fact := TapeFacts.Hold

section
variable {first : Nat} {freeHead : Option Nat} {pages : List (RPage kind)}
  {ghost : TapeGhost} {facts : TapeFacts kind} {t u id : Nat} {new : RPage kind}

theorem TapeFacts.Hold.mono (hold : facts.Hold u pages ghost) (pages' : List (RPage kind))
    (ghost' : TapeGhost) (ids : ghost.ids <+: ghost'.ids)
    (holder : ∀ id, ghost.holder id = some u → ghost'.holder id = some u)
    (placer : ∀ x, ghost.placer x = some u → ghost'.placer x = some u)
    (kept : ∀ id ∈ ghost.ids, ∀ i tuple, (pageOf pages id).get i = some tuple →
      (pageOf pages' id).get i = some tuple) : facts.Hold u pages' ghost' where
  known := hold.known.trans ids
  own := fun id own => holder id (hold.own id own)
  placed := by
    intro x member
    rcases hold.placed x member with ⟨inTape, found, mine⟩
    exact ⟨ids.subset inTape, kept x.1 inTape _ _ found, placer _ mine⟩

section
variable (hold : facts.Hold u pages ghost)

include hold

theorem TapeFacts.Hold.congr {pages' : List (RPage kind)}
    (same : ∀ x ∈ ghost.ids, pageOf pages' x = pageOf pages x) : facts.Hold u pages' ghost where
  known := hold.known
  own := hold.own
  placed := by
    intro x member
    rcases hold.placed x member with ⟨inTape, found, mine⟩
    rw [same x.1 inTape]
    exact ⟨inTape, found, mine⟩

/-- The thread takes a page. -/
theorem TapeFacts.Hold.take (free : List Nat) :
    ({ facts with own := some id } : TapeFacts kind).Hold u pages (ghost.hold u id free) where
  known := hold.known
  own := by
    intro x isOwn
    cases isOwn
    exact update_self _ _ _
  placed := hold.placed

/-- Another thread takes a page that this one does not hold. -/
theorem TapeFacts.Hold.taken (free : List Nat) (apart : ghost.holder id ≠ some u) :
    facts.Hold u pages (ghost.hold t id free) where
  known := hold.known
  own := by
    intro x isOwn
    rw [holder_hold, update_of_ne]
    · exact hold.own x isOwn
    · rintro rfl
      exact apart (hold.own x isOwn)
  placed := hold.placed

end

namespace TapeInv

theorem mem_used (inv : TapeInv first freeHead pages ghost) (member : id ∈ ghost.ids) :
    id < pages.length ∧ id ∉ freeHead.toList ∧ id ∉ ghost.free := by
  have nodup := inv.nodup
  rw [used, append_assoc, nodup_append] at nodup
  refine ⟨inv.inside id (by simp [used, member]), ?_, ?_⟩
  · exact fun other => nodup.2.2 id member id (mem_append_left _ other) rfl
  · exact fun other => nodup.2.2 id member id (mem_append_right _ other) rfl

/-- The free list does not depend on the pages of the tape. -/
theorem free_of_same (inv : TapeInv first freeHead pages ghost) (pages' : List (RPage kind))
    (same : ∀ x, x ∈ freeHead.toList ∨ x ∈ ghost.free → pageOf pages' x = pageOf pages x) :
    Linked (nextAt (pageOf pages')) u32Max ghost.free ∧ ∀ h, freeHead = some h →
      (pageOf pages' h).get 1 = some (.freepages (ghost.free.headD u32Max)) := by
  constructor
  · apply inv.free.congr
    intro x member
    rw [nextAt, nextAt, same x (.inr member)]
  · intro h isHead
    rw [same h (.inl (by simp [isHead]))]
    exact inv.freeFirst h isHead

theorem placed_of_same (inv : TapeInv first freeHead pages ghost) {pages' : List (RPage kind)}
    (same : ∀ x ∈ ghost.ids, pageOf pages' x = pageOf pages x) (x : Nat × Nat) (t : Nat)
    (placed : ghost.placer x = some t) :
    x.1 ∈ ghost.ids ∧ ((pageOf pages' x.1).get x.2).isSome := by
  rcases inv.placed x t placed with ⟨member, filled⟩
  rw [same x.1 member]
  exact ⟨member, filled⟩

end TapeInv

end

/-! ## Requests -/

section
variable {first : Nat} {freeHead : Option Nat} {t id : Nat} {tag : Tag}
  {held : Multiset (Latch Tag × RPage kind)} {facts : TapeFacts kind}
  {w : World (RPage kind) Tag TapeGhost} {old new : RPage kind} {post : Unit →
    World (RPage kind) Tag TapeGhost → Prop}

section

variable (here : (tapeAgreement kind first freeHead).At t ((⟨t, id, .exclusive, tag⟩, old) ::ₘ
  held) facts w)

include here

/-- A page of the tape is rewritten: tuples are only added, and only the first page may get
a new `skip`. -/
theorem wp_fill (member : id ∈ facts.known) (next : new.special.next = old.special.next)
    (skip : id = first → new.special.skip = old.special.skip ∨ new.special.skip ∈ facts.known)
    (grows : ∀ i tuple, old.get i = some tuple → new.get i = some tuple)
    (note : List (Nat × Tuple kind))
    (noted : ∀ x ∈ note, old.get x.1 = none ∧ new.get x.1 = some x.2)
    (continued : ∀ w', (tapeAgreement kind first freeHead).At t
      ((⟨t, id, .exclusive, tag⟩, new) ::ₘ held)
      { facts with placed := note.map (Prod.mk id) ++ facts.placed } w' → post () w') :
    (tapeAgreement kind first freeHead).protocol.wp t (Prog.put id new) post w := by
  have inv : TapeInv first freeHead w.1.pages w.2 := here.inv
  have hold : facts.Hold t w.1.pages w.2 := here.relied
  have content : pageOf w.1.pages id = old := pageOf_of_getElem? here.content
  have inTape := hold.known.subset member
  have inside := inv.mem_used inTape
  have changed := pageOf_set inside.1 new
  have same : ∀ x, x ≠ id → pageOf (w.1.pages.set id new) x = pageOf w.1.pages x := by
    intro x different
    rw [changed, update_of_ne different]
  have kept : ∀ x i tuple, (pageOf w.1.pages x).get i = some tuple →
      (pageOf (w.1.pages.set id new) x).get i = some tuple := by
    intro x i tuple found
    by_cases here : x = id
    · rw [here, content] at found
      rw [here, changed, update_self]
      exact grows i tuple found
    · rw [same x here]
      exact found
  have free := inv.free_of_same (w.1.pages.set id new) (by
    intro x apart
    apply same
    rintro rfl
    exact apart.elim inside.2.1 inside.2.2)
  have empty : ∀ x ∈ note, ∀ u, w.2.placer (id, x.1) ≠ some u := by
    intro x listed u placed
    have filled := (inv.placed _ u placed).2
    rw [content, (noted x listed).1] at filled
    cases filled
  apply wp_put (w.2.place t id (note.map Prod.fst)) here _ _ _ continued
  · exact {
      size := by
        rw [length_set]
        exact inv.size
      tape := by
        rw [changed]
        apply inv.tape.put (content ▸ next)
        intro isFirst
        rcases skip isFirst with same | known
        · rw [same, ← content, isFirst]
          exact inv.tape.skip
        · exact hold.known.subset known
      free := free.1
      freeFirst := free.2
      inside := by
        rw [length_set]
        exact inv.inside
      nodup := inv.nodup
      held := by
        rw [length_set]
        exact inv.held
      placed := by
        intro x u placed
        rw [placer_place] at placed
        split at placed
        next isNew =>
          rcases isNew with ⟨here, listed⟩
          rcases mem_map.mp listed with ⟨y, member, slot⟩
          rw [here, changed, update_self, ← slot, (noted y member).2]
          exact ⟨inTape, rfl⟩
        next =>
          rcases inv.placed x u placed with ⟨before, filled⟩
          rcases Option.isSome_iff_exists.mp filled with ⟨tuple, found⟩
          exact ⟨before, Option.isSome_iff_exists.mpr ⟨tuple, kept x.1 x.2 tuple found⟩⟩ }
  · intro u different others holds
    apply TapeFacts.Hold.mono holds _ (w.2.place t id _) prefix_rfl (fun _ own => own) _
      fun x _ => kept x
    intro x mine
    rw [placer_place, if_neg]
    · exact mine
    · rintro ⟨here, listed⟩
      rcases mem_map.mp listed with ⟨y, member, slot⟩
      apply empty y member u
      rw [slot, ← here]
      exact mine
  · refine ⟨hold.known, hold.own, ?_⟩
    intro x listed
    rcases mem_append.mp listed with isNew | before
    · rcases mem_map.mp isNew with ⟨y, member, rfl⟩
      refine ⟨inTape, ?_, if_pos ⟨rfl, mem_map_of_mem member⟩⟩
      rw [changed, update_self]
      exact (noted y member).2
    · rcases hold.placed x before with ⟨known, found, mine⟩
      refine ⟨known, kept _ _ _ found, ?_⟩
      rw [placer_place]
      split
      next => rfl
      next => exact mine

/-- A page that the thread holds gets new content. -/
theorem wp_putOwn (own : facts.own = some id)
    (continued : ∀ w', (tapeAgreement kind first freeHead).At t
      ((⟨t, id, .exclusive, tag⟩, new) ::ₘ held) facts w' → post () w') :
    (tapeAgreement kind first freeHead).protocol.wp t (Prog.put id new) post w := by
  have inv : TapeInv first freeHead w.1.pages w.2 := here.inv
  have hold : facts.Hold t w.1.pages w.2 := here.relied
  have outside := inv.held id t (hold.own id own)
  have same : ∀ x ∈ w.2.used freeHead, pageOf (w.1.pages.set id new) x = pageOf w.1.pages x := by
    intro x member
    rw [pageOf_set outside.1 new, update_of_ne]
    rintro rfl
    exact outside.2 member
  have sameTape : ∀ x ∈ w.2.ids, pageOf (w.1.pages.set id new) x = pageOf w.1.pages x :=
    fun x member => same x (by simp [used, member])
  have free := inv.free_of_same (w.1.pages.set id new) (by
    intro x apart
    apply same
    rw [used, append_assoc, mem_append, mem_append]
    exact .inr apart)
  apply wp_put w.2 here _ _ _ continued
  · exact {
      size := by
        rw [length_set]
        exact inv.size
      tape := inv.tape.congr sameTape
      free := free.1
      freeFirst := free.2
      inside := by
        rw [length_set]
        exact inv.inside
      nodup := inv.nodup
      held := by
        rw [length_set]
        exact inv.held
      placed := inv.placed_of_same sameTape }
  · intro u _ others holds
    exact TapeFacts.Hold.congr holds sameTape
  · exact hold.congr sameTape

end

/-- The page that the thread holds is linked to the last page of the tape. -/
theorem wp_link {last fresh : Nat} {tag' : Tag} {page : RPage kind}
    (here : (tapeAgreement kind first freeHead).At t ((⟨t, last, .exclusive, tag⟩, old) ::ₘ
      (⟨t, fresh, .exclusive, tag'⟩, page) ::ₘ held) facts w)
    (member : last ∈ facts.known) (own : facts.own = some fresh)
    (ends : old.special.next = u32Max) (clear : page.special.next = u32Max)
    (continued : ∀ ids w', facts.known ⊆ ids → fresh ∈ ids →
      (tapeAgreement kind first freeHead).At t ((⟨t, last, .exclusive, tag⟩, setNext old fresh) ::ₘ
        (⟨t, fresh, .exclusive, tag'⟩, page) ::ₘ held) { facts with known := ids, own := none } w' →
      post () w') :
    (tapeAgreement kind first freeHead).protocol.wp t (Prog.put last (setNext old fresh)) post
      w := by
  have inv : TapeInv first freeHead w.1.pages w.2 := here.inv
  have hold : facts.Hold t w.1.pages w.2 := here.relied
  have content : pageOf w.1.pages last = old := pageOf_of_getElem? here.content
  have freshContent : pageOf w.1.pages fresh = page := pageOf_of_getElem?
    (here.knows.content _ (Multiset.mem_cons_of_mem (Multiset.mem_cons_self _ _)))
  have mine := hold.own fresh own
  have outside := inv.held fresh t mine
  have inTape := hold.known.subset member
  have inside := inv.mem_used inTape
  have proper : u32Max ∉ w.2.ids := fun isIn =>
    absurd (inv.mem_used isIn).1 (not_lt.mpr inv.size)
  obtain ⟨front, split⟩ := inv.tape.linked.eq_concat inTape (by rw [nextAt, content]; exact ends)
    proper
  have changed := pageOf_set inside.1 (setNext old fresh)
  have free := inv.free_of_same (w.1.pages.set last (setNext old fresh)) (by
    intro x apart
    rw [changed, update_of_ne]
    rintro rfl
    exact apart.elim inside.2.1 inside.2.2)
  have kept : ∀ x i, (pageOf (w.1.pages.set last (setNext old fresh)) x).get i =
      (pageOf w.1.pages x).get i := by
    intro x i
    by_cases here : x = last
    · rw [here, changed, update_self, content]
      cases i <;> rfl
    · rw [changed, update_of_ne here]
  have used : ((w.2.link fresh).used freeHead).Perm (fresh :: w.2.used freeHead) := by
    simp only [used, link, append_assoc, singleton_append]
    exact perm_middle
  apply wp_put (w.2.link fresh) here _ _ _ (continued (w.2.ids ++ [fresh]) ·
    (fun x known => mem_append_left _ (hold.known.subset known)) (by simp))
  · exact {
      size := by
        rw [length_set]
        exact inv.size
      tape := by
        have apart : fresh ∉ w.2.ids := fun isIn => outside.2 (by simp [TapeGhost.used, isIn])
        have nodup : w.2.ids.Nodup := by
          have nodup := inv.nodup
          rw [TapeGhost.used, append_assoc] at nodup
          exact (nodup_append.mp nodup).1
        have tape := inv.tape
        rw [split] at nodup apart tape
        rw [changed, ← content, ids_link, split]
        exact tape.link nodup apart (by rw [freshContent]; exact clear)
      free := free.1
      freeFirst := free.2
      inside := by
        intro x member
        rw [length_set]
        rcases mem_cons.mp (used.mem_iff.mp member) with rfl | before
        · exact outside.1
        · exact inv.inside x before
      nodup := used.nodup_iff.mpr (nodup_cons.mpr ⟨outside.2, inv.nodup⟩)
      held := by
        intro x u holds
        have notFresh : x ≠ fresh := by
          rintro rfl
          rw [holder_link, update_self] at holds
          cases holds
        rw [holder_link, update_of_ne notFresh] at holds
        rw [length_set]
        refine ⟨(inv.held x u holds).1, ?_⟩
        intro isIn
        rcases mem_cons.mp (used.mem_iff.mp isIn) with same | before
        · exact notFresh same
        · exact (inv.held x u holds).2 before
      placed := by
        intro x u placed
        rw [kept]
        exact ⟨mem_append_left _ (inv.placed x u placed).1, (inv.placed x u placed).2⟩ }
  · intro u different others holds
    apply TapeFacts.Hold.mono holds _ (w.2.link fresh) (prefix_append _ _) _
      (fun _ placed => placed)
    · intro x _ i tuple found
      rw [kept]
      exact found
    · intro x holder
      rw [holder_link, update_of_ne]
      · exact holder
      · rintro rfl
        rw [mine] at holder
        exact different (Option.some.inj holder).symm
  · refine ⟨prefix_rfl, (fun _ none => by cases none), ?_⟩
    intro x listed
    rcases hold.placed x listed with ⟨known, found, placer⟩
    rw [kept]
    exact ⟨mem_append_left _ known, found, placer⟩

/-- The thread takes the first page of the free list. -/
theorem wp_pop {h : Nat} {tag' : Tag} {page : RPage kind}
    (here : (tapeAgreement kind first (some h)).At t ((⟨t, h, .exclusive, tag⟩, old) ::ₘ
      (⟨t, id, .exclusive, tag'⟩, page) ::ₘ held) facts w)
    (found : old.get 1 = some (.freepages id)) (proper : id ≠ u32Max)
    (continued : ∀ w', (tapeAgreement kind first (some h)).At t
      ((⟨t, h, .exclusive, tag⟩, old.set 1 (.freepages page.special.next)) ::ₘ
        (⟨t, id, .exclusive, tag'⟩, page) ::ₘ held) { facts with own := some id } w' →
      post () w') :
    (tapeAgreement kind first (some h)).protocol.wp t
      (Prog.put h (old.set 1 (.freepages page.special.next))) post w := by
  have inv : TapeInv first (some h) w.1.pages w.2 := here.inv
  have hold : facts.Hold t w.1.pages w.2 := here.relied
  have content : pageOf w.1.pages h = old := pageOf_of_getElem? here.content
  have pageContent : pageOf w.1.pages id = page := pageOf_of_getElem?
    (here.knows.content _ (Multiset.mem_cons_of_mem (Multiset.mem_cons_self _ _)))
  have listed := inv.freeFirst h rfl
  rw [content, found] at listed
  obtain ⟨rest, split⟩ : ∃ rest, w.2.free = id :: rest := by
    cases free : w.2.free with
    | nil =>
      rw [free] at listed
      cases listed
      exact absurd rfl proper
    | cons x rest =>
      rw [free] at listed
      cases listed
      exact ⟨rest, rfl⟩
  have linked := inv.free
  rw [split] at linked
  have used : w.2.used (some h) = w.2.ids ++ [h] ++ id :: rest := by rw [used, split]; rfl
  have nodup := inv.nodup
  rw [used] at nodup
  have inside : h < w.1.pages.length := inv.inside h (by simp [used])
  have changed := pageOf_set inside (old.set 1 (.freepages page.special.next))
  have same : ∀ x, x ∈ w.2.ids ∨ x ∈ rest → pageOf (w.1.pages.set h
      (old.set 1 (.freepages page.special.next))) x = pageOf w.1.pages x := by
    intro x member
    rw [changed, update_of_ne]
    grind
  have sameTape := fun x (member : x ∈ w.2.ids) => same x (.inl member)
  have apart : id ∉ w.2.ids ++ [h] ++ rest := by
    simp only [nodup_append, nodup_cons, mem_append, mem_cons] at nodup ⊢
    grind
  apply wp_put (w.2.hold t id rest) here _ _ _ continued
  · exact {
      size := by
        rw [length_set]
        exact inv.size
      tape := inv.tape.congr sameTape
      free := linked.2.congr fun x member => by rw [nextAt, nextAt, same x (.inr member)]
      freeFirst := by
        intro h' isHead
        cases isHead
        rw [changed, update_self, Page.get_set_self found, ← pageContent]
        exact congrArg _ (congrArg _ linked.1)
      inside := by
        intro x member
        rw [length_set]
        apply inv.inside x
        rw [used]
        exact (List.Sublist.append_left (sublist_cons_self _ _) _).subset member
      nodup := nodup.sublist (List.Sublist.append_left (sublist_cons_self _ _) _)
      held := by
        intro x u holds
        rw [length_set]
        by_cases isId : x = id
        · rw [isId]
          exact ⟨inv.inside id (by simp [used]), apart⟩
        · rw [holder_hold, update_of_ne isId] at holds
          refine ⟨(inv.held x u holds).1, fun isIn => (inv.held x u holds).2 ?_⟩
          rw [used]
          exact (List.Sublist.append_left (sublist_cons_self _ _) _).subset isIn
      placed := inv.placed_of_same sameTape }
  · intro u different others holds
    apply (TapeFacts.Hold.congr holds sameTape).taken
    intro holder
    exact absurd (by simp [used]) (inv.held id u holder).2
  · exact (hold.congr sameTape).take rest

/-- A page is added, and the thread holds it. -/
theorem wp_extendOwn {tracking : Bool} {post : Nat → World (RPage kind) Tag TapeGhost → Prop}
    (here : (tapeAgreement kind first freeHead).At t held facts w)
    (continued : ∀ id w', (tapeAgreement kind first freeHead).At t
      ((⟨t, id, .exclusive, tag⟩, new) ::ₘ held) { facts with own := some id } w' → post id w') :
    (tapeAgreement kind first freeHead).protocol.wp t (Prog.extend tag new tracking) post w := by
  have inv : TapeInv first freeHead w.1.pages w.2 := here.inv
  have hold : facts.Hold t w.1.pages w.2 := here.relied
  have same : ∀ x ∈ w.2.used freeHead, pageOf (w.1.pages ++ [new]) x = pageOf w.1.pages x :=
    fun x member => by simp [pageOf, getElem?_append_left (inv.inside x member)]
  have sameTape : ∀ x ∈ w.2.ids, pageOf (w.1.pages ++ [new]) x = pageOf w.1.pages x :=
    fun x member => same x (by simp [used, member])
  have free := inv.free_of_same (w.1.pages ++ [new]) (by
    intro x apart
    apply same
    rw [used, append_assoc, mem_append, mem_append]
    exact .inr apart)
  have longer : (w.1.pages ++ [new]).length = w.1.pages.length + 1 := by simp
  apply wp_extend (w.2.hold t w.1.pages.length w.2.free) here _ _ _ (continued _)
  · intro room
    exact {
      size := by
        rw [longer]
        exact room
      tape := inv.tape.congr sameTape
      free := free.1
      freeFirst := free.2
      inside := by
        intro x member
        rw [longer]
        exact Nat.lt_succ_of_lt (inv.inside x member)
      nodup := inv.nodup
      held := by
        intro x u holds
        rw [longer]
        by_cases isNew : x = w.1.pages.length
        · rw [isNew]
          exact ⟨Nat.lt_succ_self _, fun member => absurd (inv.inside _ member) (lt_irrefl _)⟩
        · rw [holder_hold, update_of_ne isNew] at holds
          exact ⟨Nat.lt_succ_of_lt (inv.held x u holds).1, (inv.held x u holds).2⟩
      placed := inv.placed_of_same sameTape }
  · intro u _ others holds
    apply (TapeFacts.Hold.congr holds sameTape).taken
    intro holder
    exact absurd (inv.held _ u holder).1 (lt_irrefl _)
  · exact (hold.congr sameTape).take w.2.free

end

/-! ## The program -/

section
variable {first : Nat} {freeHead : Option Nat} {t : Nat} {held : Multiset (Latch Tag × RPage kind)}
  {facts : TapeFacts kind} {w : World (RPage kind) Tag TapeGhost} {tracking : Bool}
  {freepages : Option Nat}

/-- The first page of the free list is taken, still latched. -/
theorem wp_freepagesAlloc {h : Nat} {post : Option Nat → World (RPage kind) Tag TapeGhost → Prop}
    (here : (tapeAgreement kind first (some h)).At t held facts w)
    (empty : ∀ w', (tapeAgreement kind first (some h)).At t held facts w' → post none w')
    (taken : ∀ id page w', (tapeAgreement kind first (some h)).At t
      ((⟨t, id, .exclusive, .plain⟩, page) ::ₘ held) { facts with own := some id } w' →
      post (some id) w') :
    (tapeAgreement kind first (some h)).protocol.wp t (freepagesAlloc h) post w := by
  apply wp_bind.mpr
  apply wp_write here
  intro head w₁ here₁
  have listed := (here₁.inv : TapeInv first (some h) w₁.1.pages w₁.2).freeFirst h rfl
  rw [pageOf_of_getElem? here₁.content] at listed
  generalize w₁.2.free.headD u32Max = id at listed
  rw [getTuple, listed]
  change wp _ t (if id ≠ u32Max then _ else _) post w₁
  split
  next proper =>
    apply wp_bind.mpr
    apply wp_write here₁
    intro page w₂ here₂
    rw [Multiset.cons_swap] at here₂
    apply wp_bind.mpr
    apply wp_pop here₂ listed proper
    intro w₃ here₃
    exact wp_dropWrite here₃ (taken id page)
  next =>
    exact wp_dropWrite here₁ empty

/-- A clear page comes from the free list or from the end of the relation. -/
theorem wp_freshPage {post : Nat → World (RPage kind) Tag TapeGhost → Prop}
    (here : (tapeAgreement kind first freeHead).At t held facts w)
    (pool : ∀ h, freepages = some h → freeHead = some h)
    (continued : ∀ id w', (tapeAgreement kind first freeHead).At t
      ((⟨t, id, .exclusive, .plain⟩, Page.clear .last) ::ₘ held) { facts with own := some id } w' →
      post id w') :
    (tapeAgreement kind first freeHead).protocol.wp t (freshPage tracking freepages) post w := by
  cases freepages with
  | none => exact wp_extendOwn here continued
  | some h =>
    cases pool h rfl
    apply wp_bind.mpr
    apply wp_freepagesAlloc here
    · intro w₁ here₁
      exact wp_extendOwn here₁ continued
    · intro id page w₁ here₁
      exact wp_putOwn here₁ rfl (continued id)

variable [PageSpace (Tuple kind)] {tuple : Tuple kind} {tag : Tag} {current : Nat}
  {page : RPage kind}

/-- The tuple is added to a page of the tape. -/
theorem wp_alloc {id i : Nat} {tag' : Tag} {old filled : RPage kind}
    {post : Unit → World (RPage kind) Tag TapeGhost → Prop}
    (here : (tapeAgreement kind first freeHead).At t ((⟨t, id, .exclusive, tag'⟩, old) ::ₘ held)
      facts w) (member : id ∈ facts.known) (allocated : old.alloc tuple = some (filled, i))
    (continued : ∀ w', (tapeAgreement kind first freeHead).At t
      ((⟨t, id, .exclusive, tag'⟩, filled) ::ₘ held)
      { facts with placed := (id, i, tuple) :: facts.placed } w' → post () w') :
    (tapeAgreement kind first freeHead).protocol.wp t (Prog.put id filled) post w := by
  rcases PageSpace.alloc_eq_some allocated with ⟨special, _, empty, placed, others⟩
  apply wp_fill here member (by rw [special]) (fun _ => .inl (by rw [special])) _ [(i, tuple)] _
    continued
  · intro k other found
    rw [others k]
    · exact found
    · rintro rfl
      rw [empty] at found
      cases found
  · intro x listed
    rw [mem_singleton.mp listed]
    exact ⟨empty, placed⟩

/-- What holds before every iteration of the loop of `append`. -/
def AppendInv (first : Nat) (freeHead : Option Nat) (t : Nat) (facts : TapeFacts kind)
    (current : Nat) (w : World (RPage kind) Tag TapeGhost) : Prop :=
  ∃ known, first ∈ known ∧ current ∈ known ∧
    (tapeAgreement kind first freeHead).At t 0 { facts with known := known } w

/-- The tuple of an append is in its place. -/
def Appended (first : Nat) (freeHead : Option Nat) (t : Nat) (facts : TapeFacts kind)
    (tuple : Tuple kind) (placed : Nat × Nat) (w : World (RPage kind) Tag TapeGhost) : Prop :=
  ∃ known, (tapeAgreement kind first freeHead).At t 0
    { facts with known := known, placed := (placed.1, placed.2, tuple) :: facts.placed } w

/-- Append to a fresh page behind the last page of the tape. -/
theorem wp_appendFresh
    (here : (tapeAgreement kind first freeHead).At t {(⟨t, current, .exclusive, tag⟩, page)}
      facts w) (idle : facts.own = none) (isFirst : first ∈ facts.known)
    (member : current ∈ facts.known) (last : page.special.next = u32Max)
    (pool : ∀ h, freepages = some h → freeHead = some h)
    (fits : ∃ filled i, (Page.clear .last : RPage kind).alloc tuple = some (filled, i)) :
    (tapeAgreement kind first freeHead).protocol.wp t
      (appendFresh tag first current page tuple tracking freepages)
      (Appended first freeHead t facts tuple) w := by
  apply wp_bind.mpr
  apply wp_freshPage here pool
  intro fresh w₁ here₁
  rw [← Multiset.cons_zero, Multiset.cons_swap] at here₁
  apply wp_bind.mpr
  apply wp_link here₁ member rfl last rfl
  intro ids w₂ known inTape here₂
  apply wp_bind.mpr
  apply wp_dropWrite here₂
  intro w₃ here₃
  rcases fits with ⟨filled, i, allocated⟩
  rw [allocated]
  apply wp_bind.mpr
  apply wp_alloc here₃ inTape allocated
  intro w₄ here₄
  apply wp_bind.mpr
  apply wp_dropWrite here₄
  intro w₅ here₅
  apply wp_bind.mpr
  apply wp_write here₅
  intro past w₆ here₆
  apply wp_bind.mpr
  have skips : (max fresh past.special.skip) = past.special.skip ∨
      (max fresh past.special.skip) ∈ ids := by
    rcases max_choice fresh past.special.skip with isFresh | isPast
    · exact .inr (isFresh.symm ▸ inTape)
    · exact .inl isPast
  apply wp_fill here₆ (known isFirst) (next_setSkip past (max fresh past.special.skip))
    (fun _ => skips) (fun k _ found => found) [] (by simp)
  intro w₇ here₇
  apply wp_dropWrite here₇
  intro w₈ here₈
  exact ⟨ids, idle ▸ here₈⟩

omit [PageSpace (Tuple kind)] in
/-- Going on behind a page that is not the last one. -/
theorem AppendInv.follow {mode : Mode}
    (here : (tapeAgreement kind first freeHead).At t {(⟨t, current, mode, tag⟩, page)} facts w)
    (member : current ∈ facts.known) (notLast : page.special.next ≠ u32Max) :
    ∃ known, (tapeAgreement kind first freeHead).At t {(⟨t, current, mode, tag⟩, page)}
      { facts with known := known } w ∧ first ∈ known ∧
      follow first current page.special ∈ known := by
  have inv : TapeInv first freeHead w.1.pages w.2 := here.inv
  have hold : facts.Hold t w.1.pages w.2 := here.relied
  have content : pageOf w.1.pages current = page := pageOf_of_getElem?
    (here.knows.content _ (Multiset.mem_singleton_self _))
  have nodup := inv.nodup
  rw [used, append_assoc] at nodup
  have learned : TapeFacts.Hold t { facts with known := w.2.ids } w.1.pages w.2 :=
    ⟨prefix_rfl, hold.own, hold.placed⟩
  refine ⟨w.2.ids, ⟨here.kept, here.knows.latches, here.knows.content, learned⟩,
    inv.tape.first_mem, ?_⟩
  rw [← content] at notLast ⊢
  exact (inv.tape.follow_mem (nodup_append.mp nodup).1 (hold.known.subset member) notLast).1

section

variable (here : (tapeAgreement kind first freeHead).At t 0 facts w)

include here

theorem wp_appendAt
    (idle : facts.own = none) (isFirst : first ∈ facts.known) (member : current ∈ facts.known)
    (pool : ∀ h, freepages = some h → freeHead = some h)
    (fits : ∃ filled i, (Page.clear .last : RPage kind).alloc tuple = some (filled, i)) :
    (tapeAgreement kind first freeHead).protocol.wp t
      (appendAt tag first tuple tracking freepages current)
      (Sum.elim (AppendInv first freeHead t facts) (Appended first freeHead t facts tuple)) w := by
  apply wp_bind.mpr
  apply wp_read here
  intro page w₁ here₁
  split
  next =>
    apply wp_bind.mpr
    apply wp_dropRead here₁ (by simp)
    intro w₂ here₂
    apply wp_bind.mpr
    apply wp_write here₂
    intro page₃ w₃ here₃
    split
    next last =>
      split
      next filled i allocated =>
        apply wp_bind.mpr
        apply wp_alloc here₃ member allocated
        intro w₄ here₄
        apply wp_dropWrite here₄
        intro w₅ here₅
        exact ⟨facts.known, here₅⟩
      next =>
        apply wp_bind.mpr
        exact wp_appendFresh here₃ idle isFirst member last pool fits
    next notLast =>
      obtain ⟨known, learned, firstIn, nextIn⟩ := AppendInv.follow here₃ member notLast
      apply wp_dropWrite learned
      intro w₄ here₄
      exact ⟨known, firstIn, nextIn, here₄⟩
  next notLast =>
    obtain ⟨known, learned, firstIn, nextIn⟩ :=
      AppendInv.follow here₁ member fun last => notLast (.inr last)
    apply wp_dropRead learned (by simp)
    intro w₂ here₂
    exact ⟨known, firstIn, nextIn, here₂⟩

/-- `append` places its tuple in the tape, whatever other threads append meanwhile. -/
theorem wp_append (idle : facts.own = none) (isFirst : first ∈ facts.known)
    (pool : ∀ h, freepages = some h → freeHead = some h ∧ tracking = false)
    (fits : ∃ filled i, (Page.clear .last : RPage kind).alloc tuple = some (filled, i)) :
    (tapeAgreement kind first freeHead).protocol.wp t
      (append tag first tuple tracking freepages) (Appended first freeHead t facts tuple) w := by
  have inv : TapeInv first freeHead w.1.pages w.2 := here.inv
  have inside := (inv.mem_used inv.tape.first_mem).1
  have separate : (tracking && freepages.isSome) = false := by
    cases known : freepages with
    | none => simp
    | some h => simp [(pool h known).2]
  have proper : first ≠ u32Max := Nat.ne_of_lt (inside.trans_le inv.size)
  rw [append, separate, if_neg Bool.false_ne_true, if_neg proper]
  apply wp_loop (AppendInv first freeHead t facts)
  · rintro current w' ⟨known, firstIn, currentIn, here'⟩
    change wp _ t _ (Sum.elim (AppendInv first freeHead t { facts with known := known })
      (Appended first freeHead t { facts with known := known } tuple)) w'
    exact wp_appendAt here' idle firstIn currentIn (fun h isHead => (pool h isHead).1) fits
  · exact ⟨facts.known, isFirst, isFirst, here⟩

end

end

end VectorChord.Vchordrq
