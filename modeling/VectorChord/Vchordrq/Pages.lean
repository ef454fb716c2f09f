import VectorChord.Paged.Chain
import VectorChord.Vchordrq.Contents

/-!
# Pages of a store

The pages of a tape are linked by `next`, and the first one also has in `skip` the id of
some page of the tape, from which an append goes on.
-/

namespace VectorChord.Vchordrq

open Index Paged List

variable {kind : VectorKind}

abbrev RStore (kind : VectorKind) := Store (RPage kind) Tag

def pageAt (s : RStore kind) (id : Nat) : RPage kind := s.pages.getD id (Page.clear .last)

def nextAt (page : Nat → RPage kind) (id : Nat) : Nat := (page id).special.next

theorem getElem?_pages {s : RStore kind} {id : Nat} (inside : id < s.pages.length) :
    s.pages[id]? = some (pageAt s id) := by
  simp [pageAt, inside]

section

variable (page : RPage kind)

include page

@[simp] theorem next_setNext (next : Nat) :
    (setNext page next).special.next = next := rfl

@[simp] theorem skip_setNext (next : Nat) :
    (setNext page next).special.skip = page.special.skip := rfl

@[simp] theorem next_setSkip (skip : Nat) :
    (setSkip page skip).special.next = page.special.next := rfl

end

/-! ## Tapes -/

/-- A tape that can be appended to. -/
structure TapeOk (page : Nat → RPage kind) (ids : List Nat) (first : Nat) : Prop where
  head : ids.head? = some first
  linked : Linked (nextAt page) u32Max ids
  skip : (page first).special.skip ∈ ids

section
variable {page page' : Nat → RPage kind} {ids : List Nat} {first : Nat}

theorem TapeOk.first_mem (ok : TapeOk page ids first) : first ∈ ids :=
  mem_of_mem_head? ok.head

theorem TapeOk.congr (ok : TapeOk page ids first) (same : ∀ id ∈ ids, page' id = page id) :
    TapeOk page' ids first where
  head := ok.head
  linked := ok.linked.congr fun id member => by rw [nextAt, nextAt, same id member]
  skip := by rw [same first ok.first_mem]; exact ok.skip

/-- A page of a tape is rewritten; only the first page may get a new `skip`. -/
theorem TapeOk.put (ok : TapeOk page ids first) {id : Nat} {new : RPage kind}
    (next : new.special.next = (page id).special.next)
    (skip : id = first → new.special.skip ∈ ids) :
    TapeOk (Function.update page id new) ids first where
  head := ok.head
  linked := by
    refine ok.linked.congr ?_
    intro x _
    by_cases same : x = id
    · subst same
      simp [nextAt, next]
    · simp [nextAt, same]
  skip := by
    by_cases same : id = first
    · subst same
      simpa using skip rfl
    · rw [Function.update_of_ne (Ne.symm same)]
      exact ok.skip

/-- A fresh page is linked to the last page of a tape. -/
theorem TapeOk.link {front : List Nat} {last fresh : Nat}
    (ok : TapeOk page (front ++ [last]) first) (nodup : (front ++ [last]).Nodup)
    (apart : fresh ∉ front ++ [last]) (ends : (page fresh).special.next = u32Max) :
    TapeOk (Function.update page last (setNext (page last) fresh))
      (front ++ [last] ++ [fresh]) first where
  head := by
    rw [List.head?_append, ok.head]
    rfl
  linked := by
    have different : fresh ≠ last := fun same => apart (by simp [same])
    refine ok.linked.concat (by simp [nextAt]) (by simp [nextAt, different, ends]) ?_
    intro x member
    have distinct : x ≠ last := by
      intro same
      have disjoint := (nodup_append.mp nodup).2.2
      exact disjoint x member last (by simp) same
    simp [nextAt, distinct]
  skip := by
    refine mem_append_left _ ?_
    by_cases same : first = last
    · subst same
      simpa using ok.skip
    · rw [Function.update_of_ne same]
      exact ok.skip

end

theorem TapeOk.follow_mem {page : Nat → RPage kind} {ids : List Nat} {first current : Nat}
    (tape : TapeOk page ids first) (nodup : ids.Nodup) (member : current ∈ ids)
    (notLast : (page current).special.next ≠ u32Max) :
    follow first current (page current).special ∈ ids ∧
      ids.idxOf current < ids.idxOf (follow first current (page current).special) := by
  unfold follow
  split
  next jumps =>
    rcases jumps with ⟨rfl, other⟩
    refine ⟨tape.skip, ?_⟩
    have head := tape.head
    cases ids with
    | nil => cases head
    | cons id rest =>
      have isFirst : id = current := by simpa using head
      rw [isFirst, idxOf_cons_self, idxOf_cons_ne _ (Ne.symm other)]
      exact Nat.succ_pos _
  next =>
    rcases append_of_mem member with ⟨front, back, rfl⟩
    have link := (linked_append.mp tape.linked).2.1
    cases back with
    | nil => exact absurd link notLast
    | cons id rest =>
      have isNext : (page current).special.next = id := link
      rw [isNext]
      refine ⟨by simp, ?_⟩
      have apart := nodup_append.mp nodup
      have notFront : ∀ x ∈ current :: id :: rest, x ∉ front := fun x inside inFront =>
        apart.2.2 x inFront x inside rfl
      have distinct : current ≠ id := by
        rintro rfl
        simp at apart
      rw [idxOf_append_of_notMem (notFront current (by simp)),
        idxOf_append_of_notMem (notFront id (by simp)), idxOf_cons_self,
        idxOf_cons_ne _ distinct, idxOf_cons_self]
      omega

end VectorChord.Vchordrq
