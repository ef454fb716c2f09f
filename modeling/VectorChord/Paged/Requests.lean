import VectorChord.Paged.Logic

/-!
# Rules for single requests

What each request does to the latches and the pages, and the rule that verifies it.

An agreement says what holds of the pages between any two requests, and which facts about
them a thread may rely on.  Latches take care of the rest: a thread knows the content of
every page that it has latched, since nobody else changes it.
-/

namespace VectorChord.Paged

open List Multiset

variable {π τ γ φ α : Type}

namespace Store

variable {s : Store π τ} {t u id : Nat}

theorem readable_iff :
    s.readable id = true ↔ ∀ latch ∈ s.latches, latch.page = id → latch.mode = .share := by
  simp only [readable, all_eq_true, Bool.not_eq_true', Bool.and_eq_false_imp, beq_iff_eq]
  constructor
  · intro free latch member same
    cases mode : latch.mode with
    | share => rfl
    | exclusive => simpa [mode] using free latch member same
  · intro free latch member same
    rw [free latch member same]
    rfl

theorem writable_iff :
    s.writable id = true ↔ ∀ latch ∈ s.latches, latch.page ≠ id := by
  simp [writable]

variable {mode : Mode}

theorem holds_iff :
    s.holds t id mode = true ↔
      ∃ latch ∈ s.latches, latch.holder = t ∧ latch.page = id ∧ latch.mode = mode := by
  simp [holds, isLatch, and_assoc]

variable {latch : Latch τ}

theorem mem_mine : latch ∈ s.mine t ↔ latch ∈ s.latches ∧ latch.holder = t := by
  simp [mine]

theorem mine_acquire_self (own : latch.holder = t) :
    (s.acquire latch).mine t = latch :: s.mine t := by
  simp [mine, acquire, own]

theorem mine_acquire_ne (other : latch.holder ≠ t) : (s.acquire latch).mine t = s.mine t := by
  simp [mine, acquire, other]

theorem mine_release_ne (other : u ≠ t) : (s.release t id mode).mine u = s.mine u := by
  simp only [mine, release]
  induction s.latches with
  | nil => rfl
  | cons latch rest ih =>
    by_cases matching : isLatch t id mode latch = true
    · have owner : latch.holder = t := by
        simp only [isLatch, Bool.and_eq_true, beq_iff_eq] at matching
        exact matching.1.1
      have skipped : (latch.holder == u) = false := by
        rw [owner]
        simpa using Ne.symm other
      rw [eraseP_cons_of_pos matching, filter_cons, skipped]
      rfl
    · rw [eraseP_cons_of_neg matching, filter_cons, filter_cons, ih]

theorem mine_release_self :
    (s.release t id mode).mine t = (s.mine t).eraseP (isLatch t id mode) := by
  simp only [mine, release]
  induction s.latches with
  | nil => rfl
  | cons latch rest ih =>
    by_cases matching : isLatch t id mode latch = true
    · have owner : (latch.holder == t) = true := by
        simp only [isLatch, Bool.and_eq_true] at matching
        exact matching.1.1
      rw [eraseP_cons_of_pos matching, filter_cons, owner, if_pos rfl, eraseP_cons_of_pos matching]
    · rw [eraseP_cons_of_neg matching, filter_cons, filter_cons, ih]
      by_cases owner : (latch.holder == t) = true
      · rw [if_pos owner, if_pos owner, eraseP_cons_of_neg matching]
      · rw [if_neg owner, if_neg owner]

/-- Releasing a latch takes it out of the latches of its holder. -/
theorem coe_mine_release {others : Multiset (Latch τ)}
    (held : (s.mine t : Multiset (Latch τ)) = latch ::ₘ others)
    (matching : isLatch t id mode latch = true)
    (unique : ∀ other ∈ others, isLatch t id mode other = true → other = latch) :
    ((s.release t id mode).mine t : Multiset (Latch τ)) = others := by
  rw [mine_release_self]
  have member : latch ∈ s.mine t := by
    rw [← Multiset.mem_coe, held]
    exact Multiset.mem_cons_self latch others
  rcases exists_of_eraseP member matching with
    ⟨found, front, back, _, found_matching, split, erased⟩
  have perm : (s.mine t : Multiset (Latch τ)) = found ::ₘ (front ++ back : List (Latch τ)) := by
    rw [split]
    exact coe_eq_coe.mpr perm_middle
  have same : found = latch := by
    have inside : found ∈ latch ::ₘ others := by
      rw [← held, perm]
      exact Multiset.mem_cons_self found _
    rcases mem_cons.mp inside with equal | other
    · exact equal
    · exact unique found other found_matching
  rw [erased]
  rw [held, same] at perm
  exact (Multiset.cons_inj_right latch).mp perm.symm

end Store

/-- Two latches on one page are both shared. -/
def Compatible (a b : Latch τ) : Prop :=
  a.page = b.page → a.mode = .share ∧ b.mode = .share

theorem Compatible.symm {a b : Latch τ} (compatible : Compatible a b) : Compatible b a :=
  fun same => (compatible same.symm).symm

instance : Std.Symm (@Compatible τ) := ⟨fun _ _ => Compatible.symm⟩

/-- What the threads agree on about the pages. -/
structure Agreement (π γ φ : Type) where
  /-- Holds between any two requests. -/
  Inv : List π → γ → Prop
  /-- What a thread may rely on. -/
  Fact : Nat → φ → List π → γ → Prop

namespace Agreement

/-- The agreement is kept, and latches on one page are compatible. -/
structure Kept (A : Agreement π γ φ) (w : World π τ γ) : Prop where
  compatible : w.1.latches.Pairwise Compatible
  inside : ∀ latch ∈ w.1.latches, latch.page < w.1.pages.length
  inv : A.Inv w.1.pages w.2

/-- Thread `t` has the latches given, each on a page with the content given, and may rely
on a fact. -/
structure Knows (A : Agreement π γ φ) (t : Nat) (knowledge : Multiset (Latch τ × π) × φ)
    (w : World π τ γ) : Prop where
  latches : (w.1.mine t : Multiset (Latch τ)) = knowledge.1.map Prod.fst
  content : ∀ x ∈ knowledge.1, w.1.pages[x.1.page]? = some x.2
  fact : A.Fact t knowledge.2 w.1.pages w.2

/-- The protocol of an agreement. -/
def protocol (A : Agreement π γ φ) : Protocol π τ γ (Multiset (Latch τ × π) × φ) where
  Inv := A.Kept
  Knows := A.Knows

/-- Where thread `t` is: what it knows, while the agreement is kept. -/
structure At (A : Agreement π γ φ) (t : Nat) (held : Multiset (Latch τ × π)) (fact : φ)
    (w : World π τ γ) : Prop where
  kept : A.Kept w
  knows : A.Knows t (held, fact) w

variable {A : Agreement π γ φ} {t : Nat} {w : World π τ γ} {fact fact' : φ}
  {held : Multiset (Latch τ × π)} {latch : Latch τ} {page : π} {id : Nat} {tag : τ}
  {post : World π τ γ → Prop} {tracking : Bool}

theorem At.relied (here : A.At t held fact w) : A.Fact t fact w.1.pages w.2 := here.knows.fact

theorem At.inv (here : A.At t held fact w) : A.Inv w.1.pages w.2 := here.kept.inv

section

variable (here : A.At t ((latch, page) ::ₘ held) fact w)

include here

theorem At.content :
    w.1.pages[latch.page]? = some page :=
  here.knows.content _ (Multiset.mem_cons_self _ _)

theorem At.mem_latches :
    latch ∈ w.1.latches ∧ latch.holder = t := by
  rw [← Store.mem_mine, ← Multiset.mem_coe, here.knows.latches, Multiset.map_cons]
  exact Multiset.mem_cons_self _ _

theorem At.holds :
    w.1.holds t latch.page latch.mode = true :=
  Store.holds_iff.mpr ⟨latch, here.mem_latches.1, here.mem_latches.2, rfl, rfl⟩

/-- The latches of one thread are compatible as well. -/
theorem At.compatible :
    ∀ x ∈ held, Compatible latch x.1 := by
  induction held using Quotient.inductionOn with
  | _ held =>
    have latches := here.knows.latches
    have order : (w.1.mine t).Perm (latch :: held.map Prod.fst) := coe_eq_coe.mp latches
    have compatible := here.kept.compatible.filter fun latch => latch.holder == t
    have pairs := (order.pairwise_iff Compatible.symm).mp compatible
    intro x member
    exact (pairwise_cons.mp pairs).1 x.1 (mem_map_of_mem member)

end

/-- Nobody else has a latch on a page that is latched exclusively. -/
theorem At.exclusive (here : A.At t ((⟨t, id, .exclusive, tag⟩, page) ::ₘ held) fact w)
    {other : Latch τ} (member : other ∈ w.1.latches) (same : other.page = id) :
    other.holder = t := by
  by_contra different
  have inList := here.mem_latches.1
  have apart : other ≠ ⟨t, id, .exclusive, tag⟩ := by
    rintro rfl
    exact different rfl
  have compatible := here.kept.compatible.forall member inList apart
  cases (compatible same).2

/-- Going on after a request that changes neither pages nor ghost state. -/
theorem next_of_pages (s : Store π τ) {held' : Multiset (Latch τ × π)} (here : A.At t held fact w)
    (pages : s.pages = w.1.pages) (compatible : s.latches.Pairwise Compatible)
    (inside : ∀ latch ∈ s.latches, latch.page < w.1.pages.length)
    (others : ∀ u, u ≠ t → s.mine u = w.1.mine u)
    (mine : (s.mine t : Multiset (Latch τ)) = held'.map Prod.fst)
    (content : ∀ x ∈ held', w.1.pages[x.1.page]? = some x.2)
    (continued : ∀ w', A.At t held' fact w' → post w') : A.protocol.Next t w s post := by
  refine ⟨w.2, ⟨compatible, ?_, ?_⟩, ?_, ?_⟩
  · rw [pages]
    exact inside
  · rw [pages]
    exact here.inv
  · intro u other knowledge knows
    refine ⟨?_, ?_, ?_⟩
    · rw [others u other]
      exact knows.latches
    · rw [pages]
      exact knows.content
    · rw [pages]
      exact knows.fact
  · intro w' relied kept
    refine continued w' ⟨kept, relied (held', fact) ⟨mine, ?_, ?_⟩⟩
    · rw [pages]
      exact content
    · rw [pages]
      exact here.relied

/-- Going on after a latch was taken. -/
theorem next_acquire (s : Store π τ) (here : A.At t held fact w) (own : latch.holder = t)
    (pages : s.pages = w.1.pages) (latches : s.latches = latch :: w.1.latches)
    (free : ∀ other ∈ w.1.latches, Compatible latch other)
    (found : w.1.pages[latch.page]? = some page)
    (continued : ∀ w', A.At t ((latch, page) ::ₘ held) fact w' → post w') :
    A.protocol.Next t w s post := by
  have inside := (List.getElem?_eq_some_iff.mp found).1
  have mine : s.mine t = latch :: w.1.mine t := by
    simp [Store.mine, latches, own]
  apply next_of_pages s here pages _ _ _ _ _ continued
  · rw [latches]
    exact pairwise_cons.mpr ⟨free, here.kept.compatible⟩
  · rw [latches]
    exact forall_mem_cons.mpr ⟨inside, here.kept.inside⟩
  · intro u other
    simp [Store.mine, latches, own, Ne.symm other]
  · rw [mine, Multiset.map_cons, ← here.knows.latches]
    rfl
  · exact forall_mem_cons.mpr ⟨found, here.knows.content⟩

/-- Going on after a latch was released. -/
theorem next_release {mode : Mode} (here : A.At t ((⟨t, id, mode, tag⟩, page) ::ₘ held) fact w)
    (apart : ∀ x ∈ held, x.1.page ≠ id) (continued : ∀ w', A.At t held fact w' → post w') :
    A.protocol.Next t w (w.1.release t id mode) post := by
  apply next_of_pages (w.1.release t id mode) here rfl _ _ _ _ _ continued
  · exact here.kept.compatible.sublist eraseP_sublist
  · intro latch member
    exact here.kept.inside latch (mem_of_mem_eraseP member)
  · intro u other
    exact Store.mine_release_ne other
  · have latches := here.knows.latches
    rw [Multiset.map_cons] at latches
    apply Store.coe_mine_release latches (by simp [Store.isLatch])
    intro other member matching
    rcases mem_map.mp member with ⟨x, inside, rfl⟩
    simp only [Store.isLatch, Bool.and_eq_true, beq_iff_eq] at matching
    exact absurd matching.1.2 (apart x inside)
  · intro x member
    exact here.knows.content x (mem_cons_of_mem member)

theorem wp_read {post : π → World π τ γ → Prop} (here : A.At t held fact w)
    (continued : ∀ page w', A.At t ((⟨t, id, .share, tag⟩, page) ::ₘ held) fact w' → post page w') :
    A.protocol.wp t (Prog.read tag id) post w := by
  refine ⟨by simp, ?_⟩
  intro choice response s' executed
  obtain ⟨found, free, rfl⟩ := exec_read executed
  apply next_acquire (w.1.acquire _) here rfl rfl rfl _ found (continued _)
  intro other member same
  exact ⟨rfl, Store.readable_iff.mp free other member same.symm⟩

theorem wp_write {post : π → World π τ γ → Prop} (here : A.At t held fact w)
    (continued : ∀ page w', A.At t ((⟨t, id, .exclusive, tag⟩, page) ::ₘ held) fact w' →
      post page w') : A.protocol.wp t (Prog.write tag id tracking) post w := by
  refine ⟨by simp, ?_⟩
  intro choice response s' executed
  obtain ⟨found, free, rfl⟩ := exec_write executed
  apply next_acquire ((w.1.acquire _).track id tracking) here rfl rfl rfl _ found (continued _)
  intro other member same
  exact absurd same.symm (Store.writable_iff.mp free other member)

theorem wp_dropRead {post : Unit → World π τ γ → Prop}
    (here : A.At t ((⟨t, id, .share, tag⟩, page) ::ₘ held) fact w)
    (apart : ∀ x ∈ held, x.1.page ≠ id) (continued : ∀ w', A.At t held fact w' → post () w') :
    A.protocol.wp t (Prog.dropRead id) post w := by
  refine ⟨by simp, ?_⟩
  intro choice response s' executed
  simp only [exec, here.holds, if_true] at executed
  cases executed
  exact next_release here apart continued

section

variable (here : A.At t ((⟨t, id, .exclusive, tag⟩, page) ::ₘ held) fact w)

include here

/-- A page that is latched exclusively has no other latch. -/
theorem At.apart :
    ∀ x ∈ held, x.1.page ≠ id := by
  intro x member same
  cases (here.compatible x member same.symm).1

theorem wp_dropWrite {post : Unit → World π τ γ → Prop}
    (continued : ∀ w', A.At t held fact w' → post () w') :
    A.protocol.wp t (Prog.dropWrite id) post w := by
  refine ⟨by simp, ?_⟩
  intro choice response s' executed
  simp only [exec, here.holds, if_true] at executed
  cases executed
  exact next_release here here.apart continued

end

/-- A page that is latched exclusively gets new content; what other threads rely on stays
true. -/
theorem wp_put {new : π} {post : Unit → World π τ γ → Prop} (ghost : γ)
    (here : A.At t ((⟨t, id, .exclusive, tag⟩, page) ::ₘ held) fact w)
    (inv : A.Inv (w.1.pages.set id new) ghost)
    (others : ∀ u, u ≠ t → ∀ fact, A.Fact u fact w.1.pages w.2 →
      A.Fact u fact (w.1.pages.set id new) ghost)
    (holds : A.Fact t fact' (w.1.pages.set id new) ghost)
    (continued : ∀ w', A.At t ((⟨t, id, .exclusive, tag⟩, new) ::ₘ held) fact' w' → post () w') :
    A.protocol.wp t (Prog.put id new) post w := by
  refine ⟨by simp, ?_⟩
  intro choice response s' executed
  simp only [exec, here.holds, if_true] at executed
  cases executed
  have inside := (List.getElem?_eq_some_iff.mp here.content).1
  refine ⟨ghost, ⟨here.kept.compatible, ?_, inv⟩, ?_, ?_⟩
  · intro latch member
    rw [show (w.1.putPage id new).pages.length = _ from length_set]
    exact here.kept.inside latch member
  · intro u other knowledge knows
    refine ⟨knows.latches, ?_, others u other _ knows.fact⟩
    intro x member
    have latched : x.1 ∈ w.1.mine u := by
      rw [← Multiset.mem_coe, knows.latches]
      exact mem_map_of_mem _ member
    rw [Store.mem_mine] at latched
    have apart : x.1.page ≠ id := fun same =>
      other (latched.2.symm.trans (here.exclusive latched.1 same))
    exact (getElem?_set_ne (Ne.symm apart)).trans (knows.content x member)
  · intro w' relied kept
    refine continued w' ⟨kept, relied (_, fact') ⟨?_, ?_, holds⟩⟩
    · rw [Multiset.map_cons]
      exact here.knows.latches.trans (Multiset.map_cons _ _ _)
    · intro x member
      rcases mem_cons.mp member with rfl | other
      · exact getElem?_set_self inside
      · exact (getElem?_set_ne (Ne.symm (here.apart x other))).trans
          (here.knows.content x (mem_cons_of_mem other))

/-- A page is added and latched exclusively. -/
theorem wp_extend {new : π} {post : Nat → World π τ γ → Prop} (ghost : γ)
    (here : A.At t held fact w)
    (inv : w.1.pages.length < invalidPage → A.Inv (w.1.pages ++ [new]) ghost)
    (others : ∀ u, u ≠ t → ∀ fact, A.Fact u fact w.1.pages w.2 →
      A.Fact u fact (w.1.pages ++ [new]) ghost) (holds : A.Fact t fact' (w.1.pages ++ [new]) ghost)
    (continued : ∀ w', A.At t ((⟨t, w.1.pages.length, .exclusive, tag⟩, new) ::ₘ held) fact' w' →
      post w.1.pages.length w') : A.protocol.wp t (Prog.extend tag new tracking) post w := by
  refine ⟨by simp, ?_⟩
  intro choice response s' executed
  simp only [exec] at executed
  split at executed
  next room =>
    cases executed
    have before : ∀ {id : Nat} {content : π}, w.1.pages[id]? = some content →
        (w.1.pages ++ [new])[id]? = some content := by
      intro id content found
      rw [List.getElem?_append_left (List.getElem?_eq_some_iff.mp found).1]
      exact found
    refine ⟨ghost, ⟨?_, ?_, inv room⟩, ?_, ?_⟩
    · refine pairwise_cons.mpr ⟨?_, here.kept.compatible⟩
      intro other member same
      exact absurd (here.kept.inside other member) (same ▸ lt_irrefl _)
    · have longer : (w.1.pages ++ [new]).length = w.1.pages.length + 1 := by simp
      refine forall_mem_cons.mpr ⟨longer ▸ Nat.lt_succ_self _, ?_⟩
      intro latch member
      exact longer ▸ Nat.lt_succ_of_lt (here.kept.inside latch member)
    · intro u other knowledge knows
      refine ⟨?_, fun x member => before (knows.content x member), others u other _ knows.fact⟩
      exact (congrArg _ (Store.mine_acquire_ne (Ne.symm other))).trans knows.latches
    · intro w' relied kept
      refine continued w' ⟨kept, relied (_, fact') ⟨?_, ?_, holds⟩⟩
      · rw [Multiset.map_cons, ← here.knows.latches]
        exact congrArg _ (Store.mine_acquire_self rfl)
      · intro x member
        rcases mem_cons.mp member with rfl | other
        · simp [Store.acquire, Store.addPage, Store.track]
        · exact before (here.knows.content x other)
  next => cases executed

end Agreement

end VectorChord.Paged
