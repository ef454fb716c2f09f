import VectorChord.Collections.Heap
import VectorChord.Collections.Table

/-!
# Page candidates

Every token of a query has been searched for in the index.  A page that some token has hit
is a candidate: its value is the sum over all tokens of the least distance at which the
token has hit the page, or of an estimation where it has not.  The generator collects the
distances in one array with a row for every page, in the order in which pages are first hit.

Distances are exact numbers here, with a sum that does not round; `INFINITY` and
`NEG_INFINITY` are the ends of their order.
-/

namespace VectorChord.Maxsim

/-- `HeapKey`: the block and the offset of a row, three `u16` that are compared as an array. -/
abbrev HeapKey := Fin (2 ^ 16) ×ₗ Fin (2 ^ 16) ×ₗ Fin (2 ^ 16)

/-- `as u16`. -/
def word (x : Nat) : Fin (2 ^ 16) := Fin.ofNat _ x

/-- `PageCandidate`. -/
structure PageCandidate (δ : Type) where
  approximateDistance : δ
  heapKey : HeapKey

namespace Candidates

open Collections List Sorting

/-- `pointer_to_kv`. -/
def pointerToKv (pointer : BitVec 64) : HeapKey × Fin (2 ^ 16) :=
  let part := fun x : BitVec 64 => word (x &&& 0xffff).toNat
  (toLex (part (pointer >>> 48), toLex (part (pointer >>> 32), part (pointer >>> 16))),
    part pointer)

variable {δ : Type}

/-- A hit of a token: its distance and the pointer that the index has for it. -/
abbrev TokenCandidate (δ : Type) := δ × BitVec 64

/-- The page that was hit. -/
def pageOf (hit : TokenCandidate δ) : HeapKey := (pointerToKv hit.2).1

/-- What the search for a token has found. -/
structure TokenSearchResult (δ : Type) where
  accuSet : List (TokenCandidate δ)
  roughSet : List (TokenCandidate δ)
  estimationByThreshold : δ

/-- The variables of `generate`. -/
structure Pages (δ : Type) where
  pageLookup : Table HeapKey Nat
  pageKeys : List HeapKey
  bestByPageQuery : List (Option δ)
  estimations : List δ

def Pages.new : Pages δ := ⟨∅, [], [], []⟩

section
variable [LinearOrder δ] [BoundedOrder δ] [AddCommMonoid δ]

/-- The row of a page, which is new if the page has not been hit before. -/
def rowOf (queryCount : Nat) (key : HeapKey) (pages : Pages δ) : Nat × Pages δ :=
  match pages.pageLookup.lookup key with
  | some pageIndex => (pageIndex, pages)
  | none =>
    (pages.pageKeys.length,
      { pages with
        pageLookup := pages.pageLookup.insert key pages.pageKeys.length
        pageKeys := pages.pageKeys ++ [key]
        bestByPageQuery := pages.bestByPageQuery ++ List.replicate queryCount none })

/-- The result is `none` where the source would panic. -/
def recordPageTokenDistance (queryCount queryId : Nat) (pages : Pages δ)
    (hit : TokenCandidate δ) : Option (Pages δ) := do
  let (pageIndex, pages) := rowOf queryCount (pageOf hit) pages
  let slot := pageIndex * queryCount + queryId
  let best ← pages.bestByPageQuery[slot]?
  return { pages with
    bestByPageQuery := pages.bestByPageQuery.set slot (some (min (best.getD ⊤) hit.1)) }

/-- What stands for a token on the pages that it has not hit. -/
def TokenSearchResult.estimation (search : TokenSearchResult δ) : δ :=
  let estimationByScope := search.accuSet.foldl (fun most hit => max most hit.1) ⊥
  if !(search.accuSet.isEmpty && search.roughSet.isEmpty) then
    max estimationByScope search.estimationByThreshold
  else 0

/-- One iteration of the loop over the searches. -/
def addToken (queryCount : Nat) (pages : Pages δ) (token : TokenSearchResult δ × Nat) :
    Option (Pages δ) := do
  let (search, queryId) := token
  let pages ← search.accuSet.foldlM (recordPageTokenDistance queryCount queryId) pages
  let pages ← search.roughSet.foldlM (recordPageTokenDistance queryCount queryId) pages
  return { pages with estimations := pages.estimations ++ [search.estimation] }

/-- The sum of a row. -/
def maxsim (estimations : List δ) (values : List (Option δ)) : Option δ :=
  values.zipIdx.foldlM (fun total value => do
    return total + value.1.getD (← estimations[value.2]?)) 0

/-- `PageCandidates`: a heap with the least value on top. -/
structure PageCandidates (δ : Type) where
  inner : List (δ × HeapKey)
  remaining : Nat

/-- The value of a page and its key. -/
def aggregate (queryCount : Nat) (pages : Pages δ) (pageIndex : Nat) : Option (δ × HeapKey) := do
  let key ← pages.pageKeys[pageIndex]?
  let start := pageIndex * queryCount
  guard (start + queryCount ≤ pages.bestByPageQuery.length)
  let total ← maxsim pages.estimations ((pages.bestByPageQuery.drop start).take queryCount)
  return (total, key)

section
variable [Heap] [Sorting]

def generate (queryCount : Nat) (tokenSearches : List (TokenSearchResult δ))
    (candidateLimit : Nat) : Option (PageCandidates δ) := do
  let pages ← tokenSearches.zipIdx.foldlM (addToken queryCount) Pages.new
  let pageOrder := Sorting.sort (fun pageIndex => pages.pageKeys.getD pageIndex default)
    (List.range pages.pageKeys.length)
  return ⟨← pageOrder.mapM (aggregate queryCount pages), candidateLimit⟩

def PageCandidates.next (candidates : PageCandidates δ) :
    Option (PageCandidate δ × PageCandidates δ) :=
  if candidates.remaining = 0 then none
  else do
    let (top, inner) ← Heap.pop (fun item => OrderDual.toDual item.1) candidates.inner
    return (⟨top.1, top.2⟩, ⟨inner, candidates.remaining - 1⟩)

/-- All candidates; every one of them counts `remaining` down. -/
def PageCandidates.collect (candidates : PageCandidates δ) : List (PageCandidate δ) :=
  go candidates.remaining candidates
where
  go : Nat → PageCandidates δ → List (PageCandidate δ)
    | 0, _ => []
    | fuel + 1, candidates =>
      match candidates.next with
      | none => []
      | some (candidate, candidates) => candidate :: go fuel candidates

end

/-! ## What the candidates should be -/

/-- All hits of a token. -/
def TokenSearchResult.hits (search : TokenSearchResult δ) : List (TokenCandidate δ) :=
  search.accuSet ++ search.roughSet

/-- The distances at which a page was hit. -/
def distancesOn (hits : List (TokenCandidate δ)) (key : HeapKey) : List δ :=
  (hits.filter fun hit => pageOf hit = key).map Prod.fst

/-- The least distance at which a token has hit a page, or the estimation. -/
def TokenSearchResult.value (search : TokenSearchResult δ) (key : HeapKey) : δ :=
  (distancesOn search.hits key).min?.getD search.estimation

/-- The pages that some token has hit. -/
def hitPages (searches : List (TokenSearchResult δ)) : Finset HeapKey :=
  (searches.flatMap fun search => search.hits.map pageOf).toFinset

def pageValue (searches : List (TokenSearchResult δ)) (key : HeapKey) : δ :=
  (searches.map fun search => search.value key).sum

/-- The same hits in some order and division, with the same estimation. -/
def SameHits (search search' : TokenSearchResult δ) : Prop :=
  search.hits.Perm search'.hits ∧ search.estimation = search'.estimation

end

/-! ## Collecting the distances -/

variable [LinearOrder δ] [BoundedOrder δ]

/-- The least distances that have been noted, by token and page. -/
abbrev Best (δ : Type) := Nat → HeapKey → Option δ

/-- The rows of the array hold the distances noted. -/
structure Rows (queryCount : Nat) (best : Best δ) (pages : Pages δ) : Prop where
  lookup : ∀ key i, pages.pageLookup.lookup key = some i ↔ pages.pageKeys[i]? = some key
  length : pages.bestByPageQuery.length = pages.pageKeys.length * queryCount
  slots : ∀ i key q, pages.pageKeys[i]? = some key → q < queryCount →
    pages.bestByPageQuery[i * queryCount + q]? = some (best q key)
  unlisted : ∀ key q, key ∉ pages.pageKeys → best q key = none

variable {queryCount : Nat} {best : Best δ} {pages : Pages δ}

omit [LinearOrder δ] [BoundedOrder δ] in
/-- A page gets a row if it has none. -/
theorem Rows.rowOf (rows : Rows queryCount best pages) (key : HeapKey) :
    Rows queryCount best (rowOf queryCount key pages).2 ∧
      (rowOf queryCount key pages).2.pageKeys[(rowOf queryCount key pages).1]? = some key ∧
      (∀ other, other ∈ (rowOf queryCount key pages).2.pageKeys ↔
        other ∈ pages.pageKeys ∨ other = key) ∧
      (rowOf queryCount key pages).2.estimations = pages.estimations := by
  rw [Candidates.rowOf]
  split
  next i found =>
    have listed := (rows.lookup key i).mp found
    refine ⟨rows, listed, ?_, rfl⟩
    intro other
    constructor
    · exact .inl
    · rintro (old | rfl)
      · exact old
      · exact mem_of_getElem? listed
  next absent =>
    have new : key ∉ pages.pageKeys := by
      intro listed
      obtain ⟨i, found⟩ := getElem?_of_mem listed
      rw [(rows.lookup key i).mpr found] at absent
      cases absent
    refine ⟨⟨?_, ?_, ?_, ?_⟩, ?_, ?_, rfl⟩
    · intro other i
      rw [Table.lookup_insert_iff, rows.lookup, getElem?_append]
      grind
    · simp [rows.length, Nat.add_mul]
    · intro i other q found inside
      have size := rows.length
      rw [getElem?_append] at found ⊢
      by_cases old : i < pages.pageKeys.length
      · have slot : i * queryCount + q < pages.bestByPageQuery.length := by
          rw [size]
          exact Nat.lt_of_lt_of_le (Nat.add_lt_add_left inside _)
            (Nat.succ_mul i queryCount ▸ Nat.mul_le_mul_right queryCount old)
        rw [if_pos old] at found
        rw [if_pos slot]
        exact rows.slots i other q found inside
      · rw [if_neg old, getElem?_singleton] at found
        split at found
        next last =>
          cases found
          have isLast : i = pages.pageKeys.length := by omega
          subst isLast
          rw [if_neg (by omega), size, Nat.add_sub_cancel_left, getElem?_replicate,
            if_pos inside, rows.unlisted key q new]
        next => cases found
    · intro other q unlisted
      exact rows.unlisted other q fun old => unlisted (mem_append_left _ old)
    · simp
    · intro other
      simp

/-- What is noted after a hit. -/
def noteHit (queryId : Nat) (best : Best δ) (hit : TokenCandidate δ) : Best δ := fun q key =>
  if q = queryId ∧ key = pageOf hit then some (min ((best q key).getD ⊤) hit.1) else best q key

theorem slot_inj {count i j q r : Nat} (inQ : q < count) (inR : r < count) :
    i * count + q = j * count + r ↔ i = j ∧ q = r := by
  constructor
  · intro same
    have quotient := congrArg (· / count) same
    have remainder := congrArg (· % count) same
    have positive : 0 < count := Nat.zero_lt_of_lt inQ
    simp only [mul_comm _ count, Nat.mul_add_div positive, Nat.div_eq_of_lt inQ,
      Nat.div_eq_of_lt inR, add_zero] at quotient
    simp only [mul_comm _ count, Nat.mul_add_mod, Nat.mod_eq_of_lt inQ,
      Nat.mod_eq_of_lt inR] at remainder
    exact ⟨quotient, remainder⟩
  · rintro ⟨rfl, rfl⟩
    rfl

/-- What a step over some hits of a token does to the variables. -/
structure Noted (queryCount queryId : Nat) (best : Best δ) (hits : List (TokenCandidate δ))
    (pages pages' : Pages δ) : Prop where
  rows : Rows queryCount (hits.foldl (noteHit queryId) best) pages'
  keys : ∀ key, key ∈ pages'.pageKeys ↔ key ∈ pages.pageKeys ∨ key ∈ hits.map pageOf
  estimations : pages'.estimations = pages.estimations

theorem Rows.record {queryId : Nat} (rows : Rows queryCount best pages)
    (inside : queryId < queryCount) (hit : TokenCandidate δ) :
    ∃ pages', recordPageTokenDistance queryCount queryId pages hit = some pages' ∧
      Noted queryCount queryId best [hit] pages pages' := by
  obtain ⟨rows', listed, keys, estimations⟩ := rows.rowOf (pageOf hit)
  rw [recordPageTokenDistance]
  generalize Candidates.rowOf queryCount (pageOf hit) pages = row at rows' listed keys estimations
  obtain ⟨i, pages'⟩ := row
  have slot := rows'.slots i (pageOf hit) queryId listed inside
  simp only [slot, Option.bind_eq_bind, Option.bind_some]
  refine ⟨_, rfl, ⟨rows'.lookup, by simpa using rows'.length, ?_, ?_⟩, by simpa using keys,
    estimations⟩
  · intro j key q found inQ
    have sameRow : key = pageOf hit ↔ j = i := by
      constructor
      · rintro rfl
        have known := (rows'.lookup (pageOf hit) i).mpr listed
        rw [(rows'.lookup (pageOf hit) j).mpr found] at known
        exact Option.some.inj known
      · rintro rfl
        exact Option.some.inj (found.symm.trans listed)
    have slots := rows'.slots j key q found inQ
    rw [getElem?_set, foldl_cons, foldl_nil, noteHit]
    by_cases here : i = j ∧ queryId = q
    · obtain ⟨rfl, rfl⟩ := here
      rw [if_pos rfl, if_pos (List.getElem?_eq_some_iff.mp slot).1, if_pos ⟨rfl, sameRow.mpr rfl⟩,
        sameRow.mpr rfl]
    · rw [if_neg (fun same => here ((slot_inj inside inQ).mp same)),
        if_neg (fun same => here ⟨(sameRow.mp same.2).symm, same.1.symm⟩)]
      exact slots
  · intro key q unlisted
    have other : key ≠ pageOf hit := by
      rintro rfl
      exact unlisted (mem_of_getElem? listed)
    rw [foldl_cons, foldl_nil, noteHit, if_neg (fun same => other same.2)]
    exact rows'.unlisted key q unlisted

theorem Rows.recordAll {queryId : Nat} (rows : Rows queryCount best pages)
    (inside : queryId < queryCount) (hits : List (TokenCandidate δ)) :
    ∃ pages', hits.foldlM (recordPageTokenDistance queryCount queryId) pages = some pages' ∧
      Noted queryCount queryId best hits pages pages' := by
  induction hits generalizing best pages with
  | nil => exact ⟨pages, rfl, rows, by simp, rfl⟩
  | cons hit hits ih =>
    obtain ⟨pages₁, first, noted⟩ := rows.record inside hit
    obtain ⟨pages₂, others, later⟩ := ih noted.rows
    refine ⟨pages₂, ?_, later.rows, ?_, later.estimations.trans noted.estimations⟩
    · rw [foldlM_cons, first]
      exact others
    · intro key
      rw [later.keys, noted.keys]
      simp [or_assoc]

/-- What the hits of one token come to. -/
theorem foldl_noteHit (queryId : Nat) (hits : List (TokenCandidate δ)) (best : Best δ) (q : Nat)
    (key : HeapKey) : hits.foldl (noteHit queryId) best q key =
      if q = queryId then ((best q key).toList ++ distancesOn hits key).min? else best q key := by
  induction hits generalizing best with
  | nil => cases same : best q key <;> simp [distancesOn, same]
  | cons hit hits ih =>
    rw [foldl_cons, ih, noteHit]
    by_cases mine : q = queryId
    · subst mine
      by_cases here : pageOf hit = key
      · subst here
        have split : distancesOn (hit :: hits) (pageOf hit) =
            hit.1 :: distancesOn hits (pageOf hit) := by simp [distancesOn]
        rw [split, if_pos rfl, if_pos rfl, if_pos ⟨rfl, rfl⟩]
        cases best q (pageOf hit) with
        | none => simp
        | some least => rfl
      · simp [distancesOn, here, Ne.symm here]
    · simp [mine]

/-- The least distances of the tokens that have been looked at. -/
def bestAt (searches : List (TokenSearchResult δ)) : Best δ := fun q key =>
  searches[q]?.bind fun search => (distancesOn search.hits key).min?

theorem bestAt_concat (searches : List (TokenSearchResult δ)) (search : TokenSearchResult δ) :
    search.hits.foldl (noteHit searches.length) (bestAt searches) =
      bestAt (searches ++ [search]) := by
  funext q key
  rw [foldl_noteHit, bestAt, bestAt, getElem?_append]
  by_cases last : q = searches.length
  · subst last
    simp
  · rw [if_neg last]
    by_cases old : q < searches.length
    · rw [if_pos old]
    · have behind : q - searches.length ≠ 0 := by omega
      simp [old, behind]

variable [AddCommMonoid δ] {searches : List (TokenSearchResult δ)}

/-- The variables when some searches have been looked at. -/
structure Processed (queryCount : Nat) (searches : List (TokenSearchResult δ)) (pages : Pages δ) :
    Prop where
  rows : Rows queryCount (bestAt searches) pages
  keys : ∀ key, key ∈ pages.pageKeys ↔ key ∈ hitPages searches
  estimations : pages.estimations = searches.map TokenSearchResult.estimation

theorem Processed.addToken (processed : Processed queryCount searches pages)
    (inside : searches.length < queryCount) (search : TokenSearchResult δ) :
    ∃ pages', addToken queryCount pages (search, searches.length) = some pages' ∧
      Processed queryCount (searches ++ [search]) pages' := by
  obtain ⟨pages₁, accurate, noted⟩ := processed.rows.recordAll inside search.accuSet
  obtain ⟨pages₂, rough, later⟩ := noted.rows.recordAll inside search.roughSet
  refine ⟨{ pages₂ with estimations := pages₂.estimations ++ [search.estimation] }, ?_, ?_, ?_, ?_⟩
  · simp [Candidates.addToken, accurate, rough]
  · have rows := later.rows
    rw [← foldl_append] at rows
    change Rows queryCount (search.hits.foldl _ _) pages₂ at rows
    rw [bestAt_concat] at rows
    exact ⟨rows.lookup, rows.length, rows.slots, rows.unlisted⟩
  · intro key
    rw [later.keys, noted.keys, processed.keys]
    simp [hitPages, TokenSearchResult.hits, or_assoc]
  · simp [later.estimations, noted.estimations, processed.estimations]

theorem Processed.addTokens (processed : Processed queryCount searches pages)
    (others : List (TokenSearchResult δ)) (inside : searches.length + others.length ≤ queryCount) :
    ∃ pages', (others.zipIdx searches.length).foldlM (Candidates.addToken queryCount) pages =
      some pages' ∧ Processed queryCount (searches ++ others) pages' := by
  induction others generalizing searches pages with
  | nil => exact ⟨pages, rfl, (append_nil searches).symm ▸ processed⟩
  | cons search others ih =>
    rw [length_cons] at inside
    obtain ⟨pages₁, first, next⟩ := processed.addToken (by omega) search
    have room : (searches ++ [search]).length + others.length ≤ queryCount := by
      rw [length_append, length_singleton]
      omega
    obtain ⟨pages₂, rest, last⟩ := ih next room
    rw [length_append, length_singleton] at rest
    rw [append_assoc] at last
    refine ⟨pages₂, ?_, last⟩
    rw [zipIdx_cons, foldlM_cons, first]
    exact rest

omit [BoundedOrder δ] [AddCommMonoid δ] in
theorem min?_eq_of_perm {distances distances' : List δ} (same : distances.Perm distances') :
    distances.min? = distances'.min? := by
  cases least : distances.min? with
  | none =>
    rw [min?_eq_none_iff] at least
    subst least
    rw [same.symm.eq_nil]
    rfl
  | some distance =>
    rw [min?_eq_some_iff] at least
    symm
    rw [min?_eq_some_iff]
    exact ⟨same.mem_iff.mp least.1, fun other member => least.2 other (same.mem_iff.mpr member)⟩

/-! ## Adding up the rows -/

theorem maxsim_eq (tokens : List (TokenSearchResult δ)) (value : TokenSearchResult δ → Option δ) :
    maxsim (tokens.map TokenSearchResult.estimation) (tokens.map value) =
      some (tokens.map fun token => (value token).getD token.estimation).sum := by
  suffices added : ∀ (front back : List (TokenSearchResult δ)) (total : δ),
      ((back.map value).zipIdx front.length).foldlM (fun total value => do
        return total + value.1.getD
          (← ((front ++ back).map TokenSearchResult.estimation)[value.2]?)) total =
      some (total + (back.map fun token => (value token).getD token.estimation).sum) by
    simpa [maxsim] using added [] tokens 0
  intro front back total
  induction back generalizing front total with
  | nil => simp
  | cons token back ih =>
    have rest := ih (front ++ [token]) (total + (value token).getD token.estimation)
    rw [append_assoc, singleton_append, length_append, length_singleton] at rest
    have here : ((front ++ token :: back).map TokenSearchResult.estimation)[front.length]? =
        some token.estimation := by simp
    rw [map_cons, zipIdx_cons, foldlM_cons]
    simp only [here, Option.bind_eq_bind, Option.bind_some, Option.pure_def]
    simp only [Option.bind_eq_bind, Option.pure_def] at rest
    rw [rest, map_cons, sum_cons, add_assoc]

theorem Processed.aggregate (processed : Processed searches.length searches pages) {i : Nat}
    {key : HeapKey} (listed : pages.pageKeys[i]? = some key) :
    aggregate searches.length pages i = some (pageValue searches key, key) := by
  have size := processed.rows.length
  have inside := (List.getElem?_eq_some_iff.mp listed).1
  have row : i * searches.length + searches.length ≤ pages.bestByPageQuery.length := by
    rw [size, ← Nat.succ_mul]
    exact Nat.mul_le_mul_right _ inside
  have values : (pages.bestByPageQuery.drop (i * searches.length)).take searches.length =
      searches.map fun search => (distancesOn search.hits key).min? := by
    apply ext_getElem?
    intro q
    rw [getElem?_take, getElem?_map]
    split
    next inRow =>
      rw [getElem?_drop, processed.rows.slots i key q listed inRow, bestAt,
        getElem?_eq_getElem inRow]
      rfl
    next outside =>
      rw [getElem?_eq_none (Nat.le_of_not_lt outside)]
      rfl
  simp only [Candidates.aggregate, listed, Option.bind_eq_bind, Option.bind_some, values,
    processed.estimations, maxsim_eq, guard, if_pos row]
  rfl

omit [LinearOrder δ] [BoundedOrder δ] [AddCommMonoid δ] in
theorem Rows.nodup (rows : Rows queryCount best pages) : pages.pageKeys.Nodup := by
  rw [nodup_iff_injective_getElem]
  intro i j same
  have atI := (rows.lookup _ i.1).mpr (getElem?_eq_getElem i.2)
  have atJ := (rows.lookup _ j.1).mpr (getElem?_eq_getElem j.2)
  have known : pages.pageKeys[i.1] = pages.pageKeys[j.1] := same
  rw [known, atJ] at atI
  exact Fin.ext (Option.some.inj atI).symm

theorem mapM_eq_some {α β : Type} {f : α → Option β} {g : α → β} {items : List α}
    (each : ∀ item ∈ items, f item = some (g item)) : items.mapM f = some (items.map g) := by
  induction items with
  | nil => rfl
  | cons item items ih =>
    have rest := ih fun other member => each other (mem_cons_of_mem item member)
    rw [mapM_cons, each item mem_cons_self, rest]
    rfl

variable {searches' : List (TokenSearchResult δ)}

theorem SameHits.hitPages (same : List.Forall₂ SameHits searches searches') :
    hitPages searches = hitPages searches' := by
  ext key
  simp only [Candidates.hitPages, mem_toFinset]
  induction same with
  | nil => rfl
  | cons alike _ ih =>
    rw [flatMap_cons, flatMap_cons, mem_append, mem_append, ih, (alike.1.map pageOf).mem_iff]

theorem SameHits.pageValue (same : List.Forall₂ SameHits searches searches') (key : HeapKey) :
    pageValue searches key = pageValue searches' key := by
  simp only [Candidates.pageValue]
  induction same with
  | nil => rfl
  | cons alike _ ih =>
    have least := min?_eq_of_perm ((alike.1.filter fun hit => pageOf hit = key).map Prod.fst)
    rw [map_cons, map_cons, sum_cons, sum_cons, ih,
      TokenSearchResult.value, TokenSearchResult.value, distancesOn, least, alike.2]
    rfl

section
variable [Sorting]

/-- The rows in the order of their keys. -/
theorem Processed.order {searches : List (TokenSearchResult δ)} {pages : Pages δ} {queryCount : Nat}
    (processed : Processed queryCount searches pages) :
    (Sorting.sort (fun i => pages.pageKeys.getD i default) (List.range pages.pageKeys.length)).map
      (fun i => pages.pageKeys.getD i default) = (hitPages searches).sort (· ≤ ·) := by
  have keys : (range pages.pageKeys.length).map (fun i => pages.pageKeys.getD i default) =
      pages.pageKeys := by
    apply ext_getElem?
    intro i
    by_cases inside : i < pages.pageKeys.length
    · simp [inside]
    · simp [inside]
  have perm := (sort_perm (fun i => pages.pageKeys.getD i default)
    (range pages.pageKeys.length)).map fun i => pages.pageKeys.getD i default
  rw [keys] at perm
  have pages_eq : hitPages searches = pages.pageKeys.toFinset := by
    ext key
    rw [mem_toFinset, processed.keys]
  rw [pages_eq, ← toFinset_eq_of_perm _ _ perm]
  symm
  apply (toFinset_sort (r := (· ≤ ·)) (perm.nodup_iff.mpr processed.rows.nodup)).mpr
  exact pairwise_map.mpr (sort_sorted _ _)

/-- The heap gets every page with its value, in the order of the keys. -/
theorem generate_eq (searches : List (TokenSearchResult δ)) (limit : Nat) :
    generate searches.length searches limit =
      some ⟨((hitPages searches).sort (· ≤ ·)).map fun key => (pageValue searches key, key),
        limit⟩ := by
  have initially : Processed searches.length [] (Pages.new : Pages δ) :=
    { rows := ⟨by simp [Pages.new], by simp [Pages.new], by simp [Pages.new], fun _ _ _ => rfl⟩
      keys := by simp [Pages.new, hitPages]
      estimations := rfl }
  obtain ⟨pages, added, processed⟩ := initially.addTokens searches (by simp)
  rw [nil_append] at processed
  have aggregated : (sort (fun i => pages.pageKeys.getD i default)
      (range pages.pageKeys.length)).mapM (aggregate searches.length pages) =
      some ((sort (fun i => pages.pageKeys.getD i default)
        (range pages.pageKeys.length)).map fun i =>
          (pageValue searches (pages.pageKeys.getD i default), pages.pageKeys.getD i default)) := by
    apply mapM_eq_some
    intro i member
    have inside := mem_range.mp ((sort_perm _ _).mem_iff.mp member)
    apply processed.aggregate
    simp [inside]
  rw [← processed.order, map_map]
  simp only [generate, length_nil] at added ⊢
  rw [added]
  simp only [Option.bind_eq_bind, Option.bind_some, aggregated]
  rfl

variable [Heap]

omit [BoundedOrder δ] [AddCommMonoid δ] [Sorting] in
/-- The candidates are taken from the heap. -/
theorem collect_eq (candidates : PageCandidates δ) :
    candidates.collect = (Heap.drainUpTo (fun item => OrderDual.toDual item.1) candidates.remaining
      candidates.inner).map fun item => ⟨item.1, item.2⟩ := by
  obtain ⟨inner, remaining⟩ := candidates
  rw [PageCandidates.collect]
  induction remaining generalizing inner with
  | zero => rfl
  | succ remaining ih =>
    rw [PageCandidates.collect.go, PageCandidates.next, if_neg (Nat.succ_ne_zero remaining),
      Heap.drainUpTo]
    cases Heap.pop (fun item => OrderDual.toDual item.1) inner with
    | none => rfl
    | some popped =>
      simp only [Option.bind_eq_bind, Option.bind_some, Option.pure_def, Nat.add_sub_cancel]
      rw [ih]
      rfl

/-- The candidates are the pages of least value, in order and without repetition, and
depend on the hits of a token only as a whole and through its estimation. -/
theorem generate_smallest (searches : List (TokenSearchResult δ)) (limit : Nat) :
    ∃ candidates, (generate searches.length searches limit).map PageCandidates.collect =
        some candidates ∧
      (candidates.map PageCandidate.heapKey).Nodup ∧
      candidates.Pairwise (fun first second =>
        first.approximateDistance ≤ second.approximateDistance) ∧
      candidates.length = min limit (hitPages searches).card ∧
      (∀ candidate ∈ candidates, candidate.heapKey ∈ hitPages searches ∧
        candidate.approximateDistance = pageValue searches candidate.heapKey) ∧
      (∀ candidate ∈ candidates, ∀ key ∈ hitPages searches,
        key ∉ candidates.map PageCandidate.heapKey →
          candidate.approximateDistance ≤ pageValue searches key) ∧
      ∀ searches', List.Forall₂ SameHits searches searches' →
        (generate searches'.length searches' limit).map PageCandidates.collect =
          some candidates := by
  generalize isItems : ((hitPages searches).sort (· ≤ ·)).map
    (fun key => (pageValue searches key, key)) = items
  have generated : generate searches.length searches limit = some ⟨items, limit⟩ := by
    rw [generate_eq, isItems]
  obtain ⟨rest, whole, length, sorted, least⟩ :=
    Heap.drainUpTo_spec (fun item : δ × HeapKey => OrderDual.toDual item.1) limit items
  have keys : (items.map Prod.snd).Nodup := by
    rw [← isItems, map_map]
    exact (map_id _).symm ▸ Finset.sort_nodup _ _
  have listed : ∀ item : δ × HeapKey, item ∈ items ↔
      item.2 ∈ hitPages searches ∧ item.1 = pageValue searches item.2 := by
    intro item
    rw [← isItems, mem_map]
    constructor
    · rintro ⟨key, member, rfl⟩
      exact ⟨(Finset.mem_sort _).mp member, rfl⟩
    · rintro ⟨member, value⟩
      exact ⟨item.2, (Finset.mem_sort _).mpr member, Prod.ext value.symm rfl⟩
  have unchanged : ∀ searches', List.Forall₂ SameHits searches searches' →
      generate searches'.length searches' limit = some ⟨items, limit⟩ := by
    intro searches' same
    rw [generate_eq, ← SameHits.hitPages same, ← isItems]
    simp only [SameHits.pageValue same]
  rw [generated, Option.map_some, collect_eq]
  generalize isDrained : Heap.drainUpTo (fun item : δ × HeapKey => OrderDual.toDual item.1) limit
    items = drained at whole length sorted least
  have inItems : ∀ item ∈ drained, item ∈ items := fun item member =>
    whole.subset (mem_append_left rest member)
  refine ⟨_, rfl, ?_, ?_, ?_, ?_, ?_, ?_⟩
  · rw [map_map]
    have nodup := (whole.map Prod.snd).nodup_iff.mpr keys
    rw [map_append] at nodup
    exact (nodup_append.mp nodup).1
  · exact pairwise_map.mpr sorted
  · rw [length_map, length, ← isItems, length_map, Finset.length_sort]
  · intro candidate member
    obtain ⟨item, taken, rfl⟩ := mem_map.mp member
    exact (listed item).mp (inItems item taken)
  · intro candidate member key hit other
    obtain ⟨item, taken, rfl⟩ := mem_map.mp member
    have inWhole := whole.mem_iff.mpr ((listed (pageValue searches key, key)).mpr ⟨hit, rfl⟩)
    rcases mem_append.mp inWhole with drawn | left
    · exact absurd (mem_map.mpr ⟨_, mem_map_of_mem drawn, rfl⟩) other
    · exact least item taken _ left
  · intro searches' same
    rw [unchanged searches' same, Option.map_some, collect_eq, isDrained]

end

end Candidates

end VectorChord.Maxsim
