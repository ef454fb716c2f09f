import VectorChord.Vchordg.Graph

/-!
# Pruned edges

`prune` chooses among the candidates for the out-edges of a vertex.  The rounds of
`robust_prune` move edges between the result and the trace and lose none of them before the
result is full, and the fill-up at the end takes what is left.  So as many edges are chosen
as there are candidates with different ends, up to `m`.
-/

namespace VectorChord.Vchordg

open List

/-! ## Candidates -/

theorem before_iff (u v : Id) : before u v = true ↔ toLex u ≤ toLex v := by
  rw [before, Prod.Lex.toLex_le_toLex]
  simp

/-- The edges of a list by their ends. -/
def Ascending {kind : VectorKind} (trace : List (Edge kind)) : Prop :=
  trace.Pairwise fun edge other => toLex edge.target ≤ toLex other.target

variable {kind : VectorKind}

theorem ascending_insertionSort (outs : List (Edge kind)) :
    Ascending (outs.insertionSort fun edge other => before edge.target other.target) := by
  have total : ∀ left right : Edge kind, before left.target right.target = true ∨
      before right.target left.target = true := by
    intro left right
    rw [before_iff, before_iff]
    exact le_total _ _
  have transitive : ∀ first second third : Edge kind,
      before first.target second.target = true → before second.target third.target = true →
        before first.target third.target = true := by
    intro first second third
    rw [before_iff, before_iff, before_iff]
    exact le_trans
  have sorted := @List.pairwise_insertionSort (Edge kind)
    (fun edge other => before edge.target other.target = true) _ ⟨total⟩ ⟨transitive⟩ outs
  exact sorted.imp fun step => (before_iff _ _).mp step

/-- The edges that `dedup` has kept: their ends ascend, and none lies behind an edge ahead. -/
structure Kept {kind : VectorKind} (kept ahead : List (Edge kind)) : Prop where
  distinct : kept.Pairwise fun edge other => toLex edge.target < toLex other.target
  behind : ∀ edge ∈ kept, ∀ other ∈ ahead, toLex edge.target ≤ toLex other.target

variable {edge : Edge kind} {op : Operator} {candidates : List (Edge op.kind)}

theorem Kept.skip {kept ahead : List (Edge kind)} (ok : Kept kept (edge :: ahead)) :
    Kept kept ahead :=
  ⟨ok.distinct, fun other member next inside =>
    ok.behind other member next (mem_cons_of_mem _ inside)⟩

/-- The last edge that was kept lies behind no other. -/
theorem Kept.le_last {kept ahead : List (Edge kind)} {last : Edge kind} (ok : Kept kept ahead)
    (ends : kept.getLast? = some last) (member : edge ∈ kept) :
    toLex edge.target ≤ toLex last.target := by
  obtain ⟨front, rfl⟩ := getLast?_eq_some_iff.mp ends
  rcases mem_append.mp member with before | same
  · exact ((pairwise_append.mp ok.distinct).2.2 edge before last
      (mem_singleton_self last)).le
  · rw [mem_singleton.mp same]

theorem Kept.keep {kept ahead : List (Edge kind)} (ok : Kept kept (edge :: ahead))
    (ascending : Ascending (edge :: ahead))
    (new : ¬ (kept.getLast?.any fun last => last.target = edge.target) = true) :
    Kept (kept ++ [edge]) ahead := by
  have smaller : ∀ other ∈ kept, toLex other.target < toLex edge.target := by
    intro other member
    cases ends : kept.getLast? with
    | none =>
      rw [getLast?_eq_none_iff.mp ends] at member
      cases member
    | some last =>
      rw [ends, Option.any_some, decide_eq_true_eq] at new
      have inside : last ∈ kept := mem_of_getLast? ends
      have below := ok.behind last inside edge mem_cons_self
      have different : toLex last.target ≠ toLex edge.target := fun same => new same
      exact (ok.le_last ends member).trans_lt (lt_of_le_of_ne below different)
  constructor
  · rw [pairwise_append]
    refine ⟨ok.distinct, pairwise_singleton _ _, ?_⟩
    intro other member last only
    rw [mem_singleton.mp only]
    exact smaller other member
  · intro other member next inside
    rcases mem_append.mp member with earlier | same
    · exact ok.behind other earlier next (mem_cons_of_mem _ inside)
    · rw [mem_singleton.mp same]
      exact (pairwise_cons.mp ascending).1 next inside

/-- Of edges by their ends, `dedup` keeps one for each end. -/
theorem dedup_spec {trace : List (Edge kind)} (ascending : Ascending trace) :
    ((dedup trace).map Edge.target).Nodup ∧
      ∀ id, id ∈ (dedup trace).map Edge.target ↔ id ∈ trace.map Edge.target := by
  have loop : ∀ (trace kept : List (Edge kind)), Ascending trace → Kept kept trace →
      Kept (trace.foldl (fun kept edge =>
        if kept.getLast?.any fun last => last.target = edge.target then kept
        else kept ++ [edge]) kept) [] ∧
      ∀ id, id ∈ (trace.foldl (fun kept edge =>
        if kept.getLast?.any fun last => last.target = edge.target then kept
        else kept ++ [edge]) kept).map Edge.target ↔
          id ∈ kept.map Edge.target ∨ id ∈ trace.map Edge.target := by
    intro trace
    induction trace with
    | nil =>
      intro kept _ ok
      exact ⟨ok, fun id => by simp⟩
    | cons edge trace ih =>
      intro kept ascending ok
      have rest := (pairwise_cons.mp ascending).2
      rw [foldl_cons]
      by_cases again : (kept.getLast?.any fun last => last.target = edge.target) = true
      · rw [if_pos again]
        have known : edge.target ∈ kept.map Edge.target := by
          cases ends : kept.getLast? with
          | none =>
            rw [ends] at again
            cases again
          | some last =>
            rw [ends, Option.any_some, decide_eq_true_eq] at again
            rw [← again]
            exact mem_map_of_mem (mem_of_getLast? ends)
        obtain ⟨kept', ends'⟩ := ih kept rest ok.skip
        refine ⟨kept', fun id => (ends' id).trans ?_⟩
        rw [map_cons, mem_cons]
        constructor
        · exact Or.imp_right Or.inr
        · rintro (inside | rfl | later)
          · exact Or.inl inside
          · exact Or.inl known
          · exact Or.inr later
      · rw [if_neg again]
        obtain ⟨kept', ends'⟩ := ih (kept ++ [edge]) rest (ok.keep ascending again)
        refine ⟨kept', fun id => (ends' id).trans ?_⟩
        rw [map_append, mem_append, map_cons, mem_cons, or_assoc]
        simp
  have start : Kept [] trace := ⟨List.Pairwise.nil, by simp⟩
  obtain ⟨kept, ends⟩ := loop trace [] ascending start
  constructor
  · rw [List.Nodup, pairwise_map]
    exact kept.distinct.imp fun smaller same => smaller.ne (congrArg toLex same)
  · intro id
    rw [dedup, ends id]
    simp

/-- The ends of the candidates, other than the vertex itself. -/
def others {kind : VectorKind} (u : Id) (outs : List (Edge kind)) : Finset Id :=
  (outs.map Edge.target).toFinset.erase u

/-- Each end other than the vertex is considered once. -/
theorem consider_spec (u : Id) (outs : List (Edge kind)) :
    ((consider u outs).map Edge.target).Nodup ∧
      (consider u outs).length = (others u outs).card := by
  obtain ⟨distinct, ends⟩ := dedup_spec (ascending_insertionSort outs)
  generalize trace : dedup (outs.insertionSort fun edge other =>
    before edge.target other.target) = kept at distinct ends
  have order : (consider u outs).Perm (kept.filter fun edge => edge.target ≠ u) := by
    rw [consider, trace]
    exact perm_insertionSort _ _
  have nodup : ((kept.filter fun edge => edge.target ≠ u).map Edge.target).Nodup :=
    distinct.sublist (filter_sublist.map Edge.target)
  constructor
  · exact (order.map Edge.target).nodup_iff.mpr nodup
  · rw [order.length_eq, ← length_map Edge.target, ← toFinset_card_of_nodup nodup, others]
    congr 1
    ext id
    have listed := ends id
    rw [((outs.perm_insertionSort _).map Edge.target).mem_iff] at listed
    rw [mem_toFinset, Finset.mem_erase, mem_toFinset, ← listed]
    simp only [mem_map, mem_filter, decide_eq_true_eq]
    constructor
    · rintro ⟨edge, ⟨inside, different⟩, rfl⟩
      exact ⟨different, edge, inside, rfl⟩
    · rintro ⟨different, edge, inside, rfl⟩
      exact ⟨edge, ⟨inside, different⟩, rfl⟩

/-! ## Rounds -/

/-- A state of the rounds for the candidates: edges that were chosen, at most `m` and with
different ends, and edges that were left over.  Unless enough were chosen, no candidate is
missing. -/
structure Chosen (m : Nat) (candidates : List (Edge op.kind))
    (state : List (Edge op.kind) × List (Edge op.kind)) : Prop where
  few : state.1.length ≤ m
  among : ∃ dropped, (state.1 ++ state.2 ++ dropped).Perm candidates ∧
    (state.1.length ≠ m → dropped = [])

theorem Chosen.robustPrune {m : Nat} {alpha : Word} {result pruned trace : List (Edge op.kind)}
    (few : result.length ≤ m) (whole : (result ++ pruned ++ trace).Perm candidates) :
    Chosen m candidates (robustPrune op m alpha result pruned trace) := by
  induction trace generalizing result pruned with
  | nil =>
    exact ⟨few, [], by simpa [Vchordg.robustPrune] using whole, fun _ => rfl⟩
  | cons edge trace ih =>
    rw [Vchordg.robustPrune]
    split
    next full => exact ⟨few, edge :: trace, whole, fun room => absurd full room⟩
    next room =>
      split
      next =>
        apply ih
        · rw [length_append]
          exact Nat.lt_of_le_of_ne few room
        · have order : (result ++ [edge] ++ pruned ++ trace).Perm
              (result ++ pruned ++ (edge :: trace)) := by
            simp only [append_assoc, cons_append, nil_append]
            exact perm_middle.symm.append_left result
          exact order.trans whole
      next =>
        apply ih few
        simpa using whole

theorem chosen_pruneRounds (m : Nat) (alpha : List Word) (candidates : List (Edge op.kind)) :
    Chosen m candidates (pruneRounds op m alpha candidates) := by
  have rounds : ∀ (alpha : List Word) (state : List (Edge op.kind) × List (Edge op.kind)),
      Chosen m candidates state →
      Chosen m candidates (alpha.foldl (fun state alpha => if state.1.length = m then state
        else robustPrune op m alpha state.1 [] state.2) state) := by
    intro alpha
    induction alpha with
    | nil => exact fun _ chosen => chosen
    | cons factor alpha ih =>
      intro state chosen
      rw [foldl_cons]
      apply ih
      split
      next => exact chosen
      next room =>
        obtain ⟨dropped, whole, none⟩ := chosen.among
        rw [none room, append_nil] at whole
        exact Chosen.robustPrune chosen.few (by simpa using whole)
  exact rounds alpha ([], candidates) ⟨Nat.zero_le m, [], by simp, fun _ => rfl⟩

/-- The candidates that the fill-up leaves: as many as there are, up to `m`. -/
theorem Chosen.fill {m : Nat} {state : List (Edge op.kind) × List (Edge op.kind)}
    (chosen : Chosen m candidates state) :
    let result := if state.1.length = m then state.1 else (state.1 ++ state.2).take m
    result.Subperm candidates ∧ result.length = min m candidates.length := by
  obtain ⟨dropped, whole, none⟩ := chosen.among
  intro result
  have count := whole.length_eq
  rw [length_append, length_append] at count
  by_cases full : state.1.length = m
  · have known : result = state.1 := if_pos full
    rw [known]
    constructor
    · refine List.Subperm.trans ?_ whole.subperm
      rw [append_assoc]
      exact (sublist_append_left _ _).subperm
    · omega
  · have known : result = (state.1 ++ state.2).take m := if_neg full
    rw [none full, append_nil] at whole
    rw [known]
    constructor
    · exact List.Subperm.trans (take_sublist _ _).subperm whole.subperm
    · rw [length_take, whole.length_eq]

/-- The edges that `prune` chooses have different ends, are candidates with their distances and
do not lead back to the vertex.  They are as many as there are such ends, but at most `m`. -/
theorem prune_exact (u : Id) (outs : List (Edge op.kind)) (m : Nat) (alpha : List Word) :
    ((prune op u outs m alpha).map Edge.target).Nodup ∧
      (∀ edge ∈ prune op u outs m alpha, edge ∈ outs ∧ edge.target ≠ u) ∧
      (prune op u outs m alpha).length = min m (others u outs).card := by
  obtain ⟨distinct, count⟩ := consider_spec u outs
  have chosen : Chosen m (consider u outs) (pruneRounds op m
    (if op.isL2s then alpha else [op.one]) (consider u outs)) := chosen_pruneRounds m _ _
  obtain ⟨⟨same, order, sub⟩, length⟩ := chosen.fill
  refine ⟨?_, fun edge member => mem_prune member, ?_⟩
  · exact (order.map Edge.target).nodup_iff.mp (distinct.sublist (sub.map Edge.target))
  · rw [← count]
    exact length

end VectorChord.Vchordg
