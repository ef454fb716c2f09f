import VectorChord.Tilemaxsimd.Limits
import VectorChord.Tilemaxsimd.RunScheduler

/-!
# Quanta

What `parse` accepts is so small that no sum of `quantum_end` saturates.  A quantum then
has as many candidates as the limits allow, and at least one if any is left.
-/

namespace VectorChord.Tilemaxsimd

open Collections Transition List

/-! ## Limits of requests -/

/-- Products that a kernel computes for some candidates. -/
def fmasOf (queryRows dimension : Nat) (candidates : List Descriptor) : Nat :=
  (candidates.map fun candidate => queryRows * candidate.rows * dimension).sum

theorem fmasOf_eq (queryRows dimension : Nat) (candidates : List Descriptor) :
    fmasOf queryRows dimension candidates = queryRows * rowsOf candidates * dimension := by
  induction candidates with
  | nil => rw [fmasOf, rowsOf, map_nil, map_nil, sum_nil, Nat.mul_zero, Nat.zero_mul]
  | cons candidate candidates ih =>
    have first : fmasOf queryRows dimension (candidate :: candidates) =
        queryRows * candidate.rows * dimension + fmasOf queryRows dimension candidates := sum_cons
    have second : rowsOf (candidate :: candidates) = candidate.rows + rowsOf candidates := sum_cons
    rw [first, second, ih, Nat.mul_add, Nat.add_mul]

theorem rowsOf_append (left right : List Descriptor) :
    rowsOf (left ++ right) = rowsOf left + rowsOf right := by
  rw [rowsOf, map_append, sum_append]
  rfl

/-- The limits of a request with candidates. -/
structure Request.Small (request : Request) : Prop where
  tokens : request.candidates ≠ [] → request.queryRows + rowsOf request.candidates ≤ 1000000
  dimension : request.dimension ≤ 60000

/-- What `parse` accepts is small. -/
theorem parse_small {frame : List UInt8} {request : Request} (parsed : parse frame = .ok request) :
    request.Small := by
  obtain ⟨_, _, body⟩ := parse_eq_ok parsed
  exact ⟨fun some_ => (body.limits some_).1, body.query.shape.2.2⟩

/-! ## The loop of `quantum_end` -/

section

variable {maximumCandidates maximumTokens maximumFmas queryRows dimension : Nat}
  {rest : List Descriptor}

/-- What a quantum may contain. -/
structure Fitting (maximumCandidates maximumTokens maximumFmas queryRows dimension : Nat)
    (taken tokens fmas : Nat) (rest : List Descriptor) (length : Nat) : Prop where
  grows : taken ≤ length
  available : length ≤ taken + rest.length
  candidates : length ≤ max taken maximumCandidates
  limits : length ≤ 1 ∨
    tokens + rowsOf (rest.take (length - taken)) ≤ maximumTokens ∧
      fmas + fmasOf queryRows dimension (rest.take (length - taken)) ≤ maximumFmas

/-- The loop may stop here. -/
theorem Fitting.stop {taken tokens fmas : Nat}
    (few : taken ≤ 1 ∨ tokens ≤ maximumTokens ∧ fmas ≤ maximumFmas) (rest : List Descriptor) :
    Fitting maximumCandidates maximumTokens maximumFmas queryRows dimension taken tokens fmas rest
      taken := by
  refine ⟨Nat.le_refl _, Nat.le_add_right _ _, Nat.le_max_left _ _, few.imp id fun within => ?_⟩
  rw [Nat.sub_self]
  exact within

/-- The loop may take one more candidate. -/
theorem Fitting.cons {taken tokens fmas length : Nat} {candidate : Descriptor}
    (room : taken < maximumCandidates)
    (later : Fitting maximumCandidates maximumTokens maximumFmas queryRows dimension (taken + 1)
      (tokens + candidate.rows) (fmas + queryRows * candidate.rows * dimension) rest length) :
    Fitting maximumCandidates maximumTokens maximumFmas queryRows dimension taken tokens fmas
      (candidate :: rest) length := by
  have grows := later.grows
  have available := later.available
  have candidates := later.candidates
  have split : (candidate :: rest).take (length - taken) =
      candidate :: rest.take (length - (taken + 1)) := by
    have more : length - taken = (length - (taken + 1)) + 1 := by omega
    rw [more, take_succ_cons]
  constructor
  case grows => omega
  case available =>
    rw [length_cons]
    omega
  case candidates => omega
  case limits =>
    apply later.limits.imp id
    intro within
    have rowsSum : rowsOf (candidate :: rest.take (length - (taken + 1))) =
        candidate.rows + rowsOf (rest.take (length - (taken + 1))) := sum_cons
    have fmasSum : fmasOf queryRows dimension (candidate :: rest.take (length - (taken + 1))) =
        queryRows * candidate.rows * dimension +
          fmasOf queryRows dimension (rest.take (length - (taken + 1))) := sum_cons
    rw [split, rowsSum, fmasSum, ← add_assoc, ← add_assoc]
    exact within

/-- Without saturation the loop keeps to the limits, except for a first candidate. -/
theorem quantumLength_fitting {taken tokens fmas : Nat}
    (few : taken ≤ 1 ∨ tokens ≤ maximumTokens ∧ fmas ≤ maximumFmas)
    (products : queryRows * rowsOf rest ≤ usizeMax) (rows : tokens + rowsOf rest ≤ usizeMax)
    (work : fmas + fmasOf queryRows dimension rest ≤ usizeMax) :
    Fitting maximumCandidates maximumTokens maximumFmas queryRows dimension taken tokens fmas rest
      (quantumLength maximumCandidates maximumTokens maximumFmas queryRows dimension taken tokens
        fmas rest) := by
  induction rest generalizing taken tokens fmas with
  | nil => exact .stop few []
  | cons candidate rest ih =>
    have rowsSum : rowsOf (candidate :: rest) = candidate.rows + rowsOf rest := sum_cons
    have fmasSum : fmasOf queryRows dimension (candidate :: rest) =
        queryRows * candidate.rows * dimension + fmasOf queryRows dimension rest := sum_cons
    rw [rowsSum] at rows products
    rw [Nat.mul_add] at products
    have inner : queryRows * candidate.rows ≤ usizeMax := by omega
    have one : candidateFmas queryRows dimension candidate.rows =
        queryRows * candidate.rows * dimension := by
      rw [candidateFmas, saturatingMul, saturatingMul, min_eq_left inner]
      exact min_eq_left (by omega)
    have tokens' : saturatingAdd tokens candidate.rows = tokens + candidate.rows :=
      min_eq_left (by omega)
    have fmas' : saturatingAdd fmas (candidateFmas queryRows dimension candidate.rows) =
        fmas + queryRows * candidate.rows * dimension := by
      rw [one]
      exact min_eq_left (by omega)
    rw [quantumLength, tokens', fmas']
    split
    next room =>
      split
      next => exact .stop few _
      next within =>
        apply Fitting.cons room
        apply ih _ (by omega) (by omega) (by omega)
        rcases Nat.eq_zero_or_pos taken with none | some
        · left
          omega
        · right
          rw [not_and, not_or] at within
          omega
    next => exact .stop few _

theorem le_quantumLength (taken tokens fmas : Nat) (rest : List Descriptor) :
    taken ≤ quantumLength maximumCandidates maximumTokens maximumFmas queryRows dimension taken
      tokens fmas rest := by
  induction rest generalizing taken tokens fmas with
  | nil => exact Nat.le_refl _
  | cons candidate rest ih =>
    rw [quantumLength]
    split
    next =>
      split
      next => exact Nat.le_refl _
      next => exact Nat.le_of_succ_le (ih ..)
    next => exact Nat.le_refl _

/-- The first candidate is always taken. -/
theorem quantumLength_pos (positive : 0 < maximumCandidates) (some : rest ≠ []) :
    0 < quantumLength maximumCandidates maximumTokens maximumFmas queryRows dimension 0 0 0
      rest := by
  cases rest with
  | nil => exact absurd rfl some
  | cons candidate rest =>
    rw [quantumLength, if_pos positive, if_neg fun both => lt_irrefl 0 both.1]
    exact le_quantumLength ..

end

/-! ## Quanta of a request -/

/-- The quantum from one candidate of a request to another is within the limits. -/
structure SchedulerConfig.Permits {ρ : Type} (config : SchedulerConfig ρ) (request : Request)
    (first last : Nat) : Prop where
  ordered : first ≤ last
  inside : last ≤ request.candidates.length
  progress : first < last ∨ request.candidates = []
  candidates : last - first ≤ config.quantumCandidates
  limits : last = first + 1 ∨
    rowsOf (candidatesBetween request.candidates first last) ≤ config.quantumTokens ∧
      fmasOf request.queryRows request.dimension
        (candidatesBetween request.candidates first last) ≤ config.quantumFmas

/-- No part of a small request overflows a counter. -/
theorem Request.Small.fits {request : Request} (small : request.Small) (first : Nat) :
    request.queryRows * rowsOf (request.candidates.drop first) ≤ usizeMax ∧
      0 + rowsOf (request.candidates.drop first) ≤ usizeMax ∧
      0 + fmasOf request.queryRows request.dimension (request.candidates.drop first) ≤
        usizeMax := by
  by_cases none : request.candidates = []
  · rw [none, drop_nil]
    exact ⟨Nat.zero_le _, Nat.zero_le _, Nat.zero_le _⟩
  · have total := small.tokens none
    rw [← take_append_drop first request.candidates, rowsOf_append] at total
    have few : request.queryRows ≤ 1000000 := by omega
    have rows : rowsOf (request.candidates.drop first) ≤ 1000000 := by omega
    have products := Nat.mul_le_mul few rows
    have work := Nat.mul_le_mul products small.dimension
    rw [fmasOf_eq]
    unfold usizeMax
    omega

/-- `next_quantum_end` keeps to the limits. -/
theorem nextQuantumEnd_permits {ρ σ : Type} (config : SchedulerConfig ρ) {work : Work σ}
    (small : work.request.Small)
    (left : work.nextCandidate = 0 ∨ work.nextCandidate < work.request.candidates.length) :
    config.Permits work.request work.nextCandidate (nextQuantumEnd config work) := by
  rcases small.fits work.nextCandidate with ⟨products, rows, fmas⟩
  let length := quantumLength config.quantumCandidates config.quantumTokens config.quantumFmas
    work.request.queryRows work.request.dimension 0 0 0
    (work.request.candidates.drop work.nextCandidate)
  have fitting : Fitting config.quantumCandidates config.quantumTokens config.quantumFmas
      work.request.queryRows work.request.dimension 0 0 0
      (work.request.candidates.drop work.nextCandidate) length :=
    quantumLength_fitting (.inl (Nat.zero_le 1)) products rows fmas
  have last : nextQuantumEnd config work = work.nextCandidate + length := rfl
  have available := fitting.available
  rw [length_drop] at available
  rw [last]
  constructor
  case ordered => exact Nat.le_add_right _ _
  case inside => omega
  case progress =>
    by_cases none : work.request.candidates = []
    · exact .inr none
    · left
      have positive := length_pos_iff.mpr none
      have more : work.request.candidates.drop work.nextCandidate ≠ [] := by
        rw [ne_eq, drop_eq_nil_iff]
        omega
      exact Nat.lt_add_of_pos_right (quantumLength_pos config.positive.1 more)
  case candidates =>
    have candidates := fitting.candidates
    omega
  case limits =>
    rw [candidatesBetween, Nat.add_sub_cancel_left]
    have limits := fitting.limits
    rw [Nat.sub_zero, zero_add, zero_add] at limits
    rcases limits with one | within
    · rcases Nat.lt_or_eq_of_le one with none | one
      · right
        rw [Nat.lt_one_iff.mp none, take_zero]
        exact ⟨Nat.zero_le _, Nat.zero_le _⟩
      · left
        rw [one]
    · exact .inr within

end VectorChord.Tilemaxsimd
