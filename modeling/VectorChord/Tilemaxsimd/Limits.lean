import VectorChord.Maxsim.Roundtrip
import VectorChord.Tilemaxsimd.Shard

/-!
# Limits of accepted requests

What a frame that `protocol::parse` accepts looks like: candidates with distinct ids,
tensors of proper shapes, a query of finite scalars, and nothing behind the last candidate.
The totals of tokens and bytes are checked after each candidate.  A request without
candidates is therefore never checked, and its query may be larger than any limit.
-/

namespace VectorChord.Tilemaxsimd

open Codec Collections Transition List
open Accepts (unsignedOr_bind require_bind lift_bind)

/-! ## Shapes -/

/-- The bytes of a tensor. -/
def tensorSize (rows dimension dtype : Nat) : Nat := rows * dimension * scalarBytes dtype

/-- The finite scalars of a type. -/
def isFinite (dtype bits : Nat) : Bool :=
  if dtype = 1 then isFiniteF32 bits else isFiniteF16 bits

/-- A tensor with rows, whose dimension is in range. -/
def ProperShape (rows dimension : Nat) : Prop := 0 < rows ∧ 0 < dimension ∧ dimension ≤ 60000

theorem tensorBytes_eq_ok {rows dimension dtype bytes : Nat}
    (done : tensorBytes rows dimension dtype = .ok bytes) :
    ProperShape rows dimension ∧ bytes = tensorSize rows dimension dtype := by
  unfold tensorBytes at done
  dsimp only at done
  split at done
  case h_3 => cases done
  all_goals
    obtain ⟨proper, done⟩ := Fallible.guard_eq_ok.mp done
    split at done
    next => cases done
    next total product =>
      cases done
      obtain ⟨area, first, second⟩ := Option.bind_eq_some_iff.mp product
      constructor
      · exact ⟨by omega, by omega, by omega⟩
      · rw [(eq_of_checkedMul second).1, (eq_of_checkedMul first).1]
        rfl

theorem validateFinite_iff (payload : List UInt8) (dtype : Nat) :
    validateFinite payload dtype = true ↔
      ∀ scalar ∈ chunksExact (scalarBytes dtype) payload, isFinite dtype (fromLe scalar) =
        true := by
  rw [validateFinite]
  split
  next single => simp [single, scalarBytes, isFinite]
  next half => simp [half, scalarBytes, isFinite]

/-! ## Candidates -/

/-- Rows of the tensors of some candidates. -/
def rowsOf (candidates : List Descriptor) : Nat := (candidates.map Descriptor.rows).sum

/-- Bytes of the tensors of some candidates. -/
def bytesOf (candidates : List Descriptor) : Nat :=
  (candidates.map fun candidate =>
    tensorSize candidate.rows candidate.dimension candidate.dtype).sum

/-- Totals in the limits of `parse`. -/
def InLimits (tokens bytes : Nat) : Prop := tokens ≤ 1000000 ∧ bytes ≤ 1024 * 1024 * 1024

theorem accepts_readText (count maximum : Nat) (name : String) :
    Accepts (readText count maximum name) fun _ _ => True := by
  apply require_bind
  intro _
  apply Accepts.takeOr.bind
  rintro _ taken ⟨rfl, _⟩
  cases fromUtf8 taken with
  | none => exact Accepts.throw _
  | some text =>
    apply require_bind
    intro _
    exact Accepts.pure trivial

theorem accepts_parseCandidate (contract : String) (dimension dtype : Nat) (totals : Totals) :
    Accepts (parseCandidate contract dimension dtype totals) fun _ result =>
      result.1.1.candidateId ∉ totals.candidateIds ∧
      ProperShape result.1.1.rows dimension ∧
      result.2 = ⟨result.1.1.candidateId :: totals.candidateIds, totals.tokens + result.1.1.rows,
        totals.bytes + tensorSize result.1.1.rows dimension dtype⟩ ∧
      InLimits result.2.tokens result.2.bytes := by
  apply unsignedOr_bind
  intro candidateId _
  apply unsignedOr_bind
  intro rows _
  apply unsignedOr_bind
  intro referenceBytes _
  apply unsignedOr_bind
  intro checksumBytes _
  apply require_bind
  intro new
  apply (accepts_readText _ _ _).bind
  intro _ tensorRef _
  apply (accepts_readText _ _ _).bind
  intro _ checksum _
  apply lift_bind
  intro digest _
  apply lift_bind
  intro bytes sized
  obtain ⟨proper, size⟩ := tensorBytes_eq_ok sized
  apply lift_bind
  intro tokens counted
  apply lift_bind
  intro total summed
  apply require_bind
  intro limited
  apply Accepts.pure
  refine ⟨new, proper, ?_, ?_⟩
  · rw [(elim_checkedAdd_eq_ok.mp counted).2, (elim_checkedAdd_eq_ok.mp summed).2, size]
  · rw [not_or, Nat.not_lt, Nat.not_lt] at limited
    exact limited

/-- What the loop over the candidates accepts.  The totals are in the limits once there
is a candidate. -/
structure CandidatesOk (count : Nat) (totals : Totals) (candidates : List Descriptor) : Prop where
  length : candidates.length = count
  new : ∀ candidate ∈ candidates, candidate.candidateId ∉ totals.candidateIds
  distinct : (candidates.map Descriptor.candidateId).Nodup
  shapes : ∀ candidate ∈ candidates, ProperShape candidate.rows candidate.dimension
  limits : count ≠ 0 → InLimits (totals.tokens + rowsOf candidates)
    (totals.bytes + bytesOf candidates)

theorem accepts_parseCandidates (contract : String) (dimension dtype count : Nat)
    (totals : Totals) :
    Accepts (parseCandidates contract dimension dtype count totals) fun _ candidates =>
      CandidatesOk count totals candidates.1 := by
  induction count generalizing totals with
  | zero =>
    apply Accepts.pure
    exact ⟨rfl, forall_mem_nil _, nodup_nil, forall_mem_nil _, fun some_ => absurd rfl some_⟩
  | succ count ih =>
    apply (accepts_parseCandidate _ _ _ _).bind
    rintro _ ⟨⟨candidate, rfl, rfl⟩, totals'⟩ ⟨new, proper, known, limited⟩
    dsimp only at new proper known limited ⊢
    apply (ih totals').bind
    rintro _ ⟨candidates, uniform⟩ others
    apply Accepts.pure
    dsimp only at others ⊢
    subst known
    constructor
    · rw [length_cons, others.length]
    · intro other member
      rcases mem_cons.mp member with rfl | member
      · exact new
      · exact fun inside => others.new other member (mem_cons_of_mem _ inside)
    · rw [map_cons, nodup_cons]
      refine ⟨?_, others.distinct⟩
      intro twice
      obtain ⟨other, member, same⟩ := mem_map.mp twice
      exact others.new other member (same ▸ mem_cons_self)
    · exact forall_mem_cons.mpr ⟨proper, others.shapes⟩
    · intro _
      simp only [rowsOf, bytesOf, map_cons, sum_cons]
      rw [← add_assoc, ← add_assoc]
      cases count with
      | zero =>
        -- the candidate was the last one
        rw [length_eq_zero_iff.mp others.length]
        exact limited
      | succ count => exact others.limits (Nat.succ_ne_zero count)

/-! ## Requests -/

/-- The bytes of a body up to the type of the tensors. -/
def leadingBytes (dimension queryRows candidateCount dtype : Nat) (rest : List UInt8) :
    List UInt8 :=
  le 4 dimension ++ (le 4 queryRows ++ (le 4 candidateCount ++ (le 1 dtype ++ rest)))

theorem accepts_parseScheduling (version : Nat) :
    Accepts (parseScheduling version) fun _ _ => True := by
  rw [parseScheduling]
  split
  next =>
    apply (Accepts.takeOr.bind fun _ _ _ => Accepts.pure trivial :
      Accepts (Reader.signed 4) fun _ _ => True).bind
    intro _ priority _
    apply unsignedOr_bind
    intro timeoutMs _
    apply unsignedOr_bind
    intro tenantBytes _
    exact Accepts.pure trivial
  next => exact Accepts.pure trivial

theorem accepts_parseTenant (version tenantBytes : Nat) :
    Accepts (parseTenant version tenantBytes) fun _ _ => True := by
  rw [parseTenant]
  split
  next => exact accepts_readText _ _ _
  next => exact Accepts.pure trivial

/-- The bytes of a body start with the fields that were read. -/
structure StartsWith (taken : List UInt8) (dimension queryRows candidateCount dtype : Nat) :
    Prop where
  bytes : ∃ rest, taken = leadingBytes dimension queryRows candidateCount dtype rest
  dimensionFits : dimension < 256 ^ 4
  queryRowsFits : queryRows < 256 ^ 4
  candidateCountFits : candidateCount < 256 ^ 4
  dtypeFits : dtype < 256 ^ 1

theorem accepts_parsePreamble (version : Nat) :
    Accepts (parsePreamble version) fun taken preamble =>
      StartsWith taken preamble.dimension preamble.queryRows preamble.candidateCount
        preamble.dtype := by
  apply unsignedOr_bind
  intro dimension dimensionFits
  apply unsignedOr_bind
  intro queryRows queryRowsFits
  apply unsignedOr_bind
  intro candidateCount candidateCountFits
  apply unsignedOr_bind
  intro dtype dtypeFits
  apply unsignedOr_bind
  intro scoring _
  apply unsignedOr_bind
  intro reserved _
  apply unsignedOr_bind
  intro contractBytes _
  apply require_bind
  intro _
  apply require_bind
  intro _
  apply (accepts_parseScheduling _).bind
  rintro _ ⟨priority, timeoutMs, tenantBytes⟩ _
  apply require_bind
  intro _
  apply require_bind
  intro _
  apply (accepts_readText _ _ _).bind
  intro _ contract _
  apply (accepts_parseTenant _ _).bind
  intro _ tenant _
  apply Accepts.pure
  exact ⟨⟨_, rfl⟩, dimensionFits, queryRowsFits, candidateCountFits, dtypeFits⟩

/-- The query of a request: as many scalars as its shape says, all finite. -/
structure QueryOk (request : Request) : Prop where
  shape : ProperShape request.queryRows request.dimension
  length : request.query.length =
    tensorSize request.queryRows request.dimension request.dtype
  finite : ∀ scalar ∈ chunksExact (scalarBytes request.dtype) request.query,
    isFinite request.dtype (fromLe scalar) = true

/-- What `parse` has checked when it accepts a body. -/
structure BodyOk (body : List UInt8) (request : Request) : Prop where
  fields : StartsWith body request.dimension request.queryRows request.candidates.length
    request.dtype
  query : QueryOk request
  distinct : (request.candidates.map Descriptor.candidateId).Nodup
  shapes : ∀ candidate ∈ request.candidates, ProperShape candidate.rows candidate.dimension
  limits : request.candidates ≠ [] → InLimits (request.queryRows + rowsOf request.candidates)
    (tensorSize request.queryRows request.dimension request.dtype +
      bytesOf request.candidates)

theorem accepts_parseBody (version requestId : Nat) :
    Accepts (parseBody version requestId) BodyOk := by
  apply (accepts_parsePreamble _).bind
  intro front preamble leads
  apply lift_bind
  intro queryBytes sized
  obtain ⟨proper, size⟩ := tensorBytes_eq_ok sized
  apply Accepts.takeOr.bind
  rintro _ query ⟨rfl, length⟩
  apply require_bind
  intro finite
  apply (accepts_parseCandidates _ _ _ _ _).bind
  intro listed candidates parsed
  apply Accepts.finishOr_bind
  apply Accepts.pure
  constructor
  · rw [parsed.length]
    obtain ⟨rest, known⟩ := leads.bytes
    refine ⟨⟨rest ++ (query ++ (listed ++ [])), ?_⟩, leads.dimensionFits, leads.queryRowsFits,
      leads.candidateCountFits, leads.dtypeFits⟩
    rw [known]
    simp only [leadingBytes, append_assoc]
  · exact ⟨proper, length.trans size, (validateFinite_iff _ _).mp finite⟩
  · exact parsed.distinct
  · exact parsed.shapes
  · intro some_
    rw [← size]
    apply parsed.limits
    rw [← parsed.length]
    exact fun none => some_ (length_eq_zero_iff.mp none)

theorem ends_parseBody (version requestId : Nat) : Ends (parseBody version requestId) := by
  apply Ends.bind
  intro preamble
  apply Ends.bind
  intro queryBytes
  apply Ends.bind
  intro query
  apply Ends.bind
  intro _
  apply Ends.bind
  intro candidates
  exact Ends.finishOr_bind (Accepts.pure rfl)

/-! ## Frames -/

/-- A number in a frame. -/
def field (frame : List UInt8) (offset width : Nat) : Nat :=
  fromLe ((frame.drop offset).take width)

/-- The bytes of a frame that `parse` has read where it comes to the body. -/
def consumed (frame : List UInt8) : Nat :=
  headerBytes + ((parseBody (field frame 4 2) (field frame 8 8)).step
    ⟨frame.drop headerBytes, 0⟩).2.offset

/-- A body that was accepted is the one behind the header, and was read to its end. -/
theorem parse_eq_ok {frame : List UInt8} {request : Request}
    (accepted : parse frame = .ok request) :
    headerBytes ≤ frame.length ∧ consumed frame = frame.length ∧
      BodyOk (frame.drop headerBytes) request := by
  obtain ⟨long, accepted⟩ := Fallible.guard_eq_ok.mp accepted
  obtain ⟨_, accepted⟩ := Fallible.guard_eq_ok.mp accepted
  obtain ⟨_, accepted⟩ := Fallible.guard_eq_ok.mp accepted
  obtain ⟨_, accepted⟩ := Fallible.guard_eq_ok.mp accepted
  have inside := Nat.not_lt.mp long
  obtain ⟨ended, body⟩ := (accepts_parseBody _ _).all (ends_parseBody _ _)
    (Prod.ext accepted rfl : _ = (Except.ok request, _))
  refine ⟨inside, ?_, body⟩
  rw [consumed, field, field, ended, length_drop]
  exact Nat.add_sub_cancel' inside

/-- What is expected of a request and the frame it was read from. -/
structure Limits (frame : List UInt8) (request : Request) : Prop where
  totals : InLimits (request.queryRows + rowsOf request.candidates)
    (tensorSize request.queryRows request.dimension request.dtype +
      bytesOf request.candidates)
  distinct : (request.candidates.map Descriptor.candidateId).Nodup
  shapes : ∀ candidate ∈ request.candidates, ProperShape candidate.rows candidate.dimension
  query : QueryOk request
  scalars : (chunksExact (scalarBytes request.dtype) request.query).length =
    request.queryRows * request.dimension
  consumed : consumed frame = frame.length

/-- The frame announces candidates, or its query alone is in the limits. -/
def Announces (frame : List UInt8) : Prop :=
  field frame 32 4 ≠ 0 ∨ InLimits (field frame 28 4)
    (tensorSize (field frame 28 4) (field frame 24 4) (field frame 36 1))

theorem field_append {front tail : List UInt8} {offset width value : Nat}
    (place : front.length = offset) (small : value < 256 ^ width) :
    field (front ++ (le width value ++ tail)) offset width = value := by
  rw [field, Maxsim.take_drop_append place (length_le width value), fromLe_le_of_lt small]

variable {queryRows : Nat}

/-- The fields of a frame whose body starts with them. -/
theorem StartsWith.fields {frame : List UInt8} {dimension candidateCount dtype : Nat}
    (leads : StartsWith (frame.drop headerBytes) dimension queryRows candidateCount dtype) :
    field frame 24 4 = dimension ∧ field frame 28 4 = queryRows ∧
      field frame 32 4 = candidateCount ∧ field frame 36 1 = dtype := by
  obtain ⟨rest, known⟩ := leads.bytes
  have place : ∀ offset width, field frame (24 + offset) width =
      field (leadingBytes dimension queryRows candidateCount dtype rest) offset width := by
    intro offset width
    rw [← known, field, field, drop_drop]
    rfl
  refine ⟨(place 0 4).trans ?_, (place 4 4).trans ?_, (place 8 4).trans ?_, (place 12 1).trans ?_⟩
  · rw [leadingBytes, ← nil_append (le 4 dimension ++ _)]
    exact field_append rfl leads.dimensionFits
  · exact field_append (length_le 4 dimension) leads.queryRowsFits
  · rw [leadingBytes, ← append_assoc]
    exact field_append (by simp) leads.candidateCountFits
  · rw [leadingBytes, ← append_assoc, ← append_assoc]
    exact field_append (by simp) leads.dtypeFits

theorem length_chunksExact {request : Request} (query : QueryOk request) :
    (chunksExact (scalarBytes request.dtype) request.query).length =
      request.queryRows * request.dimension := by
  have positive : 0 < scalarBytes request.dtype := by
    rw [scalarBytes]
    split <;> decide
  rw [chunksExact, length_map, length_range, query.length, tensorSize,
    Nat.mul_div_cancel _ positive]

/-- A frame that is accepted is in the limits exactly if it announces candidates or its query
alone is in the limits. -/
theorem limits_iff_announces {frame : List UInt8} {request : Request}
    (accepted : parse frame = .ok request) : Limits frame request ↔ Announces frame := by
  obtain ⟨_, read, body⟩ := parse_eq_ok accepted
  obtain ⟨dimension, queryRows, count, dtype⟩ := body.fields.fields
  rw [Announces, dimension, queryRows, count, dtype]
  constructor
  · intro limits
    cases none : request.candidates with
    | cons candidate others => exact Or.inl (Nat.succ_ne_zero _)
    | nil =>
      have totals := limits.totals
      rw [none] at totals
      exact Or.inr totals
  · intro announced
    refine ⟨?_, body.distinct, body.shapes, body.query, length_chunksExact body.query, read⟩
    rcases announced with some_ | alone
    · apply body.limits
      intro none
      rw [none] at some_
      exact some_ rfl
    · cases none : request.candidates with
      | nil => exact alone
      | cons candidate others =>
        rw [← none]
        apply body.limits
        rw [none]
        exact cons_ne_nil _ _

/-! ## A request without candidates -/

/-- A body with a query of zeros, in rows of one `f16`, and no candidates. -/
def bareBody (queryRows : Nat) : List UInt8 :=
  (le 4 1 ++ (le 4 queryRows ++ (le 4 0 ++ (le 1 2 ++ (le 1 1 ++ (le 2 0 ++ (le 4 5 ++
    utf8 "model"))))))) ++ List.replicate (queryRows * 2) 0

def bareFrame (queryRows : Nat) : List UInt8 :=
  Maxsim.headerOf 0 versionExternal (bareBody queryRows).length ++ bareBody queryRows

def bareRequest (queryRows : Nat) : Request where
  protocolVersion := versionExternal
  requestId := 0
  tenant := "__default__"
  priority := 0
  timeoutMs := 0
  queryRows := queryRows
  dimension := 1
  dtype := 2
  query := List.replicate (queryRows * 2) 0
  candidates := []
  uniform := forall_mem_nil _

theorem fromLe_replicate (count : Nat) : fromLe (List.replicate count 0) = 0 := by
  induction count with
  | zero => rfl
  | succ count ih =>
    rw [replicate_succ, fromLe, ih]
    rfl

theorem validateFinite_zeros (count : Nat) : validateFinite (List.replicate count 0) 2 = true := by
  apply (validateFinite_iff _ _).mpr
  intro scalar member
  obtain ⟨index, _, rfl⟩ := mem_map.mp member
  rw [drop_replicate, take_replicate, fromLe_replicate]
  rfl

theorem parseBody_bareBody (some_ : 0 < queryRows) (small : queryRows < 256 ^ 4) :
    ReadsAll (parseBody versionExternal 0) (bareBody queryRows) (bareRequest queryRows) := by
  have scheduling : Reads (parseScheduling versionExternal) [] (0, 0, 0) := Reads.pure _
  have tenant : Reads (parseTenant versionExternal 0) [] "__default__" := Reads.pure _
  have contract : Reads (readText 5 512 "model contract") (utf8 "model") "model" := by
    have length : (utf8 "model").length = 5 := by decide
    rw [← length]
    exact Maxsim.readText_reads _ (by decide)
  have candidates : Reads (parseCandidates "model" 1 2 0 ⟨[], queryRows, queryRows * 2⟩) []
      ⟨[], forall_mem_nil _⟩ := Reads.pure _
  have sized : tensorBytes queryRows 1 2 = .ok (queryRows * 2) := by
    have bytes : queryRows * 1 * 2 ≤ usizeMax := by
      rw [usizeMax]
      omega
    have known := Maxsim.tensorBytes_eq Maxsim.TensorDtype.f16 some_ Nat.one_pos (by decide) bytes
    rw [Nat.mul_one] at known
    exact known
  have preamble : Reads (parsePreamble versionExternal)
      (le 4 1 ++ (le 4 queryRows ++ (le 4 0 ++ (le 1 2 ++ (le 1 1 ++ (le 2 0 ++ (le 4 5 ++
        utf8 "model"))))))) ⟨1, queryRows, 0, 2, 0, 0, "model", "__default__"⟩ := by
    apply (Reads.unsigned (by decide)).bind
    apply (Reads.unsigned small).bind
    apply (Reads.unsigned (by decide)).bind
    apply (Reads.unsigned (by decide)).bind
    apply (Reads.unsigned (by decide)).bind
    apply (Reads.unsigned (by decide)).bind
    apply (Reads.unsigned (by decide)).bind
    apply (Reads.require (by decide) _).bind_nil
    apply (Reads.require (by decide) _).bind_nil
    apply scheduling.bind_nil
    apply contract.bind_end
    exact Reads.pure _
  apply preamble.bind
  apply (Reads.lift sized).bind_nil
  apply (Reads.take (length_replicate ..)).bind_end
  apply (Reads.require (validateFinite_zeros _) _).bind_nil
  exact ReadsAll.finishOr_bind _ (Reads.pure _)

theorem parse_bareFrame (some_ : 0 < queryRows) (small : queryRows < 256 ^ 4) :
    parse (bareFrame queryRows) = .ok (bareRequest queryRows) := by
  have bounded : (bareBody queryRows).length ≤ usizeMax := by
    have length : (utf8 "model").length = 5 := by decide
    simp [bareBody, length, usizeMax]
    omega
  rw [bareFrame, Maxsim.parse_headerOf (Or.inl rfl) (by decide) bounded]
  exact congrArg Prod.fst ((parseBody_bareBody some_ small).run bounded)

/-- A body with a query of one row and two candidates for the same tensor. -/
def pairBody : List UInt8 :=
  let digest := "0000000000000000000000000000000000000000000000000000000000000000"
  let tensor := le 4 3 ++ (le 4 73 ++ (le 4 71 ++ (utf8 ("sha256://" ++ digest) ++
    utf8 ("sha256:" ++ digest))))
  le 4 1 ++ (le 4 1 ++ (le 4 2 ++ (le 1 2 ++ (le 1 1 ++ (le 2 0 ++ (le 4 5 ++ (utf8 "model" ++
    ([0, 60] ++ (le 4 8 ++ tensor ++ (le 4 9 ++ tensor))))))))))

def pairFrame : List UInt8 :=
  Maxsim.headerOf 0 versionExternal pairBody.length ++ pairBody

theorem limits_pairFrame : ∃ request, parse pairFrame = .ok request ∧
    request.candidates.map Descriptor.candidateId = [8, 9] ∧ Limits pairFrame request := by
  have candidates : (parse pairFrame).map (fun request =>
      request.candidates.map Descriptor.candidateId) = .ok [8, 9] := by
    decide +kernel
  cases accepted : parse pairFrame with
  | error error =>
    rw [accepted] at candidates
    cases candidates
  | ok request =>
    rw [accepted] at candidates
    refine ⟨request, rfl, Except.ok.inj candidates, ?_⟩
    exact (limits_iff_announces accepted).mpr (.inl (by decide +kernel))

/-- A query of more rows than all tensors of a request may have is accepted. -/
theorem bareFrame_exceeds : ∃ request, parse (bareFrame 1000001) = .ok request ∧
    1000000 < request.queryRows ∧ ¬ Limits (bareFrame 1000001) request := by
  have accepted : parse (bareFrame 1000001) = .ok (bareRequest 1000001) :=
    parse_bareFrame (by decide) (by decide)
  refine ⟨bareRequest 1000001, accepted, Nat.lt_succ_self 1000000, ?_⟩
  intro limits
  exact absurd limits.totals.1 (by decide)

end VectorChord.Tilemaxsimd
