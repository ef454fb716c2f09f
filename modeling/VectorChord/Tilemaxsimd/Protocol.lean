import VectorChord.Codec.Reader

/-!
# Frames of the daemon

`protocol::parse` reads a frame into a request: the shape of the query, the query itself
and for every candidate the digest and the number of rows of its tensor.  All tensors of
a request have the dimension and type of its query.  `success` and `failure` write the
responses.
-/

namespace VectorChord.Tilemaxsimd

open Codec Collections Transition

/-! ## Descriptors -/

/-- `char::is_control`. -/
def isControl (character : Char) : Bool :=
  character.toNat < 0x20 || (0x7f ≤ character.toNat && character.toNat < 0xa0)

/-- `is_ascii_hexdigit` without `is_ascii_uppercase`. -/
def isLowerHexdigit (byte : UInt8) : Bool :=
  ((48 ≤ byte && byte ≤ 57) || (65 ≤ byte && byte ≤ 70) || (97 ≤ byte && byte ≤ 102)) &&
    !(65 ≤ byte && byte ≤ 90)

/-- The 64 digits of a SHA-256 checksum. -/
def isDigest (text : String) : Bool := (utf8 text).length == 64 && (utf8 text).all isLowerHexdigit

abbrev Digest := { text : String // isDigest text = true }

/-- `Descriptor`. -/
structure Descriptor where
  candidateId : Nat
  contract : String
  digest : Digest
  rows : Nat
  dimension : Nat
  dtype : Nat
  deriving DecidableEq

/-- The descriptors of tensors of one dimension and type. -/
def Uniform (dimension dtype : Nat) (candidates : List Descriptor) : Prop :=
  ∀ candidate ∈ candidates, candidate.dimension = dimension ∧ candidate.dtype = dtype

theorem Uniform.cons {dimension dtype : Nat} {candidate : Descriptor}
    {candidates : List Descriptor}
    (first : candidate.dimension = dimension ∧ candidate.dtype = dtype)
    (others : Uniform dimension dtype candidates) :
    Uniform dimension dtype (candidate :: candidates) :=
  List.forall_mem_cons.mpr ⟨first, others⟩

/-- `Request`. -/
structure Request where
  protocolVersion : Nat
  requestId : Nat
  tenant : String
  priority : Int
  timeoutMs : Nat
  queryRows : Nat
  dimension : Nat
  dtype : Nat
  query : List UInt8
  candidates : List Descriptor
  uniform : Uniform dimension dtype candidates

/-- `tensor_bytes`. -/
def tensorBytes (rows dimension dtype : Nat) : Except String Nat := do
  let scalar ←
    match dtype with
    | 1 => pure 4
    | 2 => pure 2
    | _ => throw "unsupported tensor dtype"
  if rows = 0 ∨ dimension = 0 ∨ 60000 < dimension then throw "invalid tensor shape"
  else
    match (checkedMul rows dimension).bind fun value => checkedMul value scalar with
    | none => throw "tensor shape is too large"
    | some bytes => pure bytes

/-- `chunks_exact`. -/
def chunksExact (size : Nat) (bytes : List UInt8) : List (List UInt8) :=
  (List.range (bytes.length / size)).map fun index => (bytes.drop (index * size)).take size

/-- `f32::is_finite` on the bits of a number. -/
def isFiniteF32 (bits : Nat) : Bool := bits / 2 ^ 23 % 2 ^ 8 != 255

/-- The bits of a finite `f16`. -/
def isFiniteF16 (bits : Nat) : Bool := bits &&& 0x7c00 != 0x7c00

/-- `validate_finite`. -/
def validateFinite (payload : List UInt8) (dtype : Nat) : Bool :=
  if dtype = 1 then (chunksExact 4 payload).all fun scalar => isFiniteF32 (fromLe scalar)
  else (chunksExact 2 payload).all fun scalar => isFiniteF16 (fromLe scalar)

/-! ## Texts -/

/-- `str::strip_prefix`. -/
def stripPrefix (mark text : String) : Option String :=
  if mark.toList <+: text.toList then some (String.ofList (text.toList.drop mark.length)) else none

/-- `Reader::text`. -/
def readText (count maximum : Nat) (name : String) : Fallible String Reader String := do
  Fallible.require (¬ (count = 0 ∨ maximum < count)) ("invalid " ++ name ++ " length")
  let bytes ← Reader.take count
  match fromUtf8 bytes with
  | none => throw "invalid utf-8 sequence"
  | some text => do
    Fallible.require (text.toList.any isControl = false) (name ++ " contains control characters")
    pure text

/-- The digest of a reference, if its checksum is the same. -/
def readDigest (tensorRef checksum : String) : Except String Digest :=
  match stripPrefix "sha256://" tensorRef with
  | none => throw "unsupported tensor reference"
  | some digest =>
    if proper : isDigest digest = true then
      if checksum = "sha256:" ++ digest then pure ⟨digest, proper⟩
      else throw "invalid content-addressed tensor descriptor"
    else throw "invalid content-addressed tensor descriptor"

/-! ## Frames -/

/-- What `parse` keeps while it reads candidates. -/
structure Totals where
  candidateIds : List Nat
  tokens : Nat
  bytes : Nat
  deriving DecidableEq, Repr

/-- One iteration of the loop of `parse`. -/
def parseCandidate (contract : String) (dimension dtype : Nat) (totals : Totals) :
    Fallible String Reader
      ({ candidate : Descriptor // candidate.dimension = dimension ∧ candidate.dtype = dtype } ×
        Totals) := do
  let candidateId ← Reader.unsigned 4
  let rows ← Reader.unsigned 4
  let referenceBytes ← Reader.unsigned 4
  let checksumBytes ← Reader.unsigned 4
  Fallible.require (candidateId ∉ totals.candidateIds) "duplicate candidate ID"
  let tensorRef ← readText referenceBytes 4096 "tensor reference"
  let checksum ← readText checksumBytes 512 "tensor checksum"
  let digest ← Fallible.lift (readDigest tensorRef checksum)
  let bytes ← Fallible.lift (tensorBytes rows dimension dtype)
  let tokens ← Fallible.lift ((checkedAdd totals.tokens rows).elim (throw "token overflow") pure)
  let bytes ← Fallible.lift ((checkedAdd totals.bytes bytes).elim (throw "byte overflow") pure)
  Fallible.require (¬ (1000000 < tokens ∨ 1024 * 1024 * 1024 < bytes))
    "request exceeds tensor limits"
  pure (⟨⟨candidateId, contract, digest, rows, dimension, dtype⟩, rfl, rfl⟩,
    ⟨candidateId :: totals.candidateIds, tokens, bytes⟩)

/-- The loop of `parse`. -/
def parseCandidates (contract : String) (dimension dtype : Nat) : (count : Nat) → Totals →
    Fallible String Reader { candidates : List Descriptor // Uniform dimension dtype candidates }
  | 0, _ => pure ⟨[], List.forall_mem_nil _⟩
  | count + 1, totals => do
    let (candidate, totals) ← parseCandidate contract dimension dtype totals
    let candidates ← parseCandidates contract dimension dtype count totals
    pure ⟨candidate.1 :: candidates.1, candidates.2.cons candidate.2⟩

/-- `VERSION_EXTERNAL`. -/
def versionExternal : Nat := 2

/-- `VERSION_SCHEDULED_EXTERNAL`. -/
def versionScheduledExternal : Nat := 3

/-- `HEADER_BYTES`. -/
def headerBytes : Nat := 24

/-- `MAGIC`. -/
def magic : List UInt8 := utf8 "VCTM"

/-- Priority, timeout and length of the tenant, which only scheduled requests carry. -/
def parseScheduling (version : Nat) : Fallible String Reader (Int × Nat × Nat) :=
  if version = versionScheduledExternal then do
    let priority ← Reader.signed 4
    let timeoutMs ← Reader.unsigned 4
    let tenantBytes ← Reader.unsigned 4
    pure (priority, timeoutMs, tenantBytes)
  else pure (0, 0, 0)

def parseTenant (version tenantBytes : Nat) : Fallible String Reader String :=
  if version = versionScheduledExternal then readText tenantBytes 256 "scheduler tenant"
  else pure "__default__"

/-- `Reader::finish`. -/
def finish : Fallible String Reader Unit :=
  Reader.finishOr "trailing request bytes"

/-- The fields in front of the query. -/
structure Preamble where
  dimension : Nat
  queryRows : Nat
  candidateCount : Nat
  dtype : Nat
  priority : Int
  timeoutMs : Nat
  contract : String
  tenant : String
  deriving DecidableEq, Repr

/-- `parse`, from the header to the query. -/
def parsePreamble (version : Nat) : Fallible String Reader Preamble := do
  let dimension ← Reader.unsigned 4
  let queryRows ← Reader.unsigned 4
  let candidateCount ← Reader.unsigned 4
  let dtype ← Reader.unsigned 1
  let scoring ← Reader.unsigned 1
  let reserved ← Reader.unsigned 2
  let contractBytes ← Reader.unsigned 4
  Fallible.require (¬ (scoring ≠ 1 ∨ reserved ≠ 0)) "unsupported scoring function or reserved bits"
  Fallible.require (candidateCount ≤ 65536) "too many candidates"
  let (priority, timeoutMs, tenantBytes) ← parseScheduling version
  Fallible.require (-100 ≤ priority ∧ priority ≤ 100)
    "scheduler priority must be between -100 and 100"
  Fallible.require (¬ (version = versionScheduledExternal ∧ ¬ (1 ≤ timeoutMs ∧ timeoutMs ≤ 600000)))
    "scheduler timeout must be between 1 and 600000 milliseconds"
  let contract ← readText contractBytes 512 "model contract"
  let tenant ← parseTenant version tenantBytes
  pure ⟨dimension, queryRows, candidateCount, dtype, priority, timeoutMs, contract, tenant⟩

/-- `parse`, behind the header. -/
def parseBody (version requestId : Nat) : Fallible String Reader Request := do
  let preamble ← parsePreamble version
  let queryBytes ←
    Fallible.lift (tensorBytes preamble.queryRows preamble.dimension preamble.dtype)
  let query ← Reader.take queryBytes
  Fallible.require (validateFinite query preamble.dtype = true) "query contains a non-finite value"
  let candidates ← parseCandidates preamble.contract preamble.dimension preamble.dtype
    preamble.candidateCount ⟨[], preamble.queryRows, queryBytes⟩
  finish
  pure {
    protocolVersion := version
    requestId := requestId
    tenant := preamble.tenant
    priority := preamble.priority
    timeoutMs := preamble.timeoutMs
    queryRows := preamble.queryRows
    dimension := preamble.dimension
    dtype := preamble.dtype
    query := query
    candidates := candidates.1
    uniform := candidates.2 }

/-- `parse`. -/
def parse (frame : List UInt8) : Except String Request :=
  if frame.length < headerBytes then throw "truncated request header"
  else if frame.take 4 ≠ magic then throw "invalid protocol magic"
  else
    let version := fromLe ((frame.drop 4).take 2)
    let kind := fromLe ((frame.drop 6).take 2)
    let requestId := fromLe ((frame.drop 8).take 8)
    let bodyBytes := fromLe ((frame.drop 16).take 8)
    if (version ≠ versionExternal ∧ version ≠ versionScheduledExternal) ∨ kind ≠ 1 then
      throw "Rust daemon requires TileMaxSim external protocol v2 or v3"
    else if bodyBytes ≠ frame.length - headerBytes then throw "request body length mismatch"
    else ((parseBody version requestId).step ⟨frame.drop headerBytes, 0⟩).1

/-! ## Responses -/

/-- The header of a response. -/
def responseHeader (version : UInt16) (requestId : UInt64) (bodyBytes : Nat) : List UInt8 :=
  magic ++ (le 2 version.toNat ++ (le 2 2 ++ (le 8 requestId.toNat ++ le 8 bodyBytes)))

/-- A result: the candidate and the bits of its score. -/
def resultBytes (result : UInt32 × BitVec 32) : List UInt8 :=
  le 4 result.1.toNat ++ le 4 result.2.toNat

/-- `success`. -/
def success (version : UInt16) (requestId : UInt64) (results : List (UInt32 × BitVec 32)) :
    List UInt8 :=
  responseHeader version requestId (8 + results.length * 8) ++
    (le 4 0 ++ (le 4 results.length ++ results.flatMap resultBytes))

/-- `failure`. -/
def failure (version : UInt16) (requestId : UInt64) (status : UInt32) (message : String) :
    List UInt8 :=
  let message := (utf8 message).take (min (utf8 message).length (64 * 1024))
  responseHeader version requestId (8 + message.length) ++
    (le 4 (max status.toNat 1) ++ (le 4 message.length ++ message))

end VectorChord.Tilemaxsimd
