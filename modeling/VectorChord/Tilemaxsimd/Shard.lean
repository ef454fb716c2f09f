import VectorChord.Tilemaxsimd.Protocol

/-!
# Shards

The immutable store of tensors.  A tensor is found by its contract and digest; caches keep
it under a key that also has its shape, and no two shapes or tensors share a key as long as
their digests are proper.
-/

namespace VectorChord.Tilemaxsimd

open Codec Collections Transition List

/-! ## Keys -/

/-- The format of `cache_key`. -/
def keyOf (contract digest : String) (rows dimension dtype : Nat) : String :=
  contract ++ ":" ++ digest ++ ":" ++ toString rows ++ ":" ++ toString dimension ++ ":" ++
    toString dtype

/-- `cache_key`. -/
def cacheKey (descriptor : Descriptor) : String :=
  keyOf descriptor.contract descriptor.digest.1 descriptor.rows descriptor.dimension
    descriptor.dtype

/-- Two descriptors of the same tensor. -/
structure SameTensor (left right : Descriptor) : Prop where
  contract : left.contract = right.contract
  digest : left.digest = right.digest
  rows : left.rows = right.rows
  dimension : left.dimension = right.dimension
  dtype : left.dtype = right.dtype

/-- A list splits in one way at the last of its separators. -/
theorem append_cons_inj_of_notMem_right {α : Type} {separator : α}
    {left left' right right' : List α} (clear : separator ∉ right) (clear' : separator ∉ right')
    (equal : left ++ separator :: right = left' ++ separator :: right') :
    left = left' ∧ right = right' := by
  rcases append_eq_append_iff.mp equal with ⟨middle, rfl, rest⟩ | ⟨middle, rfl, rest⟩
  · cases middle with
    | nil => exact ⟨(append_nil _).symm, (List.cons.inj rest).2⟩
    | cons first middle =>
      apply absurd _ clear
      rw [(List.cons.inj rest).2]
      exact mem_append_right _ mem_cons_self
  · cases middle with
    | nil => exact ⟨append_nil _, (List.cons.inj rest).2.symm⟩
    | cons first middle =>
      apply absurd _ clear'
      rw [(List.cons.inj rest).2]
      exact mem_append_right _ mem_cons_self

theorem append_separator_inj {left left' right right' : String}
    (clear : ':' ∉ right.toList) (clear' : ':' ∉ right'.toList)
    (equal : left ++ ":" ++ right = left' ++ ":" ++ right') : left = left' ∧ right = right' := by
  have lists : left.toList ++ ':' :: right.toList = left'.toList ++ ':' :: right'.toList := by
    have same := congrArg String.toList equal
    rw [String.toList_append, String.toList_append, String.toList_append, String.toList_append,
      append_assoc, append_assoc] at same
    exact same
  rcases append_cons_inj_of_notMem_right clear clear' lists with ⟨before, behind⟩
  exact ⟨String.toList_inj.mp before, String.toList_inj.mp behind⟩

theorem separator_notMem_toString (value : Nat) : ':' ∉ (toString value).toList := by
  rw [Nat.toString_eq_repr, Nat.toList_repr]
  intro member
  have digit := Nat.isDigit_of_mem_toDigits (by decide) (Nat.le_refl 10) member
  exact absurd digit (by decide)

theorem separator_notMem_digest {text : String} (proper : isDigest text = true) :
    ':' ∉ text.toList := by
  intro member
  rcases append_of_mem member with ⟨before, behind, split⟩
  have parts : text = String.ofList before ++ ":" ++ String.ofList behind := by
    apply String.toList_inj.mp
    simp only [String.toList_append, String.toList_ofList, append_assoc]
    exact split
  have byte : (58 : UInt8) ∈ utf8 text := by
    rw [parts, utf8_append, utf8_append]
    apply mem_append_left
    apply mem_append_right
    decide
  have digits := (Bool.and_eq_true_iff.mp proper).2
  exact absurd (all_eq_true.mp digits 58 byte) (by decide)

theorem toString_nat_inj {left right : Nat} (equal : toString left = toString right) :
    left = right := by
  have digits := congrArg (fun text => Nat.ofDigitChars 10 text.toList 0) equal
  simpa only [Nat.toString_eq_repr, Nat.toList_repr, Nat.ofDigitChars_ten_toDigits] using digits

section

variable {contract contract' digest digest' : String}
  {rows rows' dimension dimension' dtype dtype' : Nat}

/-- A key determines the shape of its tensor, and what is in front of it. -/
theorem keyOf_shape
    (equal : keyOf contract digest rows dimension dtype =
      keyOf contract' digest' rows' dimension' dtype') :
    contract ++ ":" ++ digest = contract' ++ ":" ++ digest' ∧ rows = rows' ∧
      dimension = dimension' ∧ dtype = dtype' := by
  rcases append_separator_inj (separator_notMem_toString _) (separator_notMem_toString _) equal
    with ⟨equal, dtype⟩
  rcases append_separator_inj (separator_notMem_toString _) (separator_notMem_toString _) equal
    with ⟨equal, dimension⟩
  rcases append_separator_inj (separator_notMem_toString _) (separator_notMem_toString _) equal
    with ⟨equal, rows⟩
  exact ⟨equal, toString_nat_inj rows, toString_nat_inj dimension, toString_nat_inj dtype⟩

/-- Between proper digests it also determines the contract and the digest: only the contract
can contain the separator. -/
theorem keyOf_reference (proper : isDigest digest = true) (proper' : isDigest digest' = true)
    (equal : keyOf contract digest rows dimension dtype =
      keyOf contract' digest' rows' dimension' dtype') :
    contract = contract' ∧ digest = digest' :=
  append_separator_inj (separator_notMem_digest proper) (separator_notMem_digest proper')
    (keyOf_shape equal).1

end

/-- A key determines its tensor. -/
theorem cacheKey_inj {left right : Descriptor} (equal : cacheKey left = cacheKey right) :
    SameTensor left right := by
  rcases keyOf_shape equal with ⟨_, rows, dimension, dtype⟩
  rcases keyOf_reference left.digest.2 right.digest.2 equal with ⟨contract, digest⟩
  exact ⟨contract, Subtype.ext digest, rows, dimension, dtype⟩

/-! ## Store -/

/-- `tensor_bytes` of the store, which accepts empty tensors. -/
def shardTensorBytes (rows dimension dtype : Nat) : Except String Nat := do
  let scalar ←
    match dtype with
    | 1 => pure 4
    | 2 => pure 2
    | _ => throw "unsupported tensor dtype"
  match (checkedMul rows dimension).bind fun value => checkedMul value scalar with
  | none => throw "tensor shape overflow"
  | some bytes => pure bytes

/-- Bytes of a scalar, for the types that the store accepts. -/
def scalarBytes (dtype : Nat) : Nat := if dtype = 1 then 4 else 2

/-- `ShardStore`: the bytes behind each reference never change. -/
structure ShardStore where
  content : (contract : String) → Digest → List UInt8

namespace ShardStore

variable (self : ShardStore)

/-- The bytes of a tensor. -/
def payload (descriptor : Descriptor) : List UInt8 :=
  self.content descriptor.contract descriptor.digest

/-- `resolve_many` for one descriptor. -/
def resolve (descriptor : Descriptor) : Except String (List UInt8) := do
  let expected ← shardTensorBytes descriptor.rows descriptor.dimension descriptor.dtype
  if (self.payload descriptor).length ≠ expected then
    throw "immutable tensor object length disagrees with its descriptor"
  else pure (self.payload descriptor)

/-- `resolve_many`, where a read may fail. -/
def resolveMany (failure : Option String) (descriptors : List Descriptor) :
    Except String (List (List UInt8)) :=
  match failure with
  | some error => throw error
  | none => descriptors.mapM self.resolve

/-- The descriptor gives the length of its tensor. -/
def Fits (descriptor : Descriptor) : Prop :=
  shardTensorBytes descriptor.rows descriptor.dimension descriptor.dtype =
    .ok (self.payload descriptor).length

variable {self : ShardStore}

theorem resolve_eq_ok {descriptor : Descriptor} {bytes : List UInt8}
    (resolved : self.resolve descriptor = .ok bytes) :
    bytes = self.payload descriptor ∧ self.Fits descriptor := by
  unfold resolve at resolved
  cases expected : shardTensorBytes descriptor.rows descriptor.dimension descriptor.dtype with
  | error message =>
    rw [expected] at resolved
    cases resolved
  | ok length =>
    rw [expected] at resolved
    obtain ⟨same, resolved⟩ := Fallible.guard_eq_ok.mp resolved
    cases resolved
    constructor
    · rfl
    · rw [Fits, expected, Decidable.not_not.mp same]

/-- `resolve_many` returns the bytes of all tensors, or an error of the reads or of one of
the descriptors. -/
theorem resolveMany_spec (self : ShardStore) (failure : Option String)
    (descriptors : List Descriptor) :
    match self.resolveMany failure descriptors with
    | .ok payloads => payloads = descriptors.map self.payload ∧
        ∀ descriptor ∈ descriptors, self.Fits descriptor
    | .error error => failure = some error ∨
        ∃ descriptor ∈ descriptors, self.resolve descriptor = .error error := by
  cases failure with
  | some error => exact .inl rfl
  | none =>
    change match descriptors.mapM self.resolve with | .ok _ => _ | .error _ => _
    cases resolved : descriptors.mapM self.resolve with
    | error error => exact .inr (Fallible.mapM_eq_error resolved)
    | ok payloads =>
      constructor
      · exact Fallible.eq_map_of_mapM_eq_ok (fun _ _ done => (resolve_eq_ok done).1) resolved
      · intro descriptor member
        rcases Fallible.exists_of_mapM_eq_ok resolved member with ⟨bytes, done⟩
        exact (resolve_eq_ok done).2

end ShardStore

theorem shardTensorBytes_eq_ok {rows dimension dtype bytes : Nat}
    (counted : shardTensorBytes rows dimension dtype = .ok bytes) :
    bytes = rows * dimension * scalarBytes dtype ∧ bytes ≤ usizeMax := by
  unfold shardTensorBytes at counted
  have sized : ∀ scalar, (match (checkedMul rows dimension).bind fun value =>
        checkedMul value scalar with
      | none => (throw "tensor shape overflow" : Except String Nat)
      | some bytes => pure bytes) = .ok bytes →
      bytes = rows * dimension * scalar ∧ bytes ≤ usizeMax := by
    intro scalar known
    cases product : (checkedMul rows dimension).bind fun value => checkedMul value scalar with
    | none =>
      rw [product] at known
      cases known
    | some total =>
      rw [product] at known
      cases known
      rcases Option.bind_eq_some_iff.mp product with ⟨first, inner, outer⟩
      unfold checkedMul at inner outer
      obtain ⟨_, inner⟩ := Option.ite_none_right_eq_some.mp inner
      split at outer
      next small =>
        cases inner
        cases outer
        exact ⟨rfl, small⟩
      next => cases outer
  split at counted
  next => exact sized 4 counted
  next => exact sized 2 counted
  next => cases counted

end VectorChord.Tilemaxsimd
