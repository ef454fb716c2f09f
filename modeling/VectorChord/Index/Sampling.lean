import VectorChord.Codec.Bytes

/-!
# Sampling the blocks of a table

Building an index reads a sample of the table, block by block in an order drawn at random.
The order comes from a Feistel network over the numbers of an even width of bits; numbers
that no block has are skipped.  The network is a permutation whatever its round function
computes, so every block comes up once, as long as the width is below the size of the
integers in use.
-/

namespace VectorChord.Sampling

open Codec List BitVec
open Option (bind_eq_bind bind_some)

/-- A build with overflow checks panics where a release build goes on. -/
inductive Profile where
  | dev
  | release
  deriving DecidableEq

section Feistel
variable {bits : Nat}

/-- Shifting by too much panics, or the amount is taken modulo the size of the type. -/
def shiftAmount (profile : Profile) (bits amount : Nat) : Option Nat :=
  if amount < bits then some amount
  else match profile with
    | .dev => none
    | .release => some (amount % bits)

def shl (profile : Profile) (x : BitVec bits) (amount : Nat) : Option (BitVec bits) :=
  (shiftAmount profile bits amount).map (x <<< ·)

def shr (profile : Profile) (x : BitVec bits) (amount : Nat) : Option (BitVec bits) :=
  (shiftAmount profile bits amount).map (x >>> ·)

/-- One round: the halves change places and one of them is masked by the other. -/
def feistelRound (secret : Nat → BitVec bits → BitVec bits) (halfMask : BitVec bits)
    (halves : BitVec bits × BitVec bits) (i : Nat) : BitVec bits × BitVec bits :=
  (halves.2, halves.1 ^^^ (secret i halves.2 &&& halfMask))

def feistel (profile : Profile) (width : Nat) (x : BitVec bits) (round : Nat)
    (secret : Nat → BitVec bits → BitVec bits) : Option (BitVec bits) := do
  guard (width % 2 = 0)
  guard ((← shr profile x width) = 0)
  let halfWidth := width >>> 1
  let halfMask := (← shl profile 1 halfWidth) - 1
  let left := (← shr profile x halfWidth) &&& halfMask
  let right := x &&& halfMask
  let (left, right) := (List.range round).foldl (feistelRound secret halfMask) (left, right)
  return (← shl profile left halfWidth) ||| right

theorem shiftAmount_of_lt (profile : Profile) {bits amount : Nat} (small : amount < bits) :
    shiftAmount profile bits amount = some amount := by
  simp [shiftAmount, small]

theorem feistelRound_injective (secret : Nat → BitVec bits → BitVec bits)
    (halfMask : BitVec bits) (i : Nat) :
    Function.Injective (feistelRound secret halfMask · i) := by
  rintro ⟨left, right⟩ ⟨left', right'⟩ same
  simp only [feistelRound, Prod.mk.injEq] at same
  obtain ⟨rfl, masked⟩ := same
  have unmasked := congrArg (· ^^^ (secret i right &&& halfMask)) masked
  simp only [BitVec.xor_assoc, BitVec.xor_self, BitVec.xor_zero] at unmasked
  rw [unmasked]

theorem rounds_injective (secret : Nat → BitVec bits → BitVec bits) (halfMask : BitVec bits)
    (rounds : List Nat) :
    Function.Injective fun halves => rounds.foldl (feistelRound secret halfMask) halves := by
  induction rounds with
  | nil => exact Function.injective_id
  | cons i rounds ih => exact ih.comp (feistelRound_injective secret halfMask i)

/-- Both halves of a block have at most half of its bits. -/
def Halved (halfWidth : Nat) (halves : BitVec bits × BitVec bits) : Prop :=
  halves.1.toNat < 2 ^ halfWidth ∧ halves.2.toNat < 2 ^ halfWidth

/-- The bits that belong to one half. -/
def halfMask (bits halfWidth : Nat) : BitVec bits := (1 : BitVec bits) <<< halfWidth - 1

variable {halfWidth : Nat}

theorem toNat_halfMask (small : halfWidth < bits) :
    (halfMask bits halfWidth).toNat = 2 ^ halfWidth - 1 := by
  have positive := Nat.two_pow_pos halfWidth
  have fits := Nat.pow_lt_pow_right Nat.one_lt_two small
  have one : (1 : BitVec bits).toNat = 1 := toNat_one (by omega)
  have shifted : ((1 : BitVec bits) <<< halfWidth).toNat = 2 ^ halfWidth := by
    rw [toNat_shiftLeft, one, Nat.one_shiftLeft, Nat.mod_eq_of_lt fits]
  rw [halfMask, toNat_sub_of_le (by rw [le_def]; omega), shifted, one]

theorem toNat_and_halfMask (small : halfWidth < bits) (x : BitVec bits) :
    (x &&& halfMask bits halfWidth).toNat = x.toNat % 2 ^ halfWidth := by
  rw [toNat_and, toNat_halfMask small, Nat.and_two_pow_sub_one_eq_mod]

theorem Halved.rounds (small : halfWidth < bits) (secret : Nat → BitVec bits → BitVec bits)
    (rounds : List Nat) {halves : BitVec bits × BitVec bits} (halved : Halved halfWidth halves) :
    Halved halfWidth (rounds.foldl (feistelRound secret (halfMask bits halfWidth)) halves) := by
  induction rounds generalizing halves with
  | nil => exact halved
  | cons i rounds ih =>
    apply ih
    refine ⟨halved.2, ?_⟩
    apply Nat.xor_lt_two_pow halved.1
    rw [toNat_and_halfMask small]
    exact Nat.mod_lt _ (Nat.two_pow_pos halfWidth)

/-- The two halves of a block. -/
def halves (halfWidth : Nat) (x : BitVec bits) : BitVec bits × BitVec bits :=
  ((x >>> halfWidth) &&& halfMask bits halfWidth, x &&& halfMask bits halfWidth)

theorem halved_halves (small : halfWidth < bits) (x : BitVec bits) :
    Halved halfWidth (halves halfWidth x) := by
  constructor <;>
  · rw [halves, toNat_and_halfMask small]
    exact Nat.mod_lt _ (Nat.two_pow_pos halfWidth)

theorem halves_injective (small : halfWidth < bits) {x y : BitVec bits}
    (inX : x.toNat < 2 ^ (2 * halfWidth)) (inY : y.toNat < 2 ^ (2 * halfWidth))
    (same : halves halfWidth x = halves halfWidth y) : x = y := by
  have half : ∀ z : BitVec bits, z.toNat < 2 ^ (2 * halfWidth) →
      z.toNat >>> halfWidth < 2 ^ halfWidth := by
    intro z inside
    rw [Nat.shiftRight_eq_div_pow]
    apply Nat.div_lt_of_lt_mul
    rwa [← Nat.pow_add, ← Nat.two_mul]
  have parts := Prod.mk.inj same
  have high := congrArg BitVec.toNat parts.1
  have low := congrArg BitVec.toNat parts.2
  rw [toNat_and_halfMask small, toNat_and_halfMask small, toNat_ushiftRight,
    toNat_ushiftRight, Nat.mod_eq_of_lt (half x inX), Nat.mod_eq_of_lt (half y inY),
    Nat.shiftRight_eq_div_pow, Nat.shiftRight_eq_div_pow] at high
  rw [toNat_and_halfMask small, toNat_and_halfMask small] at low
  apply eq_of_toNat_eq
  rw [← Nat.div_add_mod x.toNat (2 ^ halfWidth), high, low, Nat.div_add_mod]

/-- A block put together from its halves. -/
def joined (halfWidth : Nat) (halves : BitVec bits × BitVec bits) : BitVec bits :=
  halves.1 <<< halfWidth ||| halves.2

theorem toNat_joined (fits : 2 * halfWidth < bits) {halves : BitVec bits × BitVec bits}
    (halved : Halved halfWidth halves) :
    (joined halfWidth halves).toNat = 2 ^ halfWidth * halves.1.toNat + halves.2.toNat := by
  have small : halves.1.toNat * 2 ^ halfWidth < 2 ^ bits := by
    calc halves.1.toNat * 2 ^ halfWidth
        < 2 ^ halfWidth * 2 ^ halfWidth :=
          Nat.mul_lt_mul_of_pos_right halved.1 (Nat.two_pow_pos halfWidth)
      _ = 2 ^ (2 * halfWidth) := by rw [← Nat.pow_add, ← Nat.two_mul]
      _ < 2 ^ bits := Nat.pow_lt_pow_right Nat.one_lt_two fits
  rw [joined, toNat_or, toNat_shiftLeft, Nat.shiftLeft_eq, Nat.mod_eq_of_lt small,
    ← Nat.shiftLeft_eq, ← Nat.shiftLeft_add_eq_or_of_lt halved.2, Nat.shiftLeft_eq, mul_comm]

theorem joined_injective (fits : 2 * halfWidth < bits) {a b : BitVec bits × BitVec bits}
    (halvedA : Halved halfWidth a) (halvedB : Halved halfWidth b)
    (same : joined halfWidth a = joined halfWidth b) : a = b := by
  have numbers := congrArg BitVec.toNat same
  rw [toNat_joined fits halvedA, toNat_joined fits halvedB] at numbers
  have high := congrArg (· / 2 ^ halfWidth) numbers
  have low := congrArg (· % 2 ^ halfWidth) numbers
  simp only [Nat.mul_add_div (Nat.two_pow_pos halfWidth), Nat.div_eq_of_lt halvedA.2,
    Nat.div_eq_of_lt halvedB.2, add_zero] at high
  simp only [Nat.mul_add_mod, Nat.mod_eq_of_lt halvedA.2, Nat.mod_eq_of_lt halvedB.2] at low
  exact Prod.ext (eq_of_toNat_eq high) (eq_of_toNat_eq low)

/-- What the network computes on the blocks of its width. -/
def network (halfWidth round : Nat) (secret : Nat → BitVec bits → BitVec bits)
    (x : BitVec bits) : BitVec bits :=
  joined halfWidth ((List.range round).foldl (feistelRound secret (halfMask bits halfWidth))
    (halves halfWidth x))

section
variable {halfWidth round : Nat} {secret : Nat → BitVec bits → BitVec bits}

theorem feistel_eq (profile : Profile) (fits : 2 * halfWidth < bits) {x : BitVec bits}
    (inside : x.toNat < 2 ^ (2 * halfWidth)) :
    feistel profile (2 * halfWidth) x round secret = some (network halfWidth round secret x) := by
  have small : halfWidth < bits := by omega
  have half : (2 * halfWidth) >>> 1 = halfWidth := by
    rw [Nat.shiftRight_one, Nat.mul_div_cancel_left halfWidth Nat.two_pos]
  have nothing : x >>> (2 * halfWidth) = 0 := by
    apply eq_of_toNat_eq
    rw [toNat_ushiftRight, Nat.shiftRight_eq_div_pow, Nat.div_eq_of_lt inside]
    rfl
  simp [feistel, shl, shr, shiftAmount_of_lt profile fits, shiftAmount_of_lt profile small, half,
    nothing, network, halves, joined, halfMask]

theorem network_lt (fits : 2 * halfWidth < bits) (x : BitVec bits) :
    (network halfWidth round secret x).toNat < 2 ^ (2 * halfWidth) := by
  have small : halfWidth < bits := by omega
  have halved := (halved_halves small x).rounds small secret (List.range round)
  rw [network, toNat_joined fits halved, Nat.two_mul, Nat.pow_add]
  calc 2 ^ halfWidth * _ + _
      < 2 ^ halfWidth * _ + 2 ^ halfWidth := Nat.add_lt_add_left halved.2 _
    _ ≤ 2 ^ halfWidth * 2 ^ halfWidth := Nat.mul_succ _ _ ▸ Nat.mul_le_mul_left _ halved.1

theorem network_injective (fits : 2 * halfWidth < bits) {x y : BitVec bits}
    (inX : x.toNat < 2 ^ (2 * halfWidth)) (inY : y.toNat < 2 ^ (2 * halfWidth))
    (same : network halfWidth round secret x = network halfWidth round secret y) : x = y := by
  have small : halfWidth < bits := by omega
  have halved := fun z : BitVec bits =>
    (halved_halves small z).rounds small secret (List.range round)
  apply halves_injective small inX inY
  exact rounds_injective secret _ _ (joined_injective fits (halved x) (halved y) same)

/-- The network permutes the numbers of its width. -/
theorem network_perm (round : Nat) (secret : Nat → BitVec bits → BitVec bits)
    (fits : 2 * halfWidth < bits) :
    ((List.range (2 ^ (2 * halfWidth))).map fun i =>
      (network halfWidth round secret (BitVec.ofNat bits i)).toNat).Perm
      (List.range (2 ^ (2 * halfWidth))) := by
  have number : ∀ i ∈ List.range (2 ^ (2 * halfWidth)), (BitVec.ofNat bits i).toNat = i := by
    intro i inside
    have bound := Nat.pow_lt_pow_right Nat.one_lt_two fits
    exact toNat_ofNat i bits ▸ Nat.mod_eq_of_lt ((mem_range.mp inside).trans bound)
  have nodup : ((List.range (2 ^ (2 * halfWidth))).map fun i =>
      (network halfWidth round secret (BitVec.ofNat bits i)).toNat).Nodup := by
    apply List.Nodup.map_on _ nodup_range
    intro i inI j inJ same
    rw [← number i inI, ← number j inJ]
    apply congrArg
    apply network_injective fits _ _ (eq_of_toNat_eq same)
    · exact (number i inI).symm ▸ mem_range.mp inI
    · exact (number j inJ).symm ▸ mem_range.mp inJ
  apply (subperm_of_subset nodup _).perm_of_length_le
  · simp
  · intro y found
    obtain ⟨i, _, rfl⟩ := mem_map.mp found
    exact mem_range.mpr (network_lt fits _)

/-- `feistel` maps the numbers of an even width one-to-one onto themselves.  That each
image is a number means that no assertion fails. -/
theorem feistel_bijOn (profile : Profile) {width : Nat} (even : width % 2 = 0)
    (below : width < bits) (round : Nat) (secret : Nat → BitVec bits → BitVec bits) :
    Set.BijOn (fun x => feistel profile width x round secret) {x | x.toNat < 2 ^ width}
      (some '' {x | x.toNat < 2 ^ width}) := by
  obtain ⟨halfWidth, rfl⟩ := Nat.dvd_of_mod_eq_zero even
  have computed : ∀ {x : BitVec bits}, x.toNat < 2 ^ (2 * halfWidth) →
      feistel profile (2 * halfWidth) x round secret = some (network halfWidth round secret x) :=
    feistel_eq profile below
  refine ⟨?_, ?_, ?_⟩
  · intro x inside
    exact ⟨_, network_lt below x, (computed inside).symm⟩
  · intro x inX y inY same
    dsimp only at same
    rw [computed inX, computed inY] at same
    exact network_injective below inX inY (Option.some_inj.mp same)
  · rintro _ ⟨y, inside, rfl⟩
    have listed := (network_perm round secret below).mem_iff.mpr (mem_range.mpr inside)
    obtain ⟨i, inI, image⟩ := mem_map.mp listed
    have start : (BitVec.ofNat bits i).toNat < 2 ^ (2 * halfWidth) :=
      toNat_ofNat i bits ▸ (Nat.mod_le _ _).trans_lt (mem_range.mp inI)
    refine ⟨BitVec.ofNat bits i, start, ?_⟩
    exact (computed start).trans (congrArg some (eq_of_toNat_eq image))

theorem feistel_bijOn_u8 :
    Set.BijOn (fun x : BitVec 8 => feistel .dev 4 x 3 fun i y => y * y + BitVec.ofNat 8 i)
      {x | x.toNat < 2 ^ 4} (some '' {x | x.toNat < 2 ^ 4}) :=
  feistel_bijOn .dev (by decide) (by decide) 3 _

end

end Feistel

/-! ## The order of the blocks -/

/-- `(0..1 << width).map(..).filter(..)`: the numbers to come of the range, the width and
secret of the network, and the bound of the filter. -/
structure Permutation where
  rest : List (BitVec 32)
  width : Nat
  secret : Nat → BitVec 32 → BitVec 32
  n : Nat

/-- The next number below the bound. -/
def Permutation.next (profile : Profile) (it : Permutation) :
    Option (Option (BitVec 32) × Permutation) :=
  go it.rest
where
  go : List (BitVec 32) → Option (Option (BitVec 32) × Permutation)
    | [] => some (none, { it with rest := [] })
    | i :: rest => do
      let x ← feistel profile it.width i 8 it.secret
      if x.toNat < it.n then some (some x, { it with rest := rest }) else go rest

/-- A hash function in the place of `wyhash`. -/
abbrev Hash := List UInt8 → UInt64 → UInt64

def secretOf (wyhash : Hash) (key0 key1 : List UInt8) (round : Nat) (x : BitVec 32) : BitVec 32 :=
  BitVec.ofNat 32 (wyhash (le 4 round ++ le 4 x.toNat ++ key0 ++ key1) 0).toNat

/-- `u32::next_multiple_of` at two. -/
def nextMultipleOfTwo (x : Nat) : Nat := (x + 1) / 2 * 2

def sample (profile : Profile) (wyhash : Hash) (key0 key1 : List UInt8) (n : Nat) :
    Option Permutation := do
  guard (n ≠ 0)
  let width := nextMultipleOfTwo (n.log2 + 1)
  let stop ← shl profile (1 : BitVec 32) width
  return {
    rest := (List.range stop.toNat).map (BitVec.ofNat 32)
    width := width
    secret := secretOf wyhash key0 key1
    n := n }

/-- The results of the next calls of `next`. -/
def Permutation.nexts (profile : Profile) :
    Nat → Permutation → Option (List (Option (BitVec 32)))
  | 0, _ => some []
  | k + 1, it => do
    let (item, it) ← it.next profile
    return item :: (← Permutation.nexts profile k it)

def invalidBlockNumber : Nat := 2 ^ 32 - 1

/-- `State`: the blocks to come, once the first of them has been asked for. -/
abbrev State := Option Permutation

def feistelRowsNextsampleblock (profile : Profile) (wyhash : Hash) (key0 key1 : List UInt8)
    (blocks : State) (nblocks : Nat) : Option (Nat × State) := do
  let iter ← blocks.elim (sample profile wyhash key0 key1 nblocks) some
  let (item, iter) ← iter.next profile
  return (item.elim invalidBlockNumber BitVec.toNat, some iter)

/-- The blocks that a scan of a table of `nblocks` blocks is given by its next calls. -/
def scan (profile : Profile) (wyhash : Hash) (key0 key1 : List UInt8) (nblocks : Nat) :
    Nat → State → Option (List Nat)
  | 0, _ => some []
  | k + 1, blocks => do
    let (block, blocks) ← feistelRowsNextsampleblock profile wyhash key0 key1 blocks nblocks
    return block :: (← scan profile wyhash key0 key1 nblocks k blocks)

/-- What calls return if the items come one by one, and `ended` behind them. -/
def answers {α : Type} (ended : α) : List α → Nat → List α
  | _, 0 => []
  | [], k + 1 => ended :: answers ended [] k
  | item :: items, k + 1 => item :: answers ended items k

theorem map_answers {α β : Type} (f : α → β) (ended : α) (items : List α) (k : Nat) :
    (answers ended items k).map f = answers (f ended) (items.map f) k := by
  induction k generalizing items with
  | zero => cases items <;> rfl
  | succ k ih => cases items <;> simp [answers, ih]

theorem answers_length {α : Type} (ended : α) (items : List α) :
    answers ended items items.length = items := by
  induction items with
  | nil => rfl
  | cons item items ih => rw [length_cons, answers, ih]

namespace Permutation
variable {profile : Profile} {it : Permutation} {value : BitVec 32 → BitVec 32}

/-- The items that are still to come, if the network computes `value`. -/
def items (it : Permutation) (value : BitVec 32 → BitVec 32) : List (BitVec 32) :=
  (it.rest.map value).filter fun x => x.toNat < it.n

/-- The network computes `value` on the numbers to come. -/
def Computes (profile : Profile) (it : Permutation) (value : BitVec 32 → BitVec 32) : Prop :=
  ∀ i ∈ it.rest, feistel profile it.width i 8 it.secret = some (value i)

/-- `next` gives the first item to come. -/
theorem next_eq (computes : it.Computes profile value) :
    ∃ rest, it.next profile = some ((it.items value).head?, { it with rest := rest }) ∧
      rest ⊆ it.rest ∧ { it with rest := rest }.items value = (it.items value).tail := by
  suffices found : ∀ numbers, (∀ i ∈ numbers, feistel profile it.width i 8 it.secret =
      some (value i)) → ∃ rest, next.go profile it numbers =
        some (({ it with rest := numbers }.items value).head?, { it with rest := rest }) ∧
      rest ⊆ numbers ∧ { it with rest := rest }.items value =
        ({ it with rest := numbers }.items value).tail from found it.rest computes
  intro numbers computes
  induction numbers with
  | nil => exact ⟨[], rfl, List.Subset.refl _, rfl⟩
  | cons i numbers ih =>
    by_cases below : (value i).toNat < it.n
    · refine ⟨numbers, ?_, subset_cons_self i numbers, ?_⟩
      · simp [next.go, computes i, below, items]
      · simp [items, below]
    · obtain ⟨rest, found, inside, left⟩ :=
        ih fun j member => computes j (mem_cons_of_mem i member)
      refine ⟨rest, ?_, subset_cons_of_subset i inside, ?_⟩
      · simp [next.go, computes i, below, found, items]
      · rw [left]
        simp [items, below]

/-- The calls of `next` give all items to come and then nothing. -/
theorem nexts_eq (computes : it.Computes profile value) (k : Nat) :
    it.nexts profile k = some (answers none ((it.items value).map some) k) := by
  induction k generalizing it with
  | zero => simp [nexts, answers]
  | succ k ih =>
    obtain ⟨rest, found, inside, left⟩ := next_eq computes
    have later : Computes profile { it with rest := rest } value :=
      fun i member => computes i (inside member)
    have others := ih later
    rw [left] at others
    simp only [nexts, found, bind_eq_bind, bind_some, others]
    cases it.items value <;> rfl

/-- A call of `next` uses up a number for the item that it returns. -/
theorem length_next_le {item : Option (BitVec 32)} {it' : Permutation}
    (called : it.next profile = some (item, it')) :
    item.toList.length + it'.rest.length ≤ it.rest.length := by
  suffices used : ∀ numbers, next.go profile it numbers = some (item, it') →
      item.toList.length + it'.rest.length ≤ numbers.length from used it.rest called
  intro numbers called
  induction numbers with
  | nil =>
    cases called
    exact le_refl 0
  | cons i numbers ih =>
    simp only [next.go, bind_eq_bind, Option.bind_eq_some_iff] at called
    obtain ⟨x, _, chosen⟩ := called
    split at chosen
    · cases chosen
      simp [add_comm]
    · exact (ih chosen).trans (Nat.le_succ _)

theorem length_nexts_le {k : Nat} {results : List (Option (BitVec 32))}
    (called : it.nexts profile k = some results) :
    (results.filterMap fun item => item).length ≤ it.rest.length := by
  induction k generalizing it results with
  | zero =>
    cases called
    exact Nat.zero_le _
  | succ k ih =>
    simp only [nexts, bind_eq_bind, Option.bind_eq_some_iff] at called
    obtain ⟨⟨item, it'⟩, first, others, later, same⟩ := called
    cases same
    have used := length_next_le first
    have left : _ ≤ it'.rest.length := ih later
    cases item <;> simp at used ⊢ <;> omega

end Permutation

theorem filter_lt_range {n m : Nat} (enough : n ≤ m) :
    (List.range m).filter (fun x => x < n) = List.range n := by
  obtain ⟨d, rfl⟩ := Nat.le.dest enough
  rw [range_add, filter_append, filter_eq_self.mpr (by simp),
    filter_eq_nil_iff.mpr (by simp), append_nil]

section
variable {profile : Profile} {wyhash : Hash} {key0 key1 : List UInt8} {n : Nat}

/-- The iterator yields every block of the table once and then ends, and so does the scan. -/
def VisitsEveryBlock (profile : Profile) (wyhash : Hash) (key0 key1 : List UInt8) (n : Nat) :
    Prop :=
  ∃ order : List (BitVec 32), (order.map BitVec.toNat).Perm (List.range n) ∧
    (∀ k, (sample profile wyhash key0 key1 n).bind (Permutation.nexts profile k) =
      some (answers none (order.map some) k)) ∧
    ∀ k, scan profile wyhash key0 key1 n k none =
      some (answers invalidBlockNumber (order.map BitVec.toNat) k)

/-- A scan returns what the iterator yields. -/
theorem scan_some (it : Permutation) (k : Nat) :
    scan profile wyhash key0 key1 n k (some it) =
      (it.nexts profile k).map
        (List.map fun item => item.elim invalidBlockNumber BitVec.toNat) := by
  induction k generalizing it with
  | zero => rfl
  | succ k ih =>
    simp only [scan, feistelRowsNextsampleblock, Permutation.nexts, Option.elim_some,
      bind_eq_bind, bind_some]
    cases it.next profile with
    | none => rfl
    | some result =>
      simp only [bind_some, Option.pure_def, ih]
      cases result.2.nexts profile k <;> rfl

theorem scan_none {it : Permutation} (sampled : sample profile wyhash key0 key1 n = some it)
    (k : Nat) : scan profile wyhash key0 key1 n k none =
      scan profile wyhash key0 key1 n k (some it) := by
  cases k with
  | zero => rfl
  | succ k => simp [scan, feistelRowsNextsampleblock, sampled]

theorem sample_of_small (profile : Profile) (positive : 0 < n) (small : n < 2 ^ 30) :
    ∃ halfWidth, 2 * halfWidth < 32 ∧ n ≤ 2 ^ (2 * halfWidth) ∧
      sample profile wyhash key0 key1 n = some {
        rest := (List.range (2 ^ (2 * halfWidth))).map (BitVec.ofNat 32)
        width := 2 * halfWidth
        secret := secretOf wyhash key0 key1
        n := n } := by
  have nonzero : n ≠ 0 := ne_of_gt positive
  have log : n.log2 < 30 := (Nat.log2_lt nonzero).mpr small
  have fits : 2 * ((n.log2 + 2) / 2) < 32 := by omega
  refine ⟨(n.log2 + 2) / 2, fits, ?_, ?_⟩
  · have below : n < 2 ^ (n.log2 + 1) := Nat.lt_log2_self
    apply below.le.trans
    apply Nat.pow_le_pow_right Nat.two_pos
    omega
  · have width : nextMultipleOfTwo (n.log2 + 1) = 2 * ((n.log2 + 2) / 2) :=
      mul_comm _ _
    have stop : ((1 : BitVec 32) <<< (2 * ((n.log2 + 2) / 2))).toNat =
        2 ^ (2 * ((n.log2 + 2) / 2)) := by
      rw [toNat_shiftLeft, Nat.shiftLeft_eq]
      exact (Nat.mod_eq_of_lt (Nat.one_mul _ ▸ Nat.pow_lt_pow_right Nat.one_lt_two fits)).trans
        (Nat.one_mul _)
    have shifted : shl profile (1 : BitVec 32) (2 * ((n.log2 + 2) / 2)) =
        some ((1 : BitVec 32) <<< (2 * ((n.log2 + 2) / 2))) := by
      rw [shl, shiftAmount_of_lt profile fits, Option.map_some]
    simp only [sample, width, shifted, bind_eq_bind, bind_some, stop]
    simp [nonzero]

/-- In a larger table the end of the range is shifted out of its type: the shift panics, or
the range has one number. -/
theorem sample_of_large (large : 2 ^ 30 ≤ n) (proper : n < 2 ^ 32) :
    sample .dev wyhash key0 key1 n = none ∧ sample .release wyhash key0 key1 n = some {
      rest := [0]
      width := 32
      secret := secretOf wyhash key0 key1
      n := n } := by
  have nonzero : n ≠ 0 := ne_of_gt (lt_of_lt_of_le (Nat.two_pow_pos 30) large)
  have least : 30 ≤ n.log2 := (Nat.le_log2 nonzero).mpr large
  have most : n.log2 < 32 := (Nat.log2_lt nonzero).mpr proper
  have width : nextMultipleOfTwo (n.log2 + 1) = 32 := by
    rw [nextMultipleOfTwo]
    omega
  simp [sample, width, shl, shiftAmount, nonzero]

theorem not_visits_of_large (large : 2 ^ 30 ≤ n) (proper : n < 2 ^ 32) :
    ¬ VisitsEveryBlock profile wyhash key0 key1 n := by
  rintro ⟨order, blocks, iterated, _⟩
  obtain ⟨panics, sampled⟩ := @sample_of_large wyhash key0 key1 n large proper
  have length := blocks.length_eq
  rw [length_map, length_range] at length
  cases profile with
  | dev => cases panics ▸ iterated 0
  | release =>
    have called := iterated order.length
    rw [sampled, bind_some, ← length_map some, answers_length] at called
    have used := Permutation.length_nexts_le called
    simp at used
    omega

end

/-- Sampling visits every block exactly when the table has less than `2 ^ 30` of them: from
there on the width of the network is the size of its integers. -/
theorem sample_visits_iff (profile : Profile) (wyhash : Hash) (key0 key1 : List UInt8) {n : Nat}
    (positive : 0 < n) (proper : n < 2 ^ 32) :
    VisitsEveryBlock profile wyhash key0 key1 n ↔ n < 2 ^ 30 := by
  constructor
  · intro visits
    by_contra large
    exact not_visits_of_large (Nat.le_of_not_lt large) proper visits
  · intro small
    obtain ⟨halfWidth, fits, enough, sampled⟩ := sample_of_small profile positive small
    generalize isIt : Permutation.mk _ _ _ _ = it at sampled
    have computes : it.Computes profile (network halfWidth 8 (secretOf wyhash key0 key1)) := by
      subst isIt
      intro x member
      obtain ⟨i, inside, rfl⟩ := mem_map.mp member
      apply feistel_eq profile fits
      exact (toNat_ofNat i 32 ▸ Nat.mod_le i _).trans_lt (mem_range.mp inside)
    have iterated := fun k => Permutation.nexts_eq computes k
    refine ⟨it.items (network halfWidth 8 (secretOf wyhash key0 key1)), ?_, fun k => ?_,
      fun k => ?_⟩
    · have permuted := (network_perm 8 (secretOf wyhash key0 key1) fits).filter fun x => x < n
      rw [filter_lt_range enough] at permuted
      subst isIt
      simpa [Permutation.items, filter_map, Function.comp_def] using permuted
    · rw [sampled, bind_some, iterated]
    · rw [scan_none sampled, scan_some, iterated, Option.map_some, map_answers, map_map]
      rfl

theorem sample_visits_fiveBlocks : VisitsEveryBlock .release (fun _ _ => 0) [] [] 5 :=
  (sample_visits_iff .release (fun _ _ => 0) [] [] (by decide) (by decide)).mpr (by decide)

/-- A table of `2 ^ 30` blocks: a build with overflow checks panics, and a release build
ends after one number. -/
theorem sample_hugeTable :
    (∀ (wyhash : Hash) (key0 key1 : List UInt8), sample .dev wyhash key0 key1 (2 ^ 30) = none) ∧
    ∀ (wyhash : Hash) (key0 key1 : List UInt8),
      (∃ item, (sample .release wyhash key0 key1 (2 ^ 30)).bind (Permutation.nexts .release 2) =
        some [item, none]) ∧
      ¬ VisitsEveryBlock .release wyhash key0 key1 (2 ^ 30) := by
  have large (wyhash : Hash) (key0 key1 : List UInt8) :=
    @sample_of_large wyhash key0 key1 (2 ^ 30) (le_refl _) (by decide)
  refine ⟨fun wyhash key0 key1 => (large wyhash key0 key1).1, fun wyhash key0 key1 =>
    ⟨?_, not_visits_of_large (le_refl _) (by decide)⟩⟩
  have sampled := (large wyhash key0 key1).2
  rw [sampled, bind_some]
  have computed : ∃ x, feistel .release 32 0 8 (secretOf wyhash key0 key1) = some x :=
    ⟨_, by simp [feistel, shr, shl, shiftAmount]; rfl⟩
  obtain ⟨x, computed⟩ := computed
  have computes : Permutation.Computes .release ⟨[0], 32, secretOf wyhash key0 key1, 2 ^ 30⟩
      fun _ => x := by
    intro i member
    rwa [mem_singleton.mp member]
  rw [Permutation.nexts_eq computes]
  by_cases below : x.toNat < 1073741824
  · exact ⟨some x, by simp [Permutation.items, below, answers]⟩
  · exact ⟨none, by simp [Permutation.items, below, answers]⟩

end VectorChord.Sampling
