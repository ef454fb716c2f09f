import VectorChord.Codec.Bytes

/-!
# Records and slices in a buffer

A plain type has values of one width.  Numbers are plain, and so are arrays and records of
plain values.  A frame describes a buffer: a tag, a record that is its header, and slices
of plain values after it, each at a multiple of eight bytes.  The header says where the
slices start and end, in numbers of sixteen bits.  A buffer of less than `2 ^ 16` bytes
reads back as what it was made of, and writing a field of the header or a slice in place
gives the buffer of the changed value.
-/

namespace VectorChord.Codec

open List

variable {α β : Type}

abbrev Bytes := List UInt8

/-- A position in a buffer, in sixteen bits. -/
abbrev Offset := Fin 65536

/-- Where each slice of a buffer starts and ends. -/
abbrev Spans := Nat → Offset × Offset

/-! ## Writing in place -/

/-- The bytes with those from `start` on replaced by the new ones. -/
def overwrite (bytes : Bytes) (start : Nat) (new : Bytes) : Bytes :=
  bytes.take start ++ new ++ bytes.drop (start + new.length)

theorem overwrite_append_left {left new : Bytes} {start : Nat} (right : Bytes)
    (inside : start + new.length ≤ left.length) :
    overwrite (left ++ right) start new = overwrite left start new ++ right := by
  have before : start ≤ left.length := by omega
  rw [overwrite, overwrite, take_append_of_le_length before,
    drop_append_of_le_length inside, ← append_assoc]

theorem overwrite_append_right (left right new : Bytes) (start : Nat) :
    overwrite (left ++ right) (left.length + start) new = left ++ overwrite right start new := by
  rw [overwrite, overwrite, Nat.add_assoc, take_length_add_append, drop_length_add_append]
  simp only [append_assoc]

theorem overwrite_self {old new : Bytes} (same : new.length = old.length) :
    overwrite old 0 new = new := by
  simp [overwrite, same]

/-! ## Plain types -/

/-- A type of values of one width.  `Valid` are the values that it can hold. -/
structure Plain (α : Type) where
  size : Nat
  align : Nat
  encode : α → Bytes
  decode : Bytes → α
  Valid : α → Prop
  length_encode : ∀ value, (encode value).length = size
  decode_encode : ∀ value, Valid value → decode (encode value) = value
  align_dvd : align ∣ 8

namespace Plain

def unsigned (width : Nat) (dvd : width ∣ 8) : Plain Nat where
  size := width
  align := width
  encode := le width
  decode := fromLe
  Valid value := value < 256 ^ width
  length_encode := length_le width
  decode_encode _ := fromLe_le_of_lt
  align_dvd := dvd

def u8 : Plain Nat := unsigned 1 (by decide)

def u16 : Plain Nat := unsigned 2 (by decide)

def u32 : Plain Nat := unsigned 4 (by decide)

def u64 : Plain Nat := unsigned 8 (by decide)

/-- Bytes that hold nothing. -/
def padding (size : Nat) : Plain Unit where
  size := size
  align := 1
  encode _ := List.replicate size 0
  decode _ := ()
  Valid _ := True
  length_encode _ := length_replicate
  decode_encode _ _ := rfl
  align_dvd := by decide

/-- Values that are kept as values of a plain type. -/
def via (plain : Plain α) (into : β → α) (back : α → β) (Valid : β → Prop)
    (back_into : ∀ value, Valid value → plain.Valid (into value) ∧ back (into value) = value) :
    Plain β where
  size := plain.size
  align := plain.align
  encode value := plain.encode (into value)
  decode bytes := back (plain.decode bytes)
  Valid := Valid
  length_encode value := plain.length_encode (into value)
  decode_encode value valid := by
    rcases back_into value valid with ⟨kept, same⟩
    rw [plain.decode_encode _ kept, same]
  align_dvd := plain.align_dvd

/-- A flag is one byte, and any byte but zero is a set flag. -/
def bool : Plain Bool :=
  u8.via (fun value => if value then 1 else 0) (fun byte => byte != 0) (fun _ => True) (by
    intro value _
    cases value <;> exact ⟨Nat.lt_of_sub_eq_succ rfl, rfl⟩)

def offset : Plain Offset :=
  u16.via Fin.val (Fin.ofNat 65536) (fun _ => True) fun value _ => ⟨value.isLt, by simp⟩

/-- A record of two fields. -/
def pair (first : Plain α) (second : Plain β) : Plain (α × β) where
  size := first.size + second.size
  align := Nat.lcm first.align second.align
  encode value := first.encode value.1 ++ second.encode value.2
  decode bytes := (first.decode (bytes.take first.size), second.decode (bytes.drop first.size))
  Valid value := first.Valid value.1 ∧ second.Valid value.2
  length_encode value := by
    rw [length_append, first.length_encode, second.length_encode]
  decode_encode value valid := by
    have length := first.length_encode value.1
    rw [take_left' length, drop_left' length, first.decode_encode _ valid.1,
      second.decode_encode _ valid.2]
  align_dvd := Nat.lcm_dvd first.align_dvd second.align_dvd

instance : SProd (Plain α) (Plain β) (Plain (α × β)) := ⟨pair⟩

/-! ### Rows of values -/

def encodeAll (plain : Plain α) (values : List α) : Bytes := values.flatMap plain.encode

/-- The value at the given place of a row of values. -/
def decodeAt (plain : Plain α) (bytes : Bytes) (i : Nat) : α :=
  plain.decode ((bytes.drop (i * plain.size)).take plain.size)

def decodeAll (plain : Plain α) (bytes : Bytes) : List α :=
  (List.range (bytes.length / plain.size)).map (plain.decodeAt bytes)

def ValidAll (plain : Plain α) (values : List α) : Prop := ∀ value ∈ values, plain.Valid value

theorem length_encodeAll (plain : Plain α) (values : List α) :
    (plain.encodeAll values).length = plain.size * values.length := by
  simp [encodeAll, length_flatMap, plain.length_encode, Nat.mul_comm]

theorem decodeAt_encodeAll {plain : Plain α} {values : List α} (valid : plain.ValidAll values)
    {i : Nat} (inside : i < values.length) :
    plain.decodeAt (plain.encodeAll values) i = values[i] := by
  induction values generalizing i with
  | nil => exact absurd inside (Nat.not_lt_zero i)
  | cons value values ih =>
    have length := plain.length_encode value
    rcases forall_mem_cons.mp valid with ⟨head, tail⟩
    rw [encodeAll, flatMap_cons, decodeAt]
    cases i with
    | zero =>
      rw [zero_mul, drop_zero, take_left' length]
      exact plain.decode_encode value head
    | succ i =>
      have shift : (i + 1) * plain.size = (plain.encode value).length + i * plain.size := by
        rw [length, Nat.succ_mul, add_comm]
      rw [shift, drop_length_add_append]
      exact ih tail (Nat.lt_of_succ_lt_succ inside)

theorem decodeAll_encodeAll {plain : Plain α} {values : List α} (positive : 0 < plain.size)
    (valid : plain.ValidAll values) : plain.decodeAll (plain.encodeAll values) = values := by
  rw [decodeAll, length_encodeAll, Nat.mul_div_cancel_left _ positive]
  apply ext_getElem (by simp)
  intro i _ inside
  rw [getElem_map, getElem_range, decodeAt_encodeAll valid inside]

/-- An array of as many values as its type says. -/
def array (count : Nat) (plain : Plain α) : Plain (Fin count → α) where
  size := count * plain.size
  align := plain.align
  encode values := plain.encodeAll (List.ofFn values)
  decode bytes i := plain.decodeAt bytes i
  Valid values := ∀ i, plain.Valid (values i)
  length_encode values := by rw [length_encodeAll, length_ofFn, Nat.mul_comm]
  decode_encode values valid := by
    funext i
    have all : plain.ValidAll (List.ofFn values) := by
      simpa [ValidAll, mem_ofFn] using valid
    rw [decodeAt_encodeAll all (by simp)]
    simp
  align_dvd := plain.align_dvd

/-! ### Fields of a record -/

/-- A field of a record, at its offset. -/
structure Field (plain : Plain α) (β : Type) where
  type : Plain β
  offset : Nat
  set : β → α → α
  inside : offset + type.size ≤ plain.size
  encode_set : ∀ new value,
    overwrite (plain.encode value) offset (type.encode new) = plain.encode (set new value)

namespace Field

/-- The first field of a record. -/
def first {left : Plain α} {right : Plain β} : Field (left ×ˢ right) α where
  type := left
  offset := 0
  set new value := (new, value.2)
  inside := by
    rw [zero_add]
    exact Nat.le_add_right _ _
  encode_set new value := by
    have same := (left.length_encode new).trans (left.length_encode value.1).symm
    have inside : 0 + (left.encode new).length ≤ (left.encode value.1).length := by omega
    change overwrite (left.encode value.1 ++ _) _ _ = _
    rw [overwrite_append_left _ inside, overwrite_self same]
    rfl

/-- The only field of a record, as its last one. -/
def last {plain : Plain α} : Field plain α where
  type := plain
  offset := 0
  set new _ := new
  inside := by rw [zero_add]
  encode_set new value :=
    overwrite_self ((plain.length_encode new).trans (plain.length_encode value).symm)

/-- A field after the first one. -/
def next {γ : Type} {left : Plain α} {right : Plain β} (field : Field right γ) :
    Field (left ×ˢ right) γ where
  type := field.type
  offset := left.size + field.offset
  set new value := (value.1, field.set new value.2)
  inside := by
    rw [Nat.add_assoc]
    exact Nat.add_le_add_left field.inside _
  encode_set new value := by
    rw [← left.length_encode value.1]
    change overwrite (left.encode value.1 ++ _) _ _ = _
    rw [overwrite_append_right, field.encode_set]
    rfl

/-- Write the field of a record that starts at the given position. -/
def write {plain : Plain α} (field : Field plain β) (start : Nat) (new : β)
    (source : Bytes) : Bytes :=
  overwrite source (start + field.offset) (field.type.encode new)

end Field

/-- Write the values of a slice that starts at the given position. -/
def writeAll (plain : Plain α) (start : Nat) (new : List α) (source : Bytes) :
    Bytes :=
  overwrite source start (plain.encodeAll new)

end Plain

/-! ## Checked access

A reader is refused what is not in the buffer, not aligned, or no whole number of values.
A writer asks for its parts in increasing order, so that no two of them overlap. -/

namespace RefChecker

/-- The record at the given position. -/
def prefixAt (plain : Plain α) (source : Bytes) (start : Nat) : Option α :=
  if start + plain.size ≤ source.length ∧ start % plain.align = 0 then
    some (plain.decode ((source.drop start).take plain.size))
  else none

/-- The slice between two positions. -/
def bytesAt (plain : Plain α) (source : Bytes) (start stop : Nat) : Option (List α) :=
  if start ≤ stop ∧ stop ≤ source.length ∧ start % plain.align = 0 ∧
      (stop - start) % plain.size = 0 then
    some (plain.decodeAll ((source.drop start).take (stop - start)))
  else none

variable {plain : Plain α} {front : Bytes}

theorem prefixAt_append {value : α} (valid : plain.Valid value) (aligned : front.length % 8 = 0)
    (back : Bytes) :
    prefixAt plain (front ++ (plain.encode value ++ back)) front.length = some value := by
  have multiple : front.length % plain.align = 0 :=
    Nat.mod_eq_zero_of_dvd (plain.align_dvd.trans (Nat.dvd_of_mod_eq_zero aligned))
  have length := plain.length_encode value
  rw [prefixAt, if_pos ⟨by simp [length], multiple⟩, drop_left, take_left' length,
    plain.decode_encode value valid]

theorem bytesAt_append {values : List α} (positive : 0 < plain.size)
    (valid : plain.ValidAll values) (aligned : front.length % 8 = 0) (back : Bytes) :
    bytesAt plain (front ++ (plain.encodeAll values ++ back)) front.length
      (front.length + (plain.encodeAll values).length) = some values := by
  have multiple : front.length % plain.align = 0 :=
    Nat.mod_eq_zero_of_dvd (plain.align_dvd.trans (Nat.dvd_of_mod_eq_zero aligned))
  have whole : (plain.encodeAll values).length % plain.size = 0 := by
    rw [plain.length_encodeAll, Nat.mul_mod_right]
  rw [bytesAt, Nat.add_sub_cancel_left,
    if_pos ⟨Nat.le_add_right _ _, by simp, multiple, whole⟩, drop_left, take_left,
    Plain.decodeAll_encodeAll positive valid]

end RefChecker

namespace MutChecker

/-- The record at the given position, and where the next part may start. -/
def prefixAt (plain : Plain α) (source : Bytes) (flag start : Nat) : Option (α × Nat) :=
  if flag ≤ start then
    (RefChecker.prefixAt plain source start).map (·, start + plain.size)
  else none

def bytesAt (plain : Plain α) (source : Bytes) (flag start stop : Nat) :
    Option (List α × Nat) :=
  if flag ≤ start then (RefChecker.bytesAt plain source start stop).map (·, stop) else none

end MutChecker

/-! ## Frames -/

/-- The next multiple of eight. -/
def align8 (n : Nat) : Nat := (n + 7) / 8 * 8

theorem le_align8 (n : Nat) : n ≤ align8 n := by
  unfold align8
  omega

/-- Slices one after the other, the first one at `start`, each filled up with zeros. -/
def fill : Nat → List Bytes → Bytes
  | _, [] => []
  | start, slice :: slices =>
    let stop := start + slice.length
    slice ++ (List.replicate (align8 stop - stop) 0 ++ fill (align8 stop) slices)

theorem length_fill {start : Nat} (aligned : start % 8 = 0) (slices : List Bytes) :
    (fill start slices).length = (slices.map fun slice => align8 slice.length).sum := by
  induction slices generalizing start with
  | nil => rfl
  | cons slice slices ih =>
    have rest := @ih (align8 (start + slice.length)) (Nat.mul_mod_left _ _)
    have above := le_align8 (start + slice.length)
    have whole : align8 (start + slice.length) = start + align8 slice.length := by
      unfold align8
      omega
    simp only [fill, length_append, length_replicate, rest, map_cons, sum_cons]
    omega

/-- Where the slices are, if the first one is at `start`. -/
def spans : Nat → List Bytes → Spans
  | _, [], _ => (0, 0)
  | start, slice :: _, 0 => (Fin.ofNat 65536 start, Fin.ofNat 65536 (start + slice.length))
  | start, slice :: slices, i + 1 => spans (align8 (start + slice.length)) slices i

theorem zeroTag : (le 8 0).length % 8 = 0 := by simp

theorem oneTag : (le 8 1).length % 8 = 0 := by simp

/-- A tag and the fields of a header, with room for at least the header. -/
structure Frame (α : Type) where
  tag : Bytes
  fields : Plain α
  room : Nat := fields.size
  fits : fields.size ≤ room := by decide
  tag_aligned : tag.length % 8 = 0 := by first | exact zeroTag | exact oneTag | decide
  room_aligned : room % 8 = 0 := by decide

namespace Frame

variable (frame : Frame α)

/-- The header is at a multiple of eight, whatever its fields ask for. -/
def header : Plain α :=
  { frame.fields with
    align := 8
    align_dvd := dvd_rfl }

/-- The type of the header. -/
abbrev Record (_ : Frame α) : Type := α

/-- Where the first slice starts. -/
def start : Nat := frame.tag.length + frame.room

def spans (slices : List Bytes) : Spans :=
  Codec.spans frame.start slices

/-- The buffer of a header, which is told where the slices are, and of the slices. -/
def assemble (header : Spans → α) (slices : List Bytes) :
    Bytes :=
  frame.tag ++ (frame.fields.encode (header (frame.spans slices)) ++
    (List.replicate (frame.room - frame.fields.size) 0 ++ fill frame.start slices))

theorem prefixAt_assemble {header : Spans → α}
    (valid : ∀ span, frame.fields.Valid (header span)) (slices : List Bytes) :
    RefChecker.prefixAt frame.header (frame.assemble header slices) frame.tag.length =
      some (header (frame.spans slices)) := by
  have kept : frame.header.Valid (header (frame.spans slices)) := valid _
  exact RefChecker.prefixAt_append kept frame.tag_aligned _

/-- Writing a field of the header changes the header there. -/
theorem write_assemble (field : Plain.Field frame.fields β) (new : β)
    (header : Spans → α) (slices : List Bytes) :
    field.write frame.tag.length new (frame.assemble header slices) =
      frame.assemble (fun span => field.set new (header span)) slices := by
  have inside : field.offset + (field.type.encode new).length ≤
      (frame.fields.encode (header (frame.spans slices))).length := by
    rw [field.type.length_encode, frame.fields.length_encode]
    exact field.inside
  rw [Plain.Field.write, assemble, overwrite_append_right, overwrite_append_left _ inside,
    field.encode_set]
  rfl

end Frame

theorem take_tag (frame : Frame β) (tag : Bytes) (same : frame.tag = tag) (length : tag.length = 8)
    (header : Spans → β) (slices : List Bytes) :
    (frame.assemble header slices).take 8 = tag := by
  rw [Frame.assemble, same, take_left' length]

/-- What is in the buffer, by its tag. -/
def byTag (source : Bytes) (zero one : Option α) : Option α :=
  if source.take 8 = le 8 0 then zero
  else if source.take 8 = le 8 1 then one
  else none

theorem byTag_zero (frame : Frame β) (tag : frame.tag = le 8 0) (header : Spans → β)
    (slices : List Bytes) (zero one : Option α) :
    byTag (frame.assemble header slices) zero one = zero := by
  rw [byTag, take_tag frame _ tag rfl, if_pos rfl]

theorem byTag_one (frame : Frame β) (tag : frame.tag = le 8 1) (header : Spans → β)
    (slices : List Bytes) (zero one : Option α) :
    byTag (frame.assemble header slices) zero one = one := by
  rw [byTag, take_tag frame _ tag rfl, if_neg (by decide), if_pos rfl]

/-- Serialized values of the given type read back. -/
def ReadsBack (Typed : α → Prop) (serialize : α → Bytes) (deserialize : Bytes → Option α) : Prop :=
  ∀ value, Typed value → (serialize value).length < 65536 →
    deserialize (serialize value) = some value

/-- Writing a part of a serialized value gives the serialized value with that part set. -/
def WritesOnly (Typed : α → Prop) (serialize : α → Bytes) (write : β → Bytes → Option Bytes)
    (set : β → α → α) : Prop :=
  ∀ value new, Typed value → (serialize value).length < 65536 →
    write new (serialize value) = some (serialize (set new value))

section Slices

variable {slices : List Bytes} {i : Nat} {slice new : Bytes}

section

variable (held : slices[i]? = some slice)

include held

theorem set_held : slices.set i slice = slices := by
  rcases List.getElem?_eq_some_iff.mp held with ⟨inside, same⟩
  rw [← same, set_getElem_self]

theorem spans_set (same : new.length = slice.length)
    (start : Nat) : spans start (slices.set i new) = spans start slices := by
  funext j
  induction slices generalizing start i j with
  | nil => cases held
  | cons first slices ih =>
    cases i with
    | zero =>
      cases held
      cases j <;> simp [spans, same]
    | succ i =>
      cases j with
      | zero => rfl
      | succ j => exact ih held _ j

/-- Up to a slice and after it nothing depends on its contents. -/
theorem fill_eq (start : Nat) (aligned : start % 8 = 0)
    (short : start + (fill start slices).length < 65536) :
    ∃ front back, (∀ new : Bytes, new.length = slice.length →
        fill start (slices.set i new) = front ++ (new ++ back)) ∧
      (start + front.length) % 8 = 0 ∧
      ((spans start slices i).1 : Nat) = start + front.length ∧
      ((spans start slices i).2 : Nat) = start + front.length + slice.length := by
  induction slices generalizing start i with
  | nil => cases held
  | cons first slices ih =>
    cases i with
    | zero =>
      cases held
      simp only [fill, length_append] at short
      refine ⟨[], replicate (align8 (start + slice.length) - (start + slice.length)) 0 ++
        fill (align8 (start + slice.length)) slices, fun new same => ?_, aligned, ?_, ?_⟩
      · rw [set_cons_zero, fill, same, nil_append]
      all_goals
        simp only [spans, Fin.val_ofNat, length_nil]
        omega
    | succ i =>
      have above := le_align8 (start + first.length)
      have next : align8 (start + first.length) % 8 = 0 := Nat.mul_mod_left _ _
      simp only [fill, length_append, length_replicate] at short
      rcases ih held (align8 (start + first.length)) next (by omega) with
        ⟨front, back, parts, multiple, starts, stops⟩
      refine ⟨first ++ (replicate (align8 (start + first.length) -
        (start + first.length)) 0 ++ front), back, fun new same => ?_, ?_, ?_, ?_⟩
      · rw [set_cons_succ, fill, parts new same]
        simp only [append_assoc]
      all_goals
        simp only [spans, length_append, length_replicate]
        omega

theorem spans_le_next (later : slices[i + 1]? = some new)
    (start : Nat) (short : start + (fill start slices).length < 65536) :
    ((spans start slices i).2 : Nat) ≤ (spans start slices (i + 1)).1 := by
  induction slices generalizing start i with
  | nil => cases held
  | cons first slices ih =>
    have above := le_align8 (start + first.length)
    simp only [fill, length_append, length_replicate] at short
    cases i with
    | zero =>
      cases slices with
      | nil => cases later
      | cons second slices =>
        simp only [spans, Fin.val_ofNat]
        omega
    | succ i => exact ih held later (align8 (start + first.length)) (by omega)

end

end Slices

namespace Frame

variable (frame : Frame α) {header : Spans → α} {slices : List Bytes} {i : Nat} {slice : Bytes}
  {plain : Plain β} {values : List β} {flag : Nat}

theorem length_assemble : (frame.assemble header slices).length =
    frame.start + (fill frame.start slices).length := by
  have fits := frame.fits
  simp only [assemble, start, length_append, length_replicate, frame.fields.length_encode]
  omega

theorem start_aligned : frame.start % 8 = 0 := by
  have tag := frame.tag_aligned
  have room := frame.room_aligned
  unfold start
  omega

/-- The length of a buffer does not depend on what is in the header. -/
theorem length_assemble_eq {start : Nat} (starts : frame.start = start) (header : Spans → α)
    (slices : List Bytes) : (frame.assemble header slices).length =
      start + (slices.map fun slice => align8 slice.length).sum := by
  rw [frame.length_assemble, length_fill frame.start_aligned, starts]

theorem assemble_eq (held : slices[i]? = some slice)
    (short : (frame.assemble header slices).length < 65536) :
    ∃ front back, (∀ new : Bytes, new.length = slice.length →
        frame.assemble header (slices.set i new) = front ++ (new ++ back)) ∧
      front.length % 8 = 0 ∧ frame.start ≤ front.length ∧
      ((frame.spans slices i).1 : Nat) = front.length ∧
      ((frame.spans slices i).2 : Nat) = front.length + slice.length := by
  rcases fill_eq held frame.start frame.start_aligned (frame.length_assemble ▸ short) with
    ⟨front, back, parts, multiple, starts, stops⟩
  have before : (frame.tag ++ (frame.fields.encode (header (frame.spans slices)) ++
      (replicate (frame.room - frame.fields.size) 0 ++ front))).length =
      frame.start + front.length := by
    have fits := frame.fits
    simp only [start, length_append, length_replicate, frame.fields.length_encode]
    omega
  refine ⟨_, back, fun new same => ?_, before ▸ multiple, before ▸ Nat.le_add_right _ _,
    starts.trans before.symm, before ▸ stops⟩
  rw [assemble, parts new same, spans, spans_set held same]
  simp only [append_assoc]
  rfl

theorem bytesAt_assemble (held : slices[i]? = some (plain.encodeAll values))
    (positive : 0 < plain.size) (valid : plain.ValidAll values)
    (short : (frame.assemble header slices).length < 65536) :
    RefChecker.bytesAt plain (frame.assemble header slices) (frame.spans slices i).1
      (frame.spans slices i).2 = some values := by
  rcases frame.assemble_eq held short with ⟨front, back, parts, aligned, -, starts, stops⟩
  rw [starts, stops, ← set_held held, parts _ rfl]
  exact RefChecker.bytesAt_append positive valid aligned back

/-- A slice may hold one record. -/
theorem prefixAt_slice {value : β} (held : slices[i]? = some (plain.encode value))
    (valid : plain.Valid value) (short : (frame.assemble header slices).length < 65536) :
    RefChecker.prefixAt plain (frame.assemble header slices) (frame.spans slices i).1 =
      some value := by
  rcases frame.assemble_eq held short with ⟨front, back, parts, aligned, -, starts, -⟩
  rw [starts, ← set_held held, parts _ rfl]
  exact RefChecker.prefixAt_append valid aligned back

/-- Writing a slice changes the slice. -/
theorem writeAll_assemble {new : List β} (held : slices[i]? = some (plain.encodeAll values))
    (same : new.length = values.length) (short : (frame.assemble header slices).length < 65536) :
    plain.writeAll (frame.spans slices i).1 new (frame.assemble header slices) =
      frame.assemble header (slices.set i (plain.encodeAll new)) := by
  rcases frame.assemble_eq held short with ⟨front, back, parts, -, -, starts, -⟩
  have length : (plain.encodeAll new).length = (plain.encodeAll values).length := by
    rw [plain.length_encodeAll, plain.length_encodeAll, same]
  have inside : 0 + (plain.encodeAll new).length ≤ (plain.encodeAll values).length := by omega
  have whole := parts _ rfl
  rw [set_held held] at whole
  rw [Plain.writeAll, starts, whole, parts _ length]
  rw [← add_zero front.length, overwrite_append_right, overwrite_append_left _ inside,
    overwrite_self length]

/-! ### The parts of a writer -/

theorem mutPrefixAt_assemble (valid : ∀ span, frame.fields.Valid (header span))
    (slices : List Bytes) :
    MutChecker.prefixAt frame.header (frame.assemble header slices) 0 frame.tag.length =
      some (header (frame.spans slices), frame.tag.length + frame.fields.size) := by
  rw [MutChecker.prefixAt, if_pos (Nat.zero_le _), frame.prefixAt_assemble valid]
  rfl

theorem header_le_spans (held : slices[i]? = some slice)
    (short : (frame.assemble header slices).length < 65536) :
    frame.tag.length + frame.fields.size ≤ (frame.spans slices i).1 := by
  rcases frame.assemble_eq held short with ⟨front, back, -, -, before, starts, -⟩
  rw [starts]
  exact (Nat.add_le_add_left frame.fits _).trans before

theorem spans_le_next {next : Bytes} (held : slices[i]? = some slice)
    (later : slices[i + 1]? = some next) (short : (frame.assemble header slices).length < 65536) :
    ((frame.spans slices i).2 : Nat) ≤ (frame.spans slices (i + 1)).1 :=
  Codec.spans_le_next held later frame.start (frame.length_assemble ▸ short)

theorem mutPrefixAt_slice {value : β} (held : slices[i]? = some (plain.encode value))
    (valid : plain.Valid value) (short : (frame.assemble header slices).length < 65536)
    (ordered : flag ≤ (frame.spans slices i).1) :
    MutChecker.prefixAt plain (frame.assemble header slices) flag (frame.spans slices i).1 =
      some (value, ((frame.spans slices i).2 : Nat)) := by
  rcases frame.assemble_eq held short with ⟨front, back, -, -, -, starts, stops⟩
  rw [MutChecker.prefixAt, if_pos ordered, frame.prefixAt_slice held valid short, stops, starts,
    plain.length_encode]
  rfl

theorem mutBytesAt_assemble (held : slices[i]? = some (plain.encodeAll values))
    (positive : 0 < plain.size) (valid : plain.ValidAll values)
    (short : (frame.assemble header slices).length < 65536)
    (ordered : flag ≤ (frame.spans slices i).1) :
    MutChecker.bytesAt plain (frame.assemble header slices) flag (frame.spans slices i).1
      (frame.spans slices i).2 = some (values, ((frame.spans slices i).2 : Nat)) := by
  rw [MutChecker.bytesAt, if_pos ordered, frame.bytesAt_assemble held positive valid short]
  rfl

end Frame

end VectorChord.Codec
