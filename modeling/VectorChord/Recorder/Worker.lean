import Mathlib

/-!
# The recorder of queries

Queries are recorded in a table of SQLite for each index.  A push inserts a sample and,
when the table has more records than are wanted, deletes the row that a scalar subquery
names.  However many rows the subquery would return, an equality uses the first of them, so
one push makes up for one sample and not for a limit that has become smaller.
-/

namespace VectorChord.Recorder

open List Function

variable {τ : Type} [LinearOrder τ]

/-- A row of a table `index_{index}`, in which SQLite numbers the rows. -/
structure Row (τ : Type) where
  rowid : Nat
  sample : String
  createAt : τ
  deriving DecidableEq

/-- What was pushed, without the number of its row. -/
def Row.record (row : Row τ) : String × τ := (row.sample, row.createAt)

/-- The tables by index, their rows in the order of `rowid`; a table that has not been
created has no rows. -/
abbrev Database (τ : Type) := Nat → List (Row τ)

/-- A call of `push`: its arguments, the time of its insertion, and whether the database is
at hand and executes the statements. -/
structure Call (τ : Type) where
  index : Nat
  sample : String
  maxRecords : Nat
  now : τ
  works : Bool

/-- `INSERT INTO`: the row gets a number above all others. -/
def insertRow (table : List (Row τ)) (sample : String) (now : τ) : List (Row τ) :=
  table ++ [⟨(table.map Row.rowid).max?.getD 0 + 1, sample, now⟩]

/-- `SELECT rowid .. ORDER BY create_at ASC LIMIT ?1`. -/
def oldest (table : List (Row τ)) (limit : Nat) : List Nat :=
  ((table.insertionSort fun a b => a.createAt ≤ b.createAt).take limit).map Row.rowid

/-- `DELETE .. WHERE rowid = (SELECT ..)`: the first row of the subquery is its value. -/
def deleteOldest (table : List (Row τ)) (limit : Nat) : List (Row τ) :=
  match (oldest table limit).head? with
  | none => table
  | some rowid => table.filter fun row => row.rowid ≠ rowid

/-- The database behind a push that is committed. -/
def push (database : Database τ) (call : Call τ) : Option (Database τ) := do
  guard call.works
  let table := insertRow (database call.index) call.sample call.now
  let records := table.length
  -- the count is read as a `u32`
  guard (records < 2 ^ 32)
  return Function.update database call.index
    (if records > call.maxRecords then deleteOldest table (records - call.maxRecords) else table)

/-- The database, and what has been pushed for each index so far. -/
structure State (τ : Type) where
  database : Database τ
  pushed : Nat → List (String × τ)

/-- A push that fails is rolled back. -/
def State.push (state : State τ) (call : Call τ) : State τ :=
  match Recorder.push state.database call with
  | none => state
  | some database =>
    { database := database
      pushed := Function.update state.pushed call.index
        (state.pushed call.index ++ [(call.sample, call.now)]) }

def run (calls : List (Call τ)) : State τ := calls.foldl State.push ⟨fun _ => [], fun _ => []⟩

theorem run_concat (calls : List (Call τ)) (call : Call τ) :
    run (calls ++ [call]) = (run calls).push call := by
  rw [run, foldl_concat]
  rfl

/-- Rows in the order in which they were inserted. -/
structure Ordered (table : List (Row τ)) : Prop where
  rowids : table.Pairwise fun a b => a.rowid < b.rowid
  times : table.Pairwise fun a b => a.createAt < b.createAt

variable {table : List (Row τ)} {sample : String} {pushed : List (String × τ)}
  {calls : List (Call τ)} {index : Nat} {call : Call τ}

theorem Ordered.insertRow (ordered : Ordered table) {now : τ}
    (later : ∀ row ∈ table, row.createAt < now) : Ordered (insertRow table sample now) := by
  constructor
  · apply pairwise_append.mpr
    refine ⟨ordered.rowids, pairwise_singleton _ _, ?_⟩
    intro row member new isNew
    rw [mem_singleton.mp isNew]
    exact Nat.lt_succ_of_le (le_max?_getD_of_mem (mem_map_of_mem member))
  · apply pairwise_append.mpr
    refine ⟨ordered.times, pairwise_singleton _ _, ?_⟩
    intro row member new isNew
    rw [mem_singleton.mp isNew]
    exact later row member

/-- However large the limit, one row is deleted. -/
theorem Ordered.deleteOldest_eq (ordered : Ordered table) {limit : Nat} (positive : 0 < limit) :
    deleteOldest table limit = table.tail := by
  have sorted : table.insertionSort (fun a b => a.createAt ≤ b.createAt) = table := by
    apply List.Pairwise.insertionSort_eq
    exact ordered.times.imp le_of_lt
  obtain ⟨limit, rfl⟩ := Nat.exists_eq_succ_of_ne_zero (ne_of_gt positive)
  cases table with
  | nil => rfl
  | cons row table =>
    have others := (pairwise_cons.mp ordered.rowids).1
    simp only [deleteOldest, oldest, sorted, take_succ_cons, map_cons, head?_cons]
    rw [filter_cons_of_neg (by simp), tail_cons, filter_eq_self]
    intro other member
    simpa using ne_of_gt (others other member)

/-- What every push keeps: the rows of a table are the last samples pushed, in order. -/
structure Recent (table : List (Row τ)) (pushed : List (String × τ)) : Prop where
  ordered : Ordered table
  suffix : table.map Row.record <:+ pushed

theorem Recent.insertRow (recent : Recent table pushed) {now : τ}
    (later : ∀ row ∈ table, row.createAt < now) :
    Recent (insertRow table sample now) (pushed ++ [(sample, now)]) := by
  refine ⟨recent.ordered.insertRow later, ?_⟩
  obtain ⟨front, rfl⟩ := recent.suffix
  exact ⟨front, by simp [insertRow, Row.record]⟩

theorem Recent.tail (recent : Recent table pushed) : Recent table.tail pushed := by
  refine ⟨⟨recent.ordered.rowids.tail, recent.ordered.times.tail⟩, ?_⟩
  rw [map_tail]
  exact (tail_suffix _).trans recent.suffix

/-- A row that is in a table was inserted by one of the calls. -/
theorem mem_now_of_pushed {record : String × τ} (member : record ∈ (run calls).pushed index) :
    record.2 ∈ calls.map Call.now := by
  induction calls using reverseRecOn with
  | nil => cases member
  | append_singleton calls call ih =>
    rw [run_concat, State.push] at member
    rw [map_append, mem_append]
    split at member
    · exact .inl (ih member)
    · by_cases same : index = call.index
      · subst same
        simp only [update_self, mem_append, mem_singleton] at member
        rcases member with old | rfl
        · exact .inl (ih old)
        · exact .inr (mem_singleton.mpr rfl)
      · simp only [update_of_ne same] at member
        exact .inl (ih member)

theorem Recent.later
    (recent : Recent ((run calls).database call.index) ((run calls).pushed call.index))
    (increasing : (calls ++ [call]).Pairwise fun a b => a.now < b.now) :
    ∀ row ∈ (run calls).database call.index, row.createAt < call.now := by
  intro row member
  have inserted := mem_now_of_pushed (recent.suffix.subset (mem_map_of_mem member))
  obtain ⟨earlier, listed, same⟩ := mem_map.mp inserted
  have before := (pairwise_append.mp increasing).2.2 earlier listed call
    (mem_singleton.mpr rfl)
  exact lt_of_eq_of_lt same.symm before

/-- A push leaves the tables of other indexes alone. -/
theorem push_other {database database' : Database τ} (pushed : push database call = some database')
    (other : index ≠ call.index) : database' index = database index := by
  simp only [push, Option.bind_eq_bind, Option.bind_eq_some_iff, Option.pure_def] at pushed
  obtain ⟨_, _, _, _, result⟩ := pushed
  cases result
  exact update_of_ne other _ _

/-- What a push leaves of its own table. -/
theorem push_eq_some {database database' : Database τ} (ordered : Ordered (database call.index))
    (later : ∀ row ∈ database call.index, row.createAt < call.now)
    (pushed : push database call = some database') :
    database' = Function.update database call.index
      (if (database call.index).length < call.maxRecords
        then insertRow (database call.index) call.sample call.now
        else (insertRow (database call.index) call.sample call.now).tail) := by
  simp only [push, Option.bind_eq_bind, Option.bind_eq_some_iff, Option.pure_def] at pushed
  obtain ⟨_, _, _, _, result⟩ := pushed
  cases result
  congr 1
  have length : (insertRow (database call.index) call.sample call.now).length =
      (database call.index).length + 1 := by simp [insertRow]
  by_cases room : (database call.index).length < call.maxRecords
  · rw [if_pos room, if_neg (by omega)]
  · rw [if_neg room, if_pos (by omega)]
    exact (ordered.insertRow later).deleteOldest_eq (by omega)

theorem recent_run (increasing : calls.Pairwise fun a b => a.now < b.now) (index : Nat) :
    Recent ((run calls).database index) ((run calls).pushed index) := by
  induction calls using reverseRecOn with
  | nil => exact ⟨⟨.nil, .nil⟩, suffix_rfl⟩
  | append_singleton calls call ih =>
    have recent := ih (pairwise_append.mp increasing).1
    rw [run_concat, State.push]
    split
    · exact recent
    next database pushed =>
      by_cases same : index = call.index
      · subst same
        have later := recent.later increasing
        rw [push_eq_some recent.ordered later pushed]
        simp only [update_self]
        split
        · exact recent.insertRow later
        · exact (recent.insertRow later).tail
      · simpa only [push_other pushed same, update_of_ne same] using recent

/-- The records that a push of `record` leaves of those in a table: the oldest one goes if
the table was full. -/
def kept (maxRecords : Nat) (records : List (String × τ)) (record : String × τ) :
    List (String × τ) :=
  if records.length < maxRecords then records ++ [record] else (records ++ [record]).tail

omit [LinearOrder τ] in
theorem length_kept {maxRecords : Nat} {records : List (String × τ)} {record : String × τ} :
    (kept maxRecords records record).length ≤ maxRecords ↔ records.length ≤ maxRecords := by
  rw [kept]
  split
  · rw [length_append, length_singleton]
    omega
  · rw [length_tail, length_append, length_singleton]
    omega

omit [LinearOrder τ] in
/-- The new record stays. -/
theorem getLast?_kept {maxRecords : Nat} (positive : 0 < maxRecords)
    (records : List (String × τ)) (record : String × τ) :
    (kept maxRecords records record).getLast? = some record := by
  rw [kept]
  split
  · exact getLast?_concat
  next full =>
    cases records with
    | nil => exact absurd positive full
    | cons oldest records => exact getLast?_concat

theorem records_push (increasing : (calls ++ [call]).Pairwise fun a b => a.now < b.now)
    (successful : (push (run calls).database call).isSome) :
    ((run (calls ++ [call])).database call.index).map Row.record =
      kept call.maxRecords (((run calls).database call.index).map Row.record)
        (call.sample, call.now) := by
  have recent := recent_run (pairwise_append.mp increasing).1 call.index
  obtain ⟨database, pushed⟩ := Option.isSome_iff_exists.mp successful
  have left := push_eq_some recent.ordered (recent.later increasing) pushed
  have isNext : (run (calls ++ [call])).database = database := by
    rw [run_concat, State.push, pushed]
  rw [isNext, left, update_self, kept, length_map]
  split
  · simp [insertRow, Row.record]
  · simp [insertRow, Row.record]

/-- The table of an index holds at most `max_records` samples.  They are the last ones that
were pushed, up to the one of this call. -/
def Retains (state : State τ) (call : Call τ) : Prop :=
  (state.database call.index).length ≤ call.maxRecords ∧
    (state.database call.index).map Row.record <:+ state.pushed call.index ∧
    ((state.database call.index).map Row.record).getLast? = some (call.sample, call.now)

/-- A push adds its sample and removes the oldest one if the table was full.  So it leaves at
most `max_records` samples, the last ones pushed, exactly when there were not more before. -/
theorem push_retains_iff {calls : List (Call τ)} {call : Call τ}
    (increasing : (calls ++ [call]).Pairwise fun a b => a.now < b.now)
    (positive : 0 < call.maxRecords) (successful : (push (run calls).database call).isSome) :
    ((run (calls ++ [call])).database call.index).map Row.record =
        kept call.maxRecords (((run calls).database call.index).map Row.record)
          (call.sample, call.now) ∧
      (Retains (run (calls ++ [call])) call ↔
        ((run calls).database call.index).length ≤ call.maxRecords) := by
  have records := records_push increasing successful
  refine ⟨records, ?_⟩
  have suffix := (recent_run increasing call.index).suffix
  have last := getLast?_kept positive (((run calls).database call.index).map Row.record)
    (call.sample, call.now)
  rw [← records] at last
  rw [Retains, and_iff_left ⟨suffix, last⟩, ← length_map Row.record, records, length_kept,
    length_map]

def twoPushes : List (Call Nat) := [⟨7, "a", 2, 1, true⟩, ⟨7, "b", 2, 2, true⟩]

theorem push_retains_sameLimit :
    Retains (run (twoPushes ++ [⟨7, "c", 2, 3, true⟩])) (⟨7, "c", 2, 3, true⟩ : Call Nat) ∧
      ((run (twoPushes ++ [⟨7, "c", 2, 3, true⟩])).database 7).map Row.record =
        [("b", 2), ("c", 3)] := by
  obtain ⟨records, retains⟩ := @push_retains_iff Nat _ twoPushes ⟨7, "c", 2, 3, true⟩
    (by decide) (by decide) rfl
  exact ⟨retains.mpr (by decide), records.trans (by decide)⟩

/-- With the limit lowered from two to one, a successful push leaves two samples. -/
theorem push_lowerLimit :
    (push (run twoPushes).database ⟨7, "c", 1, 3, true⟩).isSome ∧
      ((run (twoPushes ++ [⟨7, "c", 1, 3, true⟩])).database 7).map Row.record =
        [("b", 2), ("c", 3)] ∧
      ¬ Retains (run (twoPushes ++ [⟨7, "c", 1, 3, true⟩])) ⟨7, "c", 1, 3, true⟩ := by
  refine ⟨rfl, by decide, ?_⟩
  intro retains
  exact absurd retains.1 (by decide)

end VectorChord.Recorder
