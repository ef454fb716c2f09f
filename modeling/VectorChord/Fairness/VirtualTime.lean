import Mathlib

/-!
# Virtual time

Clients share a server.  Each has a clock that advances by what it is charged, and the
server takes a client whose clock is behind all others.  A client that begins to wait sets
its clock to that of the client furthest behind, unless it is ahead already.  Then there is
a level that no waiting client is behind and that none is ahead of by more than one charge,
so two clients that wait all the time are charged alike.
-/

namespace VectorChord.Fairness

/-- Who waits, the clocks of all clients, and the largest charge of each. -/
structure Clocks (κ 𝕜 : Type) where
  waits : κ → Prop
  time : κ → 𝕜
  burst : κ → 𝕜

variable {κ 𝕜 : Type} [Field 𝕜] [LinearOrder 𝕜] [IsStrictOrderedRing 𝕜]

/-- No waiting client is behind the level, and none is ahead by more than a charge. -/
structure Clocks.Level (clocks : Clocks κ 𝕜) (level : 𝕜) : Prop where
  below : ∀ client, clocks.waits client → level ≤ clocks.time client
  above : ∀ client, clocks.time client ≤ level + clocks.burst client

namespace Clocks.Level

variable {clocks clocks' : Clocks κ 𝕜} {level level' : 𝕜} {client : κ}

section

variable (holds : clocks.Level level)

include holds

/-- Clients may leave. -/
theorem leave (unchanged : ∀ other, clocks'.time other = clocks.time other)
    (fewer : ∀ other, clocks'.waits other → clocks.waits other)
    (larger : ∀ other, clocks.burst other ≤ clocks'.burst other) : clocks'.Level level := by
  constructor
  · intro other waits
    rw [unchanged other]
    exact holds.below other (fewer other waits)
  · intro other
    rw [unchanged other]
    linarith [holds.above other, larger other]

/-- A client that is behind no other is served and charged.  The new level is where its clock
was. -/
theorem serve (waiting : clocks.waits client)
    (least : ∀ other, clocks.waits other → clocks.time client ≤ clocks.time other) {charge : 𝕜}
    (positive : 0 ≤ charge) (charged : clocks'.time client = clocks.time client + charge)
    (unchanged : ∀ other, other ≠ client → clocks'.time other = clocks.time other)
    (fewer : ∀ other, clocks'.waits other → clocks.waits other)
    (bounded : charge ≤ clocks'.burst client)
    (larger : ∀ other, clocks.burst other ≤ clocks'.burst other) :
    clocks'.Level (clocks.time client) := by
  have risen := holds.below client waiting
  constructor
  · intro other waits
    by_cases same : other = client
    · rw [same, charged]
      linarith
    · rw [unchanged other same]
      exact least other (fewer other waits)
  · intro other
    by_cases same : other = client
    · rw [same, charged]
      linarith
    · rw [unchanged other same]
      linarith [holds.above other, larger other]

/-- A client begins to wait.  The new level is the least clock of those that wait already. -/
theorem join {baseline : 𝕜} (risen : level ≤ baseline)
    (least : ∀ other, clocks.waits other → baseline ≤ clocks.time other)
    (set : clocks'.time client = max (clocks.time client) baseline)
    (unchanged : ∀ other, other ≠ client → clocks'.time other = clocks.time other)
    (only : ∀ other, clocks'.waits other → other = client ∨ clocks.waits other)
    (positive : 0 ≤ clocks'.burst client)
    (larger : ∀ other, clocks.burst other ≤ clocks'.burst other) : clocks'.Level baseline := by
  constructor
  · intro other waits
    by_cases same : other = client
    · rw [same, set]
      exact le_max_right _ _
    · rw [unchanged other same]
      exact least other ((only other waits).resolve_left same)
  · intro other
    by_cases same : other = client
    · rw [same, set]
      apply max_le
      · linarith [holds.above client, larger client]
      · linarith
    · rw [unchanged other same]
      linarith [holds.above other, larger other]

/-- A waiting client is ahead of another by at most a charge. -/
theorem sub_le (client : κ) {other : κ}
    (waiting : clocks.waits other) :
    clocks.time client - clocks.time other ≤ clocks.burst client := by
  linarith [holds.above client, holds.below other waiting]

/-- What two clients are charged between two moments at which they wait differs by at most the
largest charges of both. -/
theorem abs_charges_sub_le (holds' : clocks'.Level level')
    {other : κ} (larger : ∀ client, clocks.burst client ≤ clocks'.burst client)
    (waiting : clocks.waits client ∧ clocks.waits other)
    (waiting' : clocks'.waits client ∧ clocks'.waits other) {charges charges' : 𝕜}
    (charged : clocks'.time client = clocks.time client + charges)
    (charged' : clocks'.time other = clocks.time other + charges') :
    |charges - charges'| ≤ clocks'.burst client + clocks'.burst other := by
  have first := holds.sub_le client waiting.2
  have second := holds.sub_le other waiting.1
  have third := holds'.sub_le client waiting'.2
  have fourth := holds'.sub_le other waiting'.1
  have fifth := larger client
  have sixth := larger other
  apply abs_le.mpr
  constructor <;> linarith

end

end Clocks.Level

end VectorChord.Fairness
