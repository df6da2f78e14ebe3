import Superstep.ValueType

/-!
# Broken contracts

Containers, graphs, schemas and messengers reject calls that break their contract: an index past
the end, a key that is not there, a buffer that was released. `Violation` lists the causes, and
`Violation.message` gives the text of each.

A violation is not an error of the run: it reports a bug of the caller, aborts whatever was being
done, and leaves the rejected object as it was.
-/

namespace Superstep

/-- Why a call was rejected. -/
inductive Violation where
  /-- A paged array has no cell at this index. -/
  | index (index length : Nat)
  /-- A bit set has no such bit. -/
  | bit (bit size : Nat)
  /-- A message was addressed to a vertex that does not exist. -/
  | messageTarget (target nodeCount : Nat)
  /-- A graph was asked about a vertex that it does not have. -/
  | vertex (vertex : Nat)
  /-- A relationship between vertices of which at least one does not exist. -/
  | relationship (source target nodeCount : Nat)
  /-- A row lists a target that does not exist. -/
  | rowTarget (target nodeCount : Nat)
  /-- A row table without any offset. -/
  | noOffsets
  /-- A row table whose offsets go down. -/
  | offsetsNotMonotone
  /-- A row table whose last offset is not the number of targets. -/
  | offsetsEnd
  /-- A schema cannot have two slots of one name. -/
  | duplicateKey (key : String)
  /-- The schema has no slot of this name. -/
  | unknownKey (key : String)
  /-- A slot was used as if it had another type. -/
  | slotType (key : String) (actual requested : ValueType)
  /-- A messenger was used after its buffers were freed. -/
  | released
  /-- A vertex range cannot be cut into no parts. -/
  | noPartitions
  /-- Bisection needs leaves of at least one vertex. -/
  | noForkJoinThreshold
  /-- A run needs at least one worker. -/
  | noConcurrency
  /-- A vertex program found a bug of its own. -/
  | program (text : String)
  deriving Repr, DecidableEq, Inhabited

/-- The text that reports a violation. -/
def Violation.message : Violation → String
  | .index i n => s!"index {i} out of bounds for length {n}"
  | .bit b n => s!"bit {b} out of bounds for bitset of size {n}"
  | .messageTarget t n => s!"message target {t} out of bounds for {n} vertices"
  | .vertex v => s!"node {v} out of bounds"
  | .relationship u v n => s!"relationship {u}->{v} is out of bounds for n={n}"
  | .rowTarget v n => s!"relationship to {v} out of bounds for n={n}"
  | .noOffsets => "offsets must have length n+1"
  | .offsetsNotMonotone => "offsets must be monotone"
  | .offsetsEnd => "offsets last must equal targets length"
  | .duplicateKey key => "duplicate schema key `" ++ key ++ "`"
  | .unknownKey key => "unknown node value key `" ++ key ++ "`"
  | .slotType key actual requested =>
    "node value `" ++ key ++ "` has type " ++ actual.name ++ ", not " ++ requested.name
  | .released => "messenger used after release"
  | .noPartitions => "partition count must be > 0"
  | .noForkJoinThreshold => "fork-join threshold must be > 0"
  | .noConcurrency => "concurrency must be > 0"
  | .program text => text

end Superstep
