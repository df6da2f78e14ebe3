/-!
# Run configuration

A configuration is fixed for the whole run. `Config.invalidField?` names the first of its fields
that no run can start with; a run is only created if there is none.
-/

namespace Superstep

/-- Settings of one run. -/
structure Config where
  /-- Upper bound on the number of supersteps. At least 1. -/
  maxIterations : Nat
  /-- Number of workers, and of partitions when the vertices are partitioned. At least 1. -/
  concurrency : Nat
  /-- Deliver messages as soon as they are sent, unless the program has a reducer. -/
  isAsynchronous : Bool
  /-- Schedule by bisecting the vertex range instead of partitioning it. -/
  useForkJoin : Bool
  /-- Largest vertex range that is not bisected any further. At least 1. -/
  forkJoinThreshold : Nat
  deriving Repr, DecidableEq

namespace Config

/-- The superstep cap of a configuration that does not set one. -/
def defaultMaxIterations : Nat := 20

/-- The bisection threshold of a configuration that does not set one. -/
def defaultForkJoinThreshold : Nat := 1000

/-- The configuration that nothing was set in, on a machine with `processors` processors. -/
def default (processors : Nat) : Config where
  maxIterations := defaultMaxIterations
  concurrency := processors
  isAsynchronous := false
  useForkJoin := false
  forkJoinThreshold := defaultForkJoinThreshold

/-- The fields that are checked before a run. -/
inductive Field where
  | maxIterations
  | concurrency
  | forkJoinThreshold
  deriving Repr, DecidableEq

/-- The name of a field in messages. -/
def Field.name : Field → String
  | .maxIterations => "max_iterations"
  | .concurrency => "concurrency"
  | .forkJoinThreshold => "fork_join_threshold"

/-- The first field whose value no run can start with. -/
def invalidField? (c : Config) : Option Field :=
  if c.maxIterations = 0 then some .maxIterations
  else if c.concurrency = 0 then some .concurrency
  else if c.forkJoinThreshold = 0 then some .forkJoinThreshold
  else none

theorem concurrency_pos {c : Config} (h : c.invalidField? = none) : 0 < c.concurrency := by
  simp only [invalidField?] at h
  split at h
  · simp at h
  · split at h
    · simp at h
    · omega

theorem forkJoinThreshold_pos {c : Config} (h : c.invalidField? = none) :
    0 < c.forkJoinThreshold := by
  simp only [invalidField?] at h
  split at h
  · simp at h
  · split at h
    · simp at h
    · split at h
      · simp at h
      · omega

/-- A change to one field. -/
inductive Setting where
  | maxIterations (n : Nat)
  | concurrency (n : Nat)
  | isAsynchronous (b : Bool)
  | useForkJoin (b : Bool)
  | forkJoinThreshold (n : Nat)
  deriving Repr, DecidableEq

/-- The configuration after one change. -/
def apply (c : Config) : Setting → Config
  | .maxIterations n => { c with maxIterations := n }
  | .concurrency n => { c with concurrency := n }
  | .isAsynchronous b => { c with isAsynchronous := b }
  | .useForkJoin b => { c with useForkJoin := b }
  | .forkJoinThreshold n => { c with forkJoinThreshold := n }

/-- The configuration after changes in order; the last change of a field wins. -/
def applyAll (c : Config) (settings : List Setting) : Config := settings.foldl apply c

end Config

end Superstep
