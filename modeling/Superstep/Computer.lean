import Superstep.Partition

/-!
# Computers

A computer decides how the vertices of a phase are handed out. A partitioned computer cuts them into
as many parts as there are workers; a fork-join computer starts with one range and lets it be halved
until a piece holds no more than `threshold` vertices.
-/

namespace Superstep

/-- How the vertices of a phase are handed out. -/
inductive Computer where
  /-- Ranges are halved while they hold more than `threshold` vertices. -/
  | forkJoin (threshold : Nat) (positive : 0 < threshold)
  /-- One range for each of `concurrency` workers. -/
  | partitioned (concurrency : Nat) (positive : 0 < concurrency)
  deriving Repr, DecidableEq

namespace Computer

/-- The computer that a valid configuration names. -/
def ofValid (c : Config) (valid : c.invalidField? = none) : Computer :=
  if c.useForkJoin then .forkJoin c.forkJoinThreshold (Config.forkJoinThreshold_pos valid)
  else .partitioned c.concurrency (Config.concurrency_pos valid)

/-- The computer that a configuration names, whether or not the whole of it is valid. -/
def ofConfig (c : Config) : Except Violation Computer :=
  if c.useForkJoin then
    if h : 0 < c.forkJoinThreshold then .ok (.forkJoin c.forkJoinThreshold h)
    else .error .noForkJoinThreshold
  else
    if h : 0 < c.concurrency then .ok (.partitioned c.concurrency h)
    else .error .noConcurrency

/-- The computer in messages. -/
def text : Computer → String
  | .forkJoin threshold _ => s!"fork-join(threshold={threshold})"
  | .partitioned concurrency _ => s!"partitioned(concurrency={concurrency})"

/-- The ranges of a phase over `n` vertices before any is halved. Empty parts are left out. -/
def ranges (c : Computer) (n : Nat) : List VertexRange :=
  match c with
  | .forkJoin _ _ => [⟨0, n⟩]
  | .partitioned concurrency _ =>
    ((Partition.layOut 0 ((List.range concurrency).map (Partition.share n concurrency))).filter
      (!·.isEmpty)).map (·.range)

/-- The halves of a range, if the computer halves it. -/
def halves? (c : Computer) (r : VertexRange) : Option (VertexRange × VertexRange) :=
  match c with
  | .forkJoin threshold _ => if threshold < r.length then some r.halves else none
  | .partitioned _ _ => none

end Computer

end Superstep
