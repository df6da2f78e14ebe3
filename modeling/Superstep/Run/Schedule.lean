import Superstep.Run.Workspace

/-!
# Schedules

A phase is a row of tasks, left to right: ranges that wait for a worker, ranges that a worker is on,
and ranges that are done. A computer may halve a waiting range, as long as no worker has failed.

A schedule says in which order the tasks of each phase are worked on: it lists moves, each of which
takes one task one step on, and when the list ends the remaining work is done from left to right. So
the empty schedule works through everything in ascending order, and every interleaving of the
workers is some schedule. To decide that a vertex will be visited and to visit it are two steps, so
other workers may fail in between. The owner may raise the flag between any two moves.
-/

namespace Superstep

/-- A range of vertices on its way through a phase. -/
inductive Task where
  | waiting (vertices : VertexRange)
  /-- A worker has `position` vertices of the range behind it. -/
  | running (vertices : VertexRange) (position : Nat)
  /-- A worker has `position` vertices of the range behind it and will not stop before the next. -/
  | visiting (vertices : VertexRange) (position : Nat) (inside : position < vertices.length)
  | finished (vertices : VertexRange) (result : StepResult)
  deriving Repr, DecidableEq

/-- What happens next in a phase. -/
inductive Move where
  /-- The task at this place, counted from the left, is taken one step on. -/
  | work (task : Nat)
  /-- The owner raises the flag. -/
  | raiseFlag
  deriving Repr, DecidableEq

/-- The moves of each phase, by superstep; the set-up belongs to superstep 0. -/
abbrev Schedule := Phase → Nat → List Move

/-- The schedule that works through everything in ascending order. -/
def Schedule.sequential : Schedule := fun _ _ => []

/-- The halves that a waiting range is replaced by, if it is. -/
def Computer.split? (c : Computer) (aborted : Bool) (r : VertexRange) :
    Option (VertexRange × VertexRange) :=
  if aborted then none else c.halves? r

theorem Computer.split?_shorter {c : Computer} {aborted : Bool} {r a b : VertexRange}
    (h : c.split? aborted r = some (a, b)) : a.length < r.length ∧ b.length < r.length := by
  unfold Computer.split? at h
  split at h
  · simp at h
  · cases c with
    | partitioned n hn => simp [Computer.halves?] at h
    | forkJoin t ht =>
      simp only [Computer.halves?] at h
      split at h
      · rename_i hlt
        simp only [VertexRange.halves, Option.some.injEq, Prod.mk.injEq] at h
        obtain ⟨rfl, rfl⟩ := h
        simp only [VertexRange.length] at *
        omega
      · simp at h

namespace Workspace

variable {α : Type}

/-- Takes a task one step on. -/
def workOn (job : Job α) (phase : Phase) (superstep : Nat) (task : Task) (ws : Workspace α) :
    List Task × Workspace α :=
  match task with
  | .waiting r =>
    match job.computer.split? ws.aborted r with
    | some (a, b) => ([.waiting a, .waiting b], ws)
    | none => ([.running r 0], ws)
  | .running r position =>
    match h : ws.stop? superstep r position with
    | some result => ([.finished r result], ws.endStep phase superstep r result)
    | none => ([.visiting r position (lt_length_of_stop? h)], ws)
  | .visiting r position _ =>
    match ws.attempt job phase superstep r position with
    | (some result, ws) => ([.finished r result], ws.endStep phase superstep r result)
    | (none, ws) => ([.running r (position + 1)], ws)
  | .finished r result => ([.finished r result], ws)

/-- Makes a move. A move on a task that is not there does nothing. -/
def move (job : Job α) (phase : Phase) (superstep : Nat) :
    List Task × Workspace α → Move → List Task × Workspace α
  | (tasks, ws), .raiseFlag => (tasks, { ws with flag := ws.flag.raise })
  | (tasks, ws), .work i =>
    match tasks[i]? with
    | none => (tasks, ws)
    | some task =>
      let (moved, ws) := ws.workOn job phase superstep task
      (tasks.take i ++ moved ++ tasks.drop (i + 1), ws)

/-- Works through a waiting range from left to right and answers how its pieces ended. -/
def finishRange (job : Job α) (phase : Phase) (superstep : Nat) (r : VertexRange)
    (ws : Workspace α) : List StepResult × Workspace α :=
  match h : job.computer.split? ws.aborted r with
  | some (a, b) =>
    have := Computer.split?_shorter h
    let (left, ws) := finishRange job phase superstep a ws
    let (right, ws) := finishRange job phase superstep b ws
    (left ++ right, ws)
  | none =>
    let (result, ws) := ws.finishStep job phase superstep r 0
    ([result], ws)
termination_by r.length

/-- Works through a task and answers how its pieces ended. -/
def finishTask (job : Job α) (phase : Phase) (superstep : Nat) (task : Task) (ws : Workspace α) :
    List StepResult × Workspace α :=
  match task with
  | .waiting r => ws.finishRange job phase superstep r
  | .running r position =>
    let (result, ws) := ws.finishStep job phase superstep r position
    ([result], ws)
  | .visiting r position _ =>
    match ws.attempt job phase superstep r position with
    | (some result, ws) => ([result], ws.endStep phase superstep r result)
    | (none, ws) =>
      let (result, ws) := ws.finishStep job phase superstep r (position + 1)
      ([result], ws)
  | .finished _ result => ([result], ws)

/-- Works through tasks from left to right and answers how all pieces ended. -/
def finishTasks (job : Job α) (phase : Phase) (superstep : Nat) :
    List Task → Workspace α → List StepResult × Workspace α
  | [], ws => ([], ws)
  | task :: tasks, ws =>
    let (first, ws) := ws.finishTask job phase superstep task
    let (rest, ws) := finishTasks job phase superstep tasks ws
    (first ++ rest, ws)

end Workspace

/-- Why a run stops without a result. -/
inductive Stop where
  | error (e : RunError)
  | violation (v : Violation)
  deriving Repr, DecidableEq

namespace StepResult

/-- The violation that broke a worker off, if one did. -/
def violation? : StepResult → Option Violation
  | .violated v => some v
  | _ => none

/-- The error that a worker failed with, if it did. -/
def error? : StepResult → Option RunError
  | .failed e => some e
  | _ => none

/-- How a phase ended whose pieces ended like this, left to right: a violation comes before any
error, and what lies further left comes first. -/
def combine (results : List StepResult) : Except Stop Unit :=
  match results.findSome? violation? with
  | some v => .error (.violation v)
  | none =>
    match results.findSome? error? with
    | some e => .error (.error e)
    | none => .ok ()

end StepResult

/-- Runs a phase under a schedule. -/
def Workspace.runPhase {α : Type} (job : Job α) (schedule : Schedule) (phase : Phase)
    (superstep : Nat) (ws : Workspace α) : Except Stop Unit × Workspace α :=
  -- first the moves of the schedule, then what they left to do
  let tasks := (job.computer.ranges job.graph.nodeCount).map Task.waiting
  let ws := { ws with aborted := false, stats := .zero }
  let (tasks, ws) := (schedule phase superstep).foldl (Workspace.move job phase superstep)
    (tasks, ws)
  let (results, ws) := ws.finishTasks job phase superstep tasks
  (StepResult.combine results, ws)

end Superstep
