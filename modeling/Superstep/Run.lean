import Superstep.Run.Schedule

/-!
# Runs

A run sets every vertex up and then computes superstep after superstep. After each superstep the
program's own step between supersteps is taken, and the run ends if that says so, if every vertex
has voted to halt and no message waits, or if the cap is reached.

`Run.execute` does all this once in the life of a run; `Run.perform` answers any sequence of
requests to a run. The journal tells what happened.
-/

namespace Superstep

/-- What a run ended with. -/
structure RunResult (α : Type) where
  values : NodeValues α
  /-- Whether the run stopped before its cap. -/
  didConverge : Bool
  /-- The superstep in which the run converged, or the cap. -/
  ranIterations : Nat

/-- The result in messages. -/
def RunResult.text {α : Type} (r : RunResult α) : String :=
  "PregelResult \x7b node_count: " ++ toString r.values.nodeCount ++ ", did_converge: "
    ++ (if r.didConverge then "true" else "false") ++ ", ran_iterations: "
    ++ toString r.ranIterations ++ " \x7d"

/-- How the supersteps of a run ended. -/
structure Ending where
  didConverge : Bool
  ranIterations : Nat
  deriving Repr, DecidableEq

namespace Workspace

variable {α : Type}

/-- Everything a run changes, before it starts. -/
def allocate [Scalar α] (job : Job α) (schema : Schema α) (state : RunState) (flag : Flag)
    (journal : Journal α) : Workspace α :=
  let n := job.graph.nodeCount
  { state, flag, journal
    values := .allocate schema n
    halted := .empty n
    frontier := .empty n
    messenger := .create n job.program.reducer job.config.isAsynchronous
    aborted := false
    stats := .zero }

/-- Takes the program's step after a superstep. -/
def masterCompute (job : Job α) (superstep : Nat) :
    Workspace α → Except Stop Control × Workspace α
  | ⟨state, flag, values, halted, frontier, messenger, aborted, stats, journal⟩ =>
    -- a failed step may have written values, which the owner never sees
    let reply := job.program.master ⟨job.graph, job.config, superstep, flag⟩ values
    let outcome := match reply.outcome with
      | .ok control => .ok control
      | .error (.error source) => .error (.error (.masterCompute superstep source))
      | .error (.violation v) => .error (.violation v)
    (outcome, ⟨state, if reply.requested then flag.request else flag, reply.values, halted,
      frontier, messenger, aborted, stats, journal⟩)

/-- Whether every vertex has voted to halt and no message waits. -/
def isQuiet (ws : Workspace α) : Bool := ws.halted.isFull && !ws.messenger.pending

/-- The figures of a superstep that was computed. -/
def superstepStats (ws : Workspace α) (superstep : Nat) : SuperstepStats :=
  ⟨superstep, ws.frontier.cardinality, ws.stats, ws.halted.cardinality, ws.messenger.pending⟩

/-- Computes a superstep and takes the program's step after it. -/
def superstep (job : Job α) (schedule : Schedule) (s : Nat) (ws : Workspace α) :
    Except Stop Control × Workspace α :=
  let ws := (ws.transition (.running s)).prepare s
  match ws.runPhase job schedule .compute s with
  | (.error stop, ws) => (.error stop, ws)
  | (.ok (), ws) =>
    match masterCompute job s (ws.transition (.masterComputing s)) with
    | (.error stop, ws) => (.error stop, ws)
    | (.ok control, ws) =>
      -- the figures are taken after the program's step, which sends nothing and wakes nobody
      let stats := ws.superstepStats s
      (.ok control, ws.note (.superstepFinished stats))

/-- Computes supersteps from `s` on, at most `remaining`. -/
def supersteps (job : Job α) (schedule : Schedule) :
    (remaining s : Nat) → Workspace α → Except Stop Ending × Workspace α
  | 0, s, ws => (.ok ⟨false, s⟩, ws.transition .reachedMaxIterations)
  | remaining + 1, s, ws =>
    if ws.flag.raised then (.error (.error (.terminated s)), ws)
    else
      match ws.superstep job schedule s with
      | (.error stop, ws) => (.error stop, ws)
      | (.ok .halt, ws) => (.ok ⟨true, s⟩, ws.transition .converged)
      | (.ok .continue, ws) =>
        if ws.isQuiet then (.ok ⟨true, s⟩, ws.transition .converged)
        else supersteps job schedule remaining (s + 1) ws

/-- Sets every vertex up and computes supersteps until the end. -/
def iterate (job : Job α) (schedule : Schedule) (ws : Workspace α) :
    Except Stop Ending × Workspace α :=
  if ws.flag.raised then (.error (.error (.terminated 0)), ws)
  else
    match ws.runPhase job schedule .init 0 with
    | (.error stop, ws) => (.error stop, ws)
    | (.ok (), ws) => supersteps job schedule job.config.maxIterations 0 ws

end Workspace

/-- A run of a program over a graph. -/
structure Run (α : Type) where
  job : Job α
  flag : Flag
  state : RunState
  journal : Journal α

namespace Run

variable {α : Type}

/-- A run that has not started, if one can start with the configuration. -/
def create (graph : Graph α) (config : Config) (program : Program α) (flag : Flag) :
    Except RunError (Run α) :=
  match valid : config.invalidField? with
  | some field => .error (.zeroField field)
  | none =>
    let computer := Computer.ofValid config valid
    .ok ⟨⟨graph, program, config, computer⟩, flag, .created, #[.created computer graph.nodeCount]⟩

/-- How the run will send messages. -/
def strategy (r : Run α) : MessengerStrategy :=
  .select r.job.program.reducer.isSome r.job.config.isAsynchronous

/-- Changes the state. -/
def transition (r : Run α) (next : RunState) : Run α :=
  { r with state := next, journal := r.journal.push (.transition r.state next) }

/-- Starts the run and follows it to its end. -/
def start [Scalar α] (schedule : Schedule) (r : Run α) : Except Stop (RunResult α) × Run α :=
  let ⟨job, flag, state, journal⟩ := r.transition .initializing
  match job.program.schema job.config with
  | .error v => (.error (.violation v), ⟨job, flag, state, journal⟩)
  | .ok schema =>
    let ws := Workspace.allocate job schema state flag journal
    let ws := ws.note (.starting job.graph.nodeCount job.graph.relationshipCount
      ws.messenger.strategy? job.computer job.config.maxIterations)
    match ws.iterate job schedule with
    | (.error stop, ws) => (.error stop, ⟨job, ws.flag, ws.state, ws.journal⟩)
    | (.ok ending, ws) =>
      (.ok ⟨ws.values, ending.didConverge, ending.ranIterations⟩,
        ⟨job, ws.flag, ws.state, ws.journal⟩)

/-- Writes down how the run ended. A run that stopped without a result has failed. -/
def conclude : Except Stop (RunResult α) × Run α → Except Stop (RunResult α) × Run α
  | (.ok result, r) =>
    (.ok result,
      { r with journal := r.journal.push (.finished result.didConverge result.ranIterations) })
  | (.error (.error e), r) =>
    (.error (.error e), ({ r with journal := r.journal.push (.failed e) }).transition .failed)
  | (.error (.violation v), r) =>
    (.error (.violation v),
      ({ r with journal := r.journal.push (.brokenOff r.state) }).transition .failed)

/-- Runs, unless the run was started or released before. -/
def execute [Scalar α] (schedule : Schedule) (r : Run α) : Except Stop (RunResult α) × Run α :=
  if r.state = .created then conclude (r.start schedule)
  else (.error (.error (.invalidState r.state.text "run")), r)

/-- Gives the run up. -/
def release (r : Run α) : Run α := if r.state = .released then r else r.transition .released

/-- Raises the run's flag. -/
def terminate (r : Run α) : Run α := { r with flag := r.flag.raise }

/-- Gives the run another flag. -/
def withFlag (r : Run α) (flag : Flag) : Run α := { r with flag := flag }

/-- A request to a run. -/
inductive Request where
  | execute (schedule : Schedule)
  | release
  | terminate
  | withFlag (flag : Flag)

/-- The answer to a request. -/
inductive Answer (α : Type) where
  | done
  | executed (outcome : Except Stop (RunResult α))

/-- Answers one request. -/
def perform [Scalar α] (r : Run α) : Request → Answer α × Run α
  | .execute schedule => let (outcome, r) := r.execute schedule; (.executed outcome, r)
  | .release => (.done, r.release)
  | .terminate => (.done, r.terminate)
  | .withFlag flag => (.done, r.withFlag flag)

end Run

end Superstep
