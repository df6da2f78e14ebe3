import Superstep.Message.Messenger
import Superstep.Run.Event

/-!
# Working on vertices

`Workspace` is everything a run changes: the vertex values, who voted to halt, who is awake, the
messages, the flag and the journal. `Job` is what stays fixed.

The smallest unit of work is a visit to one vertex, `Workspace.visit`. In superstep 0 every vertex
is awake; later a vertex is awake if it has not voted to halt or has messages. A sleeping vertex is
passed over, unless a message reached it while the superstep was running, which only an asynchronous
messenger makes possible.

A worker goes through its range vertex by vertex. Before each vertex it stops if another worker has
failed, and at every position that is a multiple of `pollInterval` it looks at the termination flag
(`Workspace.stop?`). Then it visits the vertex (`Workspace.attempt`), and whatever the other workers
do in the meantime, this visit is not called off any more.
-/

namespace Superstep

/-- What stays fixed during a run. -/
structure Job (α : Type) where
  graph : Graph α
  program : Program α
  config : Config
  computer : Computer

/-- What a run changes. -/
structure Workspace (α : Type) where
  state : RunState
  flag : Flag
  values : NodeValues α
  /-- The vertices whose vote to halt stands. -/
  halted : BitSet
  /-- The vertices that were awake when the superstep began. -/
  frontier : BitSet
  messenger : Messenger α
  /-- Whether a worker of the running phase has failed. -/
  aborted : Bool
  /-- The counters of the running phase. -/
  stats : PhaseStats
  journal : Journal α

namespace Workspace

variable {α : Type}

/-- Writes an event down. -/
def note (ws : Workspace α) (e : Event α) : Workspace α :=
  { ws with journal := ws.journal.push e }

/-- Changes the state. -/
def transition (ws : Workspace α) (next : RunState) : Workspace α :=
  { ws with state := next, journal := ws.journal.push (.transition ws.state next) }

/-- What a hook may look at. -/
def view (ws : Workspace α) (job : Job α) (superstep vertex : Nat) (inbox : List α) :
    VertexView α :=
  ⟨job.graph, job.config, superstep, vertex, ws.values.row vertex, inbox, ws.flag⟩

/-- Records a vertex's vote to halt. Only the first of several counts. -/
def voteToHalt (ws : Workspace α) (vertex : Nat) : Workspace α :=
  if ws.halted.contains vertex then ws
  else { ws with
    halted := ws.halted.insert vertex
    stats := { ws.stats with newlyHalted := ws.stats.newlyHalted + 1 } }

/-- Sends a message that the messenger accepts. -/
def post (ws : Workspace α) (target : Nat) (value : α) : Workspace α :=
  { ws with
    messenger := ws.messenger.post target value
    stats := { ws.stats with messagesSent := ws.stats.messagesSent + 1 } }

/-- Carries out the effects of a computed vertex in order, up to the first message that the
messenger rejects. -/
def perform (vertex : Nat) : List (Effect α) → Workspace α → Except Violation Unit × Workspace α
  | [], ws => (.ok (), ws)
  | .send target value :: effects, ws =>
    match ws.messenger.refusal? target with
    | some violation => (.error violation, ws)
    | none => perform vertex effects (ws.post target value)
  | .voteToHalt :: effects, ws => perform vertex effects (ws.voteToHalt vertex)
  | .terminate :: effects, ws => perform vertex effects { ws with flag := ws.flag.request }

/-- Sets a vertex up. Of the hook's effects only a request to stop is carried out. -/
def visitInit (job : Job α) (vertex : Nat) (ws : Workspace α) : Except Fault Unit × Workspace α :=
  let reply := job.program.init (ws.view job 0 vertex [])
  -- no messages travel before superstep 0, and no vertex sleeps then
  let requested := reply.effects.any fun
    | .terminate => true
    | _ => false
  let call : Call α := ⟨.init, 0, vertex, false, ws.halted.contains vertex, [], reply⟩
  (reply.outcome, { ws with
    flag := if requested then ws.flag.request else ws.flag
    values := ws.values.setRow vertex reply.row
    journal := ws.journal.push (.call call) })

/-- Calls the program on a vertex that is awake, or that was woken late. -/
def callCompute (job : Job α) (superstep vertex : Nat) (late : Bool) (ws : Workspace α) :
    Except Fault Unit × Workspace α :=
  -- the messages are taken away before the hook's own are sent, which may be to this vertex
  let inbox := ws.messenger.inbox vertex
  let reply := job.program.compute (ws.view job superstep vertex inbox)
  let call : Call α := ⟨.compute, superstep, vertex, late, ws.halted.contains vertex, inbox, reply⟩
  let ws := { ws with
    values := ws.values.setRow vertex reply.row
    messenger := ws.messenger.afterReceiving vertex
    stats := { ws.stats with invocations := ws.stats.invocations + 1 }
    journal := ws.journal.push (.call call) }
  match perform vertex reply.effects ws with
  | (.error violation, ws) => (.error (.violation violation), ws)
  | (.ok (), ws) => (reply.outcome, ws)

/-- Computes a vertex unless it sleeps. -/
def visitCompute (job : Job α) (superstep vertex : Nat) (ws : Workspace α) :
    Except Fault Unit × Workspace α :=
  if ws.frontier.contains vertex then callCompute job superstep vertex false ws
  else if ws.messenger.hasMail vertex then
    callCompute job superstep vertex true { ws with halted := ws.halted.erase vertex }
  else (.ok (), ws)

/-- Visits a vertex. -/
def visit (job : Job α) (phase : Phase) (superstep vertex : Nat) (ws : Workspace α) :
    Except Fault Unit × Workspace α :=
  match phase with
  | .init => visitInit job vertex ws
  | .compute => visitCompute job superstep vertex ws

/-- Wakes a vertex at the start of a superstep, if it has messages or has not voted to halt. -/
def wake (ws : Workspace α) (vertex : Nat) : Workspace α :=
  if ws.messenger.hasMail vertex then
    { ws with halted := ws.halted.erase vertex, frontier := ws.frontier.insert vertex }
  else if ws.halted.contains vertex then ws
  else { ws with frontier := ws.frontier.insert vertex }

/-- Gets messages and vertices ready for a superstep. -/
def prepare (ws : Workspace α) (superstep : Nat) : Workspace α :=
  let ws := { ws with
    messenger := ws.messenger.prepare superstep
    frontier := ws.frontier.clear }
  (List.range ws.frontier.size).foldl wake ws

end Workspace

/-- How a worker ended. -/
inductive StepResult where
  /-- It went through its range, or stopped because another worker had failed. -/
  | completed
  | failed (e : RunError)
  | violated (v : Violation)
  deriving Repr, DecidableEq

/-- Number of positions between two looks at the termination flag. -/
def pollInterval : Nat := 1024

namespace Workspace

variable {α : Type}

/-- How a worker with the range `vertices`, of which `position` vertices are behind it, ends before
the next one, if it does. -/
def stop? (superstep : Nat) (vertices : VertexRange) (position : Nat) (ws : Workspace α) :
    Option StepResult :=
  if vertices.length ≤ position then some .completed
  else if ws.aborted then some .completed
  else if position % pollInterval = 0 ∧ ws.flag.raised then some (.failed (.terminated superstep))
  else none

theorem lt_length_of_stop? {superstep : Nat} {vertices : VertexRange} {position : Nat}
    {ws : Workspace α} (h : ws.stop? superstep vertices position = none) :
    position < vertices.length := by
  unfold stop? at h
  split at h
  · cases h
  · omega

/-- Takes a worker over the vertex that it is on, and answers how it ends there, if it does. -/
def attempt (job : Job α) (phase : Phase) (superstep : Nat) (vertices : VertexRange)
    (position : Nat) (ws : Workspace α) : Option StepResult × Workspace α :=
  match ws.visit job phase superstep (vertices.start + position) with
  | (.ok (), ws) => (none, ws)
  | (.error (.error source), ws) =>
    (some (.failed (.computation phase superstep vertices source)), ws)
  | (.error (.violation violation), ws) => (some (.violated violation), ws)

/-- Ends a worker. It is written down how, unless a violation broke the worker off, and a failure
keeps the other workers from going on. -/
def endStep (phase : Phase) (superstep : Nat) (vertices : VertexRange) (result : StepResult)
    (ws : Workspace α) : Workspace α :=
  match result with
  | .completed => ws.note (.stepFinished phase superstep vertices true)
  | .failed _ => { ws with aborted := true }.note (.stepFinished phase superstep vertices false)
  | .violated _ => ws

/-- Takes a worker over at most `count` vertices from `position` on. -/
def advanceBy (job : Job α) (phase : Phase) (superstep : Nat) (vertices : VertexRange) :
    (count position : Nat) → Workspace α → StepResult × Workspace α
  | 0, _, ws => (.completed, ws)
  | count + 1, position, ws =>
    match ws.stop? superstep vertices position with
    | some result => (result, ws)
    | none =>
      match ws.attempt job phase superstep vertices position with
      | (some result, ws) => (result, ws)
      | (none, ws) => advanceBy job phase superstep vertices count (position + 1) ws

/-- Takes a worker from `position` to the end of its range. -/
def finishStep (job : Job α) (phase : Phase) (superstep : Nat) (vertices : VertexRange)
    (position : Nat) (ws : Workspace α) : StepResult × Workspace α :=
  let (result, ws) :=
    advanceBy job phase superstep vertices (vertices.length - position) position ws
  (result, ws.endStep phase superstep vertices result)

end Workspace

end Superstep
