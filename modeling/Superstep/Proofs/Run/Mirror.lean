import Mathlib
import Superstep.Proofs.Message.Condensing
import Superstep.Proofs.Run.Lockstep

/-!
# Combining on the way, step by step

The same job is done by two workspaces, one with a reducing messenger and one with queues. If the
program looks at its messages only through the reducer, the workspaces stay mirror images of each
other (`Workspace.Mirrors`) through every visit, every move and every superstep: they differ in how
messages are kept and in nothing else.

This needs that messages go to vertices that exist, since the two messengers refuse the others with
different violations. It is assumed of the calls in the journal (`Journal.SendsInside`), and as
journals only grow, it is enough to assume it of the end.

## Key results

- `Workspace.inStep_visit`: both workspaces come out of a visit in the same way
- `Workspace.inStep_runPhase`, `inStep_superstep`: so they do of phases and supersteps
-/

namespace Superstep

variable {α : Type}

/-! ## The two jobs -/

/-- The program with its messages combined on the way. -/
def Program.reducing (p : Program α) (r : Reducer α) : Program α := { p with reducer := some r }

/-- The program with its messages kept in queues. -/
def Program.queueing (p : Program α) : Program α := { p with reducer := none }

def Job.reducing (job : Job α) (r : Reducer α) : Job α :=
  { job with program := job.program.reducing r }

def Job.queueing (job : Job α) : Job α := { job with program := job.program.queueing }

/-- The program looks at its messages only through whether there are any, and through what they
combine to. -/
def Program.ReadsThrough (p : Program α) (r : Reducer α) : Prop :=
  ∀ (view : VertexView α) (inbox : List α), view.inbox.isEmpty = inbox.isEmpty →
    r.fold view.inbox = r.fold inbox → p.compute view = p.compute { view with inbox := inbox }

/-! ## What both journals show -/

/-- An event, but for how messages are kept. -/
def Event.condensed (r : Reducer α) : Event α → Event α
  | .call c => .call { c with inbox := r.condense c.inbox }
  | .starting nodeCount relationshipCount _ computer maxIterations =>
    .starting nodeCount relationshipCount none computer maxIterations
  | e => e

namespace Journal

/-- A journal, but for how messages are kept. -/
def condensed (r : Reducer α) (j : Journal α) : Journal α := j.map (Event.condensed r)

/-- Each event is condensed by itself. -/
theorem condensed_push (r : Reducer α) (j : Journal α) (e : Event α) :
    condensed r (j.push e) = (j.condensed r).push (e.condensed r) :=
  Array.map_push

/-- All messages that the calls wanted to send were to one of `n` vertices. -/
def SendsInside (n : Nat) (j : Journal α) : Prop :=
  ∀ c ∈ j.calls .compute, ∀ e ∈ c.reply.effects, e.isPossible n = true

end Journal

namespace Workspace

variable {n s : Nat} {r : Reducer α} {ws ws' : Workspace α} {job : Job α} {phase : Phase}

/-- What is assumed of the calls of a whole run holds of those up to a point in it. -/
theorem Continues.sendsInside (h : Continues ws ws') (hinside : ws'.journal.SendsInside n) :
    ws.journal.SendsInside n :=
  fun c hc => hinside c ((h.calls .compute).subset hc)

/-! ## Mirror images -/

/-- The first workspace combines on the way what the second one keeps in queues. -/
structure Mirrors (n : Nat) (r : Reducer α) (ws ws' : Workspace α) : Prop where
  state : ws.state = ws'.state
  flag : ws.flag = ws'.flag
  values : ws.values = ws'.values
  halted : ws.halted = ws'.halted
  frontier : ws.frontier = ws'.frontier
  messenger : ws.messenger.Condenses n r ws'.messenger
  aborted : ws.aborted = ws'.aborted
  stats : ws.stats = ws'.stats
  journal : ws.journal.condensed r = ws'.journal.condensed r

/-- A mirror image is the same workspace but for the messenger and the journal. -/
theorem Mirrors.exists_eq (h : ws.Mirrors n r ws') :
    ∃ messenger journal, ws' = { ws with messenger := messenger, journal := journal } ∧
      ws.messenger.Condenses n r messenger ∧
        ws.journal.condensed r = Journal.condensed r journal := by
  obtain ⟨hstate, hflag, hvalues, hhalted, hfrontier, hmessenger, haborted, hstats, hjournal⟩ := h
  refine ⟨ws'.messenger, ws'.journal, ?_, hmessenger, hjournal⟩
  rw [hstate, hflag, hvalues, hhalted, hfrontier, haborted, hstats]

/-- Mirror images stay so when both write down the same event, or calls that condense to one. -/
theorem Mirrors.note (h : ws.Mirrors n r ws') {e e' : Event α}
    (he : e.condensed r = e'.condensed r) : (ws.note e).Mirrors n r (ws'.note e') := by
  obtain ⟨messenger, journal, rfl, hmessenger, hjournal⟩ := h.exists_eq
  refine ⟨rfl, rfl, rfl, rfl, rfl, hmessenger, rfl, rfl, ?_⟩
  rw [Workspace.note, Workspace.note, Journal.condensed_push, Journal.condensed_push, hjournal, he]

/-- Mirror images stay so when both go over to the same state. -/
theorem Mirrors.transition (h : ws.Mirrors n r ws') (state : RunState) :
    (ws.transition state).Mirrors n r (ws'.transition state) := by
  obtain ⟨messenger, journal, rfl, hmessenger, hjournal⟩ := h.exists_eq
  refine ⟨rfl, rfl, rfl, rfl, rfl, hmessenger, rfl, rfl, ?_⟩
  rw [Workspace.transition, Workspace.transition, Journal.condensed_push, Journal.condensed_push,
    hjournal]

/-- Mirror images come to rest together. -/
theorem Mirrors.isQuiet (h : ws.Mirrors n r ws') : ws.isQuiet = ws'.isQuiet := by
  -- whether something waits is the only question to the messenger
  rw [Workspace.isQuiet, Workspace.isQuiet, h.halted, h.messenger.pending]

/-- Mirror images have the same figures. -/
theorem Mirrors.superstepStats (h : ws.Mirrors n r ws') (s : Nat) :
    ws.superstepStats s = ws'.superstepStats s := by
  rw [Workspace.superstepStats, Workspace.superstepStats, h.frontier, h.stats, h.halted,
    h.messenger.pending]

/-! ## The start of a superstep -/

/-- Mirror images stay so when a vertex is woken: it has mail in both or in neither. -/
theorem Mirrors.wake (h : ws.Mirrors n r ws') (v : Nat) : (ws.wake v).Mirrors n r (ws'.wake v) := by
  rw [Workspace.wake, Workspace.wake, ← h.messenger.hasMail]
  obtain ⟨messenger, journal, rfl, hmessenger, hjournal⟩ := h.exists_eq
  dsimp only
  split
  · -- the vertex has mail and is put on the frontier
    exact ⟨rfl, rfl, rfl, rfl, rfl, hmessenger, rfl, rfl, hjournal⟩
  · split
    · exact h
    · exact ⟨rfl, rfl, rfl, rfl, rfl, hmessenger, rfl, rfl, hjournal⟩

/-- Mirror images stay so when a superstep is prepared. -/
theorem Mirrors.prepare (h : ws.Mirrors n r ws') (s : Nat) :
    (ws.prepare s).Mirrors n r (ws'.prepare s) := by
  -- the vertices are woken one by one
  have hwoken (vs : List Nat) {ws ws' : Workspace α} (h : ws.Mirrors n r ws') :
      (vs.foldl Workspace.wake ws).Mirrors n r (vs.foldl Workspace.wake ws') := by
    induction vs generalizing ws ws' with
    | nil => exact h
    | cons v vs ih => exact ih (h.wake v)
  obtain ⟨messenger, journal, rfl, hmessenger, hjournal⟩ := h.exists_eq
  exact hwoken _ ⟨rfl, rfl, rfl, rfl, rfl, hmessenger.prepare s, rfl, rfl, hjournal⟩

/-! ## Visits -/

/-- Both workspaces come out in the same way, unless a message went to no vertex. -/
def InStep (n : Nat) (r : Reducer α) {β : Type} (x x' : β × Workspace α) : Prop :=
  x'.2.journal.SendsInside n → Together (Mirrors n r) x x'

/-- Effects that are possible are carried out in the same way. -/
theorem Mirrors.perform (hr : r.IsLawful) (h : ws.Mirrors n r ws') (vertex : Nat)
    {effects : List (Effect α)} (heffects : ∀ e ∈ effects, e.isPossible n = true) :
    Together (Mirrors n r) (Workspace.perform vertex effects ws)
      (Workspace.perform vertex effects ws') := by
  induction effects generalizing ws ws' with
  | nil => exact ⟨rfl, h⟩
  | cons e effects ih =>
    obtain ⟨he, hrest⟩ := List.forall_mem_cons.mp heffects
    have hmirrored := h
    obtain ⟨messenger, journal, rfl, hmessenger, hjournal⟩ := h.exists_eq
    cases e with
    | send target value =>
      -- a message that is possible has a target, so neither messenger refuses it
      have htarget : target < n := of_decide_eq_true he
      obtain ⟨hvalid, hvalid'⟩ := hmessenger.valid
      rw [Workspace.perform, Workspace.perform,
        (Messenger.refusal?_eq_none_iff hvalid target).mpr htarget,
        (Messenger.refusal?_eq_none_iff hvalid' target).mpr htarget]
      exact ih ⟨rfl, rfl, rfl, rfl, rfl, hmessenger.post hr htarget value, rfl, rfl, hjournal⟩ hrest
    | voteToHalt =>
      refine ih ?_ hrest
      rw [voteToHalt, voteToHalt]
      dsimp only
      split
      · exact hmirrored
      · exact ⟨rfl, rfl, rfl, rfl, rfl, hmessenger, rfl, rfl, hjournal⟩
    | terminate => exact ih ⟨rfl, rfl, rfl, rfl, rfl, hmessenger, rfl, rfl, hjournal⟩ hrest

/-- How a call ends does not change the workspace any more. -/
theorem snd_concluded (c : Call α) (x : Except Violation Unit × Workspace α) :
    (concluded c x).2 = x.2 := by
  obtain ⟨_ | _, last⟩ := x <;> rfl

/-- A call replies the same to the combined messages as to all of them. -/
theorem inStep_callCompute (hr : r.IsLawful) (hreads : job.program.ReadsThrough r)
    (h : ws.Mirrors n r ws') (v : Nat) (late : Bool) :
    InStep n r (callCompute (job.reducing r) s v late ws)
      (callCompute job.queueing s v late ws') := by
  have hinbox := h.messenger.inbox v
  obtain ⟨messenger, journal, rfl, hmessenger, hjournal⟩ := h.exists_eq
  -- the calls that the two make
  let c' : Call α := ⟨.compute, s, v, late, ws.halted.contains v, messenger.inbox v,
    job.program.compute (ws.view job s v (messenger.inbox v))⟩
  let c : Call α := { c' with inbox := ws.messenger.inbox v }
  -- the program sees as much of the combined message as of all messages
  have hreply : job.program.compute (ws.view job s v (ws.messenger.inbox v)) = c'.reply := by
    refine hreads (ws.view job s v (ws.messenger.inbox v)) (messenger.inbox v) ?_ ?_
    · exact (congrArg List.isEmpty hinbox).trans (r.isEmpty_condense _)
    · exact (congrArg r.fold hinbox).trans (Reducer.fold_condense hr _)
  have hcall : callCompute (job.reducing r) s v late ws
      = concluded c (Workspace.perform v c.reply.effects (ws.handOver c)) := by
    have hc : c = ⟨.compute, s, v, late, ws.halted.contains v, ws.messenger.inbox v,
      job.program.compute (ws.view job s v (ws.messenger.inbox v))⟩ := by rw [hreply]
    rw [hc]
    rfl
  let ws₁ : Workspace α := { ws with messenger := messenger, journal := journal }
  have hcall' : callCompute job.queueing s v late ws₁
      = concluded c' (Workspace.perform v c'.reply.effects (ws₁.handOver c')) := rfl
  -- the messages are taken and the call is written down before its effects
  have hhanded : (ws.handOver c).Mirrors n r (ws₁.handOver c') := by
    refine ⟨rfl, rfl, rfl, rfl, rfl, hmessenger.afterReceiving v, rfl, rfl, ?_⟩
    have hevent : (Event.call c).condensed r = (Event.call c').condensed r := by
      simp only [Event.condensed, c, c', hinbox, Reducer.condense_condense hr]
    rw [handOver, handOver, Journal.condensed_push, Journal.condensed_push, hevent, hjournal]
  rw [hcall, hcall']
  intro hinside
  have hjournal' : (concluded c' (Workspace.perform v c'.reply.effects (ws₁.handOver c'))).2.journal
      = Array.push journal (.call c') := by
    rw [snd_concluded, (keeps_perform _ _).2]
    rfl
  -- the call is in the journal, so its effects are among those assumed to be possible
  have heffects : ∀ e ∈ c'.reply.effects, e.isPossible n = true := by
    refine hinside c' ?_
    rw [hjournal', Journal.calls_push]
    exact List.mem_append_right _ (List.mem_singleton_self c')
  have htogether := hhanded.perform hr v heffects
  rcases hlast : Workspace.perform v c.reply.effects (ws.handOver c) with ⟨out, last⟩
  rw [hlast] at htogether
  obtain ⟨last', hlast', hmirrored⟩ := htogether.exists_right
  rw [hlast']
  cases out <;> exact ⟨rfl, hmirrored⟩

/-- Both workspaces come out of a visit in the same way. -/
theorem inStep_visit (hr : r.IsLawful) (hreads : job.program.ReadsThrough r)
    (h : ws.Mirrors n r ws') (v : Nat) :
    InStep n r (ws.visit (job.reducing r) phase s v) (ws'.visit job.queueing phase s v) := by
  cases phase with
  | init =>
    intro _
    obtain ⟨messenger, journal, rfl, hmessenger, hjournal⟩ := h.exists_eq
    refine ⟨rfl, rfl, rfl, rfl, rfl, rfl, hmessenger, rfl, rfl, ?_⟩
    rw [visit, visit, visitInit, visitInit, Journal.condensed_push, Journal.condensed_push]
    exact congrArg (Array.push · _) hjournal
  | compute =>
    rw [visit, visit, visitCompute, visitCompute, ← h.frontier, ← h.messenger.hasMail]
    split
    · exact inStep_callCompute hr hreads h v false
    · -- a vertex with mail that arrived in this superstep is woken for a late call
      split
      · refine inStep_callCompute hr hreads ?_ v true
        obtain ⟨messenger, journal, rfl, hmessenger, hjournal⟩ := h.exists_eq
        exact ⟨rfl, rfl, rfl, rfl, rfl, hmessenger, rfl, rfl, hjournal⟩
      · exact fun _ => ⟨rfl, h⟩

/-! ## Phases -/

/-- Workers in mirror images stop for the same reason. -/
theorem Mirrors.stop?_eq (h : ws.Mirrors n r ws') (vertices : VertexRange) (position : Nat) :
    ws.stop? s vertices position = ws'.stop? s vertices position := by
  rw [stop?, stop?, h.aborted, h.flag]

/-- Mirror images stay so when a worker ends in the same way. -/
theorem Mirrors.endStep (h : ws.Mirrors n r ws') (vertices : VertexRange) (result : StepResult) :
    (ws.endStep phase s vertices result).Mirrors n r (ws'.endStep phase s vertices result) := by
  cases result with
  | completed => exact h.note rfl
  | failed e =>
    have haborted : { ws with aborted := true }.Mirrors n r { ws' with aborted := true } := by
      obtain ⟨messenger, journal, rfl, hmessenger, hjournal⟩ := h.exists_eq
      exact ⟨rfl, rfl, rfl, rfl, rfl, hmessenger, rfl, rfl, hjournal⟩
    exact haborted.note rfl
  | violated v => exact h

/-- A worker that ends takes nothing back. -/
theorem continues_endStep (vertices : VertexRange) (result : StepResult) (ws : Workspace α) :
    Continues ws (ws.endStep phase s vertices result) := by
  cases result with
  | completed => exact continues_of_push rfl
  | failed e => exact continues_of_push rfl
  | violated v => exact .refl ws

/-- Both workers come out of their next vertex in the same way. -/
theorem inStep_attempt (hr : r.IsLawful) (hreads : job.program.ReadsThrough r)
    (h : ws.Mirrors n r ws') (vertices : VertexRange) (position : Nat) :
    InStep n r (ws.attempt (job.reducing r) phase s vertices position)
      (ws'.attempt job.queueing phase s vertices position) := by
  have hvisit := @inStep_visit _ n s r ws ws' job phase hr hreads h (vertices.start + position)
  rw [attempt, attempt]
  generalize ws.visit (job.reducing r) phase s (vertices.start + position) = x,
    ws'.visit job.queueing phase s (vertices.start + position) = x' at hvisit ⊢
  obtain ⟨out, next⟩ := x
  -- the answer is that of the visit
  obtain ⟨(source | v) | _, next'⟩ := x' <;>
    (intro hinside; obtain ⟨rfl, hnext⟩ := hvisit hinside; exact ⟨rfl, hnext⟩)

/-- Both workers end with the visit, or both go on as they go on in step. -/
theorem inStep_afterAttempt {β : Type} (ends : StepResult → β)
    {goOn goOn' : Workspace α → β × Workspace α} (hr : r.IsLawful)
    (hreads : job.program.ReadsThrough r) (h : ws.Mirrors n r ws') (vertices : VertexRange)
    (position : Nat)
    (hlater : ∀ ws', Continues ws' (goOn' ws').2)
    (hgoOn : ∀ {ws ws'}, ws.Mirrors n r ws' → InStep n r (goOn ws) (goOn' ws')) :
    InStep n r
      (match ws.attempt (job.reducing r) phase s vertices position with
        | (some result, ws) => (ends result, ws.endStep phase s vertices result)
        | (none, ws) => goOn ws)
      (match ws'.attempt job.queueing phase s vertices position with
        | (some result, ws) => (ends result, ws.endStep phase s vertices result)
        | (none, ws) => goOn' ws) := by
  have hattempt := @inStep_attempt _ n s r ws ws' job phase hr hreads h vertices position
  generalize ws.attempt (job.reducing r) phase s vertices position = x,
    ws'.attempt job.queueing phase s vertices position = x' at hattempt ⊢
  obtain ⟨out, next⟩ := x
  rcases x' with ⟨_ | result, next'⟩
  · -- the worker goes on, and what is assumed of the end holds of the vertex
    intro hinside
    obtain ⟨rfl, hnext⟩ := hattempt ((hlater next').sendsInside hinside)
    exact hgoOn hnext hinside
  · -- the worker ends, and what it writes then takes nothing back
    intro hinside
    have hended := @continues_endStep _ s phase vertices result next'
    obtain ⟨rfl, hnext⟩ := hattempt (hended.sendsInside hinside)
    exact ⟨rfl, hnext.endStep vertices result⟩

/-- Both workers come out of what is left of their range in the same way. -/
theorem inStep_finishStep (hr : r.IsLawful) (hreads : job.program.ReadsThrough r)
    (h : ws.Mirrors n r ws') (vertices : VertexRange) (position : Nat) :
    InStep n r (ws.finishStep (job.reducing r) phase s vertices position)
      (ws'.finishStep job.queueing phase s vertices position) := by
  generalize hcount : vertices.length - position = count
  -- the induction is on the number of vertices that are left
  induction count generalizing position ws ws' with
  | zero =>
    have hstop : ws'.stop? s vertices position = some .completed := by
      rw [stop?, if_pos (by omega)]
    rw [finishStep_eq, finishStep_eq, h.stop?_eq, hstop]
    exact fun _ => ⟨rfl, h.endStep vertices .completed⟩
  | succ count ih =>
    rw [finishStep_eq, finishStep_eq, h.stop?_eq]
    cases ws'.stop? s vertices position with
    | some result => exact fun _ => ⟨rfl, h.endStep vertices result⟩
    | none =>
      exact inStep_afterAttempt id hr hreads h vertices position
        (fun next' => continues_finishStep vertices (position + 1) next')
        fun hnext => ih hnext (position + 1) (by omega)

/-- Both workspaces come out of a waiting range in the same way. -/
theorem inStep_finishRange (hr : r.IsLawful) (hreads : job.program.ReadsThrough r)
    (h : ws.Mirrors n r ws') (vertices : VertexRange) :
    InStep n r (ws.finishRange (job.reducing r) phase s vertices)
      (ws'.finishRange job.queueing phase s vertices) := by
  -- the induction is on the length of the range, which every halving shortens
  generalize hlength : vertices.length = length
  induction length using Nat.strongRecOn generalizing vertices ws ws' with
  | ind length ih =>
    cases hsplit : (job.reducing r).computer.split? ws.aborted vertices with
    | none =>
      have hsplit' : job.queueing.computer.split? ws'.aborted vertices = none :=
        h.aborted ▸ hsplit
      rw [finishRange_of_none hsplit, finishRange_of_none hsplit']
      intro hinside
      obtain ⟨hout, hlast⟩ := inStep_finishStep hr hreads h vertices 0 hinside
      exact ⟨congrArg (fun result => [result]) hout, hlast⟩
    | some halves =>
      obtain ⟨a, b⟩ := halves
      obtain ⟨ha, hb⟩ := Computer.split?_shorter hsplit
      have hsplit' : job.queueing.computer.split? ws'.aborted vertices = some (a, b) :=
        h.aborted ▸ hsplit
      rw [finishRange_of_some hsplit, finishRange_of_some hsplit']
      intro hinside
      -- what is assumed of both halves holds of the left one
      have hlater := @continues_finishRange _ job.queueing phase s b
        (ws'.finishRange job.queueing phase s a).2
      obtain ⟨hleft, hnext⟩ := ih a.length (by omega) h a rfl (hlater.sendsInside hinside)
      obtain ⟨hright, hlast⟩ := ih b.length (by omega) hnext b rfl hinside
      exact ⟨congrArg₂ (· ++ ·) hleft hright, hlast⟩

/-- Both workspaces come out of a task in the same way. -/
theorem inStep_finishTask (hr : r.IsLawful) (hreads : job.program.ReadsThrough r)
    (h : ws.Mirrors n r ws') (task : Task) :
    InStep n r (ws.finishTask (job.reducing r) phase s task)
      (ws'.finishTask job.queueing phase s task) := by
  -- a worker by itself makes a list of one result
  have hstep {ws ws' : Workspace α} (h : ws.Mirrors n r ws') (vertices : VertexRange)
      (position : Nat) :
      InStep n r ([(ws.finishStep (job.reducing r) phase s vertices position).1],
          (ws.finishStep (job.reducing r) phase s vertices position).2)
        ([(ws'.finishStep job.queueing phase s vertices position).1],
          (ws'.finishStep job.queueing phase s vertices position).2) := by
    intro hinside
    obtain ⟨hout, hlast⟩ := inStep_finishStep hr hreads h vertices position hinside
    exact ⟨congrArg (fun result => [result]) hout, hlast⟩
  cases task with
  | waiting vertices => exact inStep_finishRange hr hreads h vertices
  | running vertices position => exact hstep h vertices position
  | visiting vertices position inside =>
    rw [finishTask, finishTask]
    exact inStep_afterAttempt (fun result => [result]) hr hreads h vertices position
      (fun next' => continues_finishStep vertices (position + 1) next')
      fun hnext => hstep hnext vertices (position + 1)
  | finished vertices result => exact fun _ => ⟨rfl, h⟩

/-- Both workspaces come out of all tasks in the same way. -/
theorem inStep_finishTasks (hr : r.IsLawful) (hreads : job.program.ReadsThrough r)
    (h : ws.Mirrors n r ws') (tasks : List Task) :
    InStep n r (ws.finishTasks (job.reducing r) phase s tasks)
      (ws'.finishTasks job.queueing phase s tasks) := by
  induction tasks generalizing ws ws' with
  | nil => exact fun _ => ⟨rfl, h⟩
  | cons task tasks ih =>
    intro hinside
    have hlater := @continues_finishTasks _ job.queueing phase s tasks
      (ws'.finishTask job.queueing phase s task).2
    obtain ⟨hfirst, hnext⟩ := inStep_finishTask hr hreads h task (hlater.sendsInside hinside)
    obtain ⟨hrest, hlast⟩ := ih hnext hinside
    exact ⟨congrArg₂ (· ++ ·) hfirst hrest, hlast⟩

/-- Both workspaces come out of one step of a task in the same way. -/
theorem inStep_workOn (hr : r.IsLawful) (hreads : job.program.ReadsThrough r)
    (h : ws.Mirrors n r ws') (task : Task) :
    InStep n r (ws.workOn (job.reducing r) phase s task)
      (ws'.workOn job.queueing phase s task) := by
  cases task with
  | waiting vertices =>
    cases hsplit : (job.reducing r).computer.split? ws.aborted vertices with
    | none =>
      have hsplit' : job.queueing.computer.split? ws'.aborted vertices = none :=
        h.aborted ▸ hsplit
      rw [workOn, workOn, hsplit, hsplit']
      exact fun _ => ⟨rfl, h⟩
    | some halves =>
      have hsplit' : job.queueing.computer.split? ws'.aborted vertices = some halves :=
        h.aborted ▸ hsplit
      rw [workOn, workOn, hsplit, hsplit']
      exact fun _ => ⟨rfl, h⟩
  | running vertices position =>
    rw [workOn, workOn]
    -- both workers stop here or neither does
    split <;> rename_i hstop <;> split <;> rename_i hstop'
    · cases hstop.symm.trans ((h.stop?_eq vertices position).trans hstop')
      exact fun _ => ⟨rfl, h.endStep vertices _⟩
    · cases hstop.symm.trans ((h.stop?_eq vertices position).trans hstop')
    · cases hstop.symm.trans ((h.stop?_eq vertices position).trans hstop')
    · exact fun _ => ⟨rfl, h⟩
  | visiting vertices position inside =>
    rw [workOn, workOn]
    exact inStep_afterAttempt (fun result => [Task.finished vertices result]) hr hreads h vertices
      position (fun next' => .refl next') fun hnext _ => ⟨rfl, hnext⟩
  | finished vertices result => exact fun _ => ⟨rfl, h⟩

/-- Both workspaces come out of a move in the same way. -/
theorem inStep_move (hr : r.IsLawful) (hreads : job.program.ReadsThrough r) {tasks : List Task}
    (h : ws.Mirrors n r ws') (m : Move) :
    InStep n r (Workspace.move (job.reducing r) phase s (tasks, ws) m)
      (Workspace.move job.queueing phase s (tasks, ws') m) := by
  cases m with
  | raiseFlag =>
    obtain ⟨messenger, journal, rfl, hmessenger, hjournal⟩ := h.exists_eq
    exact fun _ => ⟨rfl, rfl, rfl, rfl, rfl, rfl, hmessenger, rfl, rfl, hjournal⟩
  | work i =>
    rw [Workspace.move, Workspace.move]
    cases tasks[i]? with
    | none => exact fun _ => ⟨rfl, h⟩
    | some task =>
      intro hinside
      obtain ⟨hmoved, hnext⟩ := inStep_workOn hr hreads h task hinside
      exact ⟨congrArg (fun moved => tasks.take i ++ moved ++ tasks.drop (i + 1)) hmoved, hnext⟩

/-- Any moves take both workspaces along in the same way. -/
theorem inStep_moves (hr : r.IsLawful) (hreads : job.program.ReadsThrough r) {tasks : List Task}
    (h : ws.Mirrors n r ws') (moves : List Move) :
    InStep n r (moves.foldl (Workspace.move (job.reducing r) phase s) (tasks, ws))
      (moves.foldl (Workspace.move job.queueing phase s) (tasks, ws')) := by
  induction moves generalizing tasks ws ws' with
  | nil => exact fun _ => ⟨rfl, h⟩
  | cons m moves ih =>
    intro hinside
    -- what is assumed of all moves holds of the first one
    have hlater : Leads job.queueing phase s
      (Workspace.move job.queueing phase s (tasks, ws') m) _ := ⟨moves, rfl⟩
    have hmove := inStep_move hr hreads h m (hlater.continues.sendsInside hinside)
    rcases hfirst : Workspace.move (job.reducing r) phase s (tasks, ws) m with ⟨moved, next⟩
    rw [hfirst] at hmove
    obtain ⟨next', hfirst', hnext⟩ := hmove.exists_right
    rw [List.foldl_cons, List.foldl_cons, hfirst, hfirst']
    rw [List.foldl_cons, hfirst'] at hinside
    exact ih hnext hinside

/-- Both workspaces come out of a phase in the same way. -/
theorem inStep_runPhase (hr : r.IsLawful) (hreads : job.program.ReadsThrough r)
    (h : ws.Mirrors n r ws') (schedule : Schedule) :
    InStep n r (ws.runPhase (job.reducing r) schedule phase s)
      (ws'.runPhase job.queueing schedule phase s) := by
  have hstart : { ws with aborted := false, stats := .zero }.Mirrors n r
      { ws' with aborted := false, stats := .zero } := by
    obtain ⟨messenger, journal, rfl, hmessenger, hjournal⟩ := h.exists_eq
    exact ⟨rfl, rfl, rfl, rfl, rfl, hmessenger, rfl, rfl, hjournal⟩
  -- first the moves of the schedule, then the rest of the tasks
  have hmoves : InStep n r
      ((schedule phase s).foldl (Workspace.move (job.reducing r) phase s)
        (phaseStart (job.reducing r) ws))
      ((schedule phase s).foldl (Workspace.move job.queueing phase s)
        (phaseStart job.queueing ws')) :=
    inStep_moves hr hreads hstart (schedule phase s)
  rcases hmoved : (schedule phase s).foldl (Workspace.move (job.reducing r) phase s)
    (phaseStart (job.reducing r) ws) with ⟨tasks, next⟩
  rcases hmoved' : (schedule phase s).foldl (Workspace.move job.queueing phase s)
    (phaseStart job.queueing ws') with ⟨tasks', next'⟩
  rw [runPhase_eq hmoved, runPhase_eq hmoved']
  intro hinside
  have hlater := @continues_finishTasks _ job.queueing phase s tasks' next'
  rw [hmoved, hmoved'] at hmoves
  obtain ⟨rfl, hnext⟩ := hmoves (hlater.sendsInside hinside)
  obtain ⟨hresults, hlast⟩ := inStep_finishTasks hr hreads hnext tasks hinside
  exact ⟨congrArg StepResult.combine hresults, hlast⟩

/-! ## Supersteps -/

/-- The program's step between supersteps sees neither messages nor journal. -/
theorem Mirrors.masterCompute (h : ws.Mirrors n r ws') :
    Together (Mirrors n r) (Workspace.masterCompute (job.reducing r) s ws)
      (Workspace.masterCompute job.queueing s ws') := by
  obtain ⟨messenger, journal, rfl, hmessenger, hjournal⟩ := h.exists_eq
  exact ⟨rfl, rfl, rfl, rfl, rfl, rfl, hmessenger, rfl, rfl, hjournal⟩

/-- Both workspaces come out of a superstep in the same way. -/
theorem inStep_superstep (hr : r.IsLawful) (hreads : job.program.ReadsThrough r)
    (h : ws.Mirrors n r ws') (schedule : Schedule) :
    InStep n r (ws.superstep (job.reducing r) schedule s)
      (ws'.superstep job.queueing schedule s) := by
  have hphase := @inStep_runPhase _ n s r _ _ job .compute hr hreads
    ((h.transition (.running s)).prepare s) schedule
  rw [superstep, superstep]
  dsimp only
  generalize ((ws.transition (.running s)).prepare s).runPhase (job.reducing r) schedule .compute s
      = x, ((ws'.transition (.running s)).prepare s).runPhase job.queueing schedule .compute s
      = x' at hphase ⊢
  obtain ⟨out, ws₁⟩ := x
  rcases x' with ⟨stop | _, ws₁'⟩
  · -- the phase ends the run
    intro hinside
    obtain ⟨rfl, h₁⟩ := hphase hinside
    exact ⟨rfl, h₁⟩
  · dsimp only
    -- the program's step writes nothing, and the figures are no call
    have hlater := (continues_transition ws₁' (.masterComputing s)).trans
      (continues_masterCompute job.queueing s _)
    rcases hmaster' : Workspace.masterCompute job.queueing s
      (ws₁'.transition (.masterComputing s)) with ⟨control, ws₂'⟩
    rw [hmaster'] at hlater
    -- the phase ends well in both, and the program's step answers both alike
    have hmaster (hinside : ws₂'.journal.SendsInside n) : out = .ok () ∧ ∃ ws₂,
        Workspace.masterCompute (job.reducing r) s (ws₁.transition (.masterComputing s))
          = (control, ws₂) ∧ ws₂.Mirrors n r ws₂' := by
      obtain ⟨rfl, h₁⟩ := hphase (hlater.sendsInside hinside)
      have hmaster := @Mirrors.masterCompute _ n s r _ _ job (h₁.transition (.masterComputing s))
      rw [hmaster'] at hmaster
      exact ⟨rfl, hmaster.exists_left⟩
    cases control with
    | error stop =>
      intro hinside
      obtain ⟨rfl, ws₂, hmastered, h₂⟩ := hmaster hinside
      dsimp only
      rw [hmastered]
      exact ⟨rfl, h₂⟩
    | ok control =>
      intro hinside
      have hnoted := @continues_of_push _ ws₂'
        (ws₂'.note (.superstepFinished (ws₂'.superstepStats s))) _ rfl
      obtain ⟨rfl, ws₂, hmastered, h₂⟩ := hmaster (hnoted.sendsInside hinside)
      dsimp only
      rw [hmastered]
      exact ⟨rfl, h₂.note (by rw [h₂.superstepStats])⟩

end Workspace

end Superstep
