import Mathlib
import Superstep.Proofs.Run.Ascending

/-!
# When a hook answers with an error

Several workers of a phase may fail, others stop early, and others have not been split yet when the
first error is noticed. Whatever the interleaving, the run reports a worker that failed over a
vertex of its own range, and of those that failed the one on the left.

## Key results

- `Workspace.Course.orderly`: what a phase comes to that the flag does not end
- `Workspace.Course.reports`: what a run reports whose phase has failed
- `failure_of_phase`: both, for every phase of every run
-/

namespace Superstep

variable {α : Type}

namespace Workspace

variable {job : Job α} {schedule : Schedule} {phase : Phase} {s : Nat} {ws : Workspace α}
  {moves : List Move} {results : Results} {calls : List (Call α)}
  {steps : List Journal.FinishedStep}

/-! ## Records of workers -/

/-- If nobody was broken off, every worker has left a record. -/
theorem Logged.mem_steps_iff {ws₀ : Workspace α}
    (h : Logged phase s ws₀ calls steps (finishedTasks results) ws) {r : VertexRange} {ok : Bool} :
    (⟨phase, s, r, ok⟩ : Journal.FinishedStep) ∈ steps ↔
      ok = true ∧ (r, .completed) ∈ results ∨ ok = false ∧ ∃ e, (r, .failed e) ∈ results := by
  rw [h.recorded.mem_iff, List.mem_filterMap]
  constructor
  · rintro ⟨t, ht, hrecord⟩
    obtain ⟨⟨r', result⟩, hr, rfl⟩ := List.mem_map.mp ht
    -- who was broken off leaves no record
    cases result with
    | completed =>
      cases hrecord
      exact .inl ⟨rfl, hr⟩
    | failed e =>
      cases hrecord
      exact .inr ⟨rfl, e, hr⟩
    | violated v => cases hrecord
  · rintro (⟨rfl, hr⟩ | ⟨rfl, e, hr⟩)
    · exact ⟨_, mem_finishedTasks.mpr hr, rfl⟩
    · exact ⟨_, mem_finishedTasks.mpr hr, rfl⟩

/-- A record is of the phase and the superstep that its worker worked on. -/
theorem Logged.of_mem_steps {ws₀ : Workspace α}
    (h : Logged phase s ws₀ calls steps (finishedTasks results) ws) {step : Journal.FinishedStep}
    (hstep : step ∈ steps) : step.phase = phase ∧ step.superstep = s := by
  obtain ⟨t, ht, hrecord⟩ := List.mem_filterMap.mp (h.recorded.mem_iff.mp hstep)
  obtain ⟨⟨r, result⟩, -, rfl⟩ := List.mem_map.mp ht
  cases result <;> cases hrecord <;> exact ⟨rfl, rfl⟩

/-- The workers that left a record have every vertex between them. -/
theorem Logged.perm_of_whole {ws₀ : Workspace α}
    (h : Logged phase s ws₀ calls steps (finishedTasks results) ws)
    (hlaid : Laid job (finishedTasks results) ws)
    (hwhole : ∀ r v, (r, .violated v) ∉ results) :
    (steps.flatMap (·.vertices.toList)).Perm (List.range job.graph.nodeCount) := by
  -- the ranges of the workers lie one after the other and cover all vertices
  refine (h.recorded.flatMap_right _).trans (List.Perm.of_eq ?_)
  rw [← hlaid.tiled, finishedTasks, List.filterMap_map, List.flatMap_map]
  clear h hlaid
  induction results with
  | nil => rfl
  | cons x results ih =>
    have hrest := ih fun r v hmem => hwhole r v (List.mem_cons_of_mem _ hmem)
    obtain ⟨r, result⟩ := x
    cases result with
    | violated v => exact absurd List.mem_cons_self (hwhole r v)
    | _ => simpa [Task.record?, Task.range] using hrest

/-! ## A phase that is not broken off -/

/-- What a phase comes to in which nobody is broken off or sees the flag raised, with its moves, its
calls and the records of its workers. -/
structure Orderly (job : Job α) (schedule : Schedule) (phase : Phase) (s : Nat) (ws : Workspace α)
    (moves : List Move) (calls : List (Call α)) (steps : List Journal.FinishedStep) : Prop where
  /-- The moves are those of the schedule and others that finish every task. -/
  course : schedule phase s <+: moves ∧ ∃ results,
    moves.foldl (move job phase s) (phaseStart job ws)
      = (finishedTasks results, (ws.runPhase job schedule phase s).2)
  callsEq : (ws.runPhase job schedule phase s).2.journal.calls phase
    = ws.journal.calls phase ++ calls
  stepsEq : (ws.runPhase job schedule phase s).2.journal.finishedSteps
    = ws.journal.finishedSteps ++ steps
  /-- Every vertex belongs to one worker. -/
  tiled : (steps.flatMap (·.vertices.toList)).Perm (List.range job.graph.nodeCount)
  /-- A worker fails exactly if a call of one of its vertices answers with an error. -/
  failed_iff : ∀ step ∈ steps, step.ok = false ↔
    ∃ c ∈ calls, c.error? ≠ none ∧ c.vertex ∈ step.vertices.toList
  /-- If no call does, every vertex is visited once and the phase succeeds. -/
  succeeds : (∀ c ∈ calls, c.error? = none) → (ws.runPhase job schedule phase s).1 = .ok () ∧
    (visits job phase s (phaseStart job ws) moves).Perm (List.range job.graph.nodeCount)

/-- A worker that failed while the flag was down failed over a call. -/
theorem Course.call_of_failed (h : Course job schedule phase s ws moves results calls steps)
    (hflag : (ws.runPhase job schedule phase s).2.flag.raised = false) {r : VertexRange}
    {e : RunError} (hmem : (r, .failed e) ∈ results) :
    ∃ source, e = .computation phase s r source ∧
      ∃ c ∈ calls, c.error? = some source ∧ c.vertex ∈ r.toList := by
  -- the other reason to fail is a flag that was seen raised
  obtain ⟨-, ⟨-, hraised⟩ | hcall⟩ := h.logged.failed r e (mem_finishedTasks.mpr hmem)
  · rw [hflag] at hraised
    cases hraised
  · exact hcall

/-- The worker of a vertex whose call answered with an error has failed. -/
theorem Course.failed_of_call (h : Course job schedule phase s ws moves results calls steps)
    (hwhole : ∀ r v, (r, .violated v) ∉ results) {c : Call α} (hc : c ∈ calls)
    (herror : c.error? ≠ none) : ∃ r e, (r, .failed e) ∈ results ∧ c.vertex ∈ r.toList := by
  obtain ⟨source, hsource⟩ := Option.ne_none_iff_exists'.mp herror
  obtain ⟨r, hr, hfailed | ⟨v, hv⟩⟩ := h.logged.erring c hc source hsource
  · exact ⟨r, _, mem_finishedTasks.mp hfailed, hr⟩
  · exact absurd (mem_finishedTasks.mp hv) (hwhole r v)

/-- In a phase that is not broken off no worker was. -/
theorem Course.whole (h : Course job schedule phase s ws moves results calls steps)
    (hviolation : ∀ v, (ws.runPhase job schedule phase s).1 ≠ .error (.violation v)) :
    ∀ r v, (r, .violated v) ∉ results := by
  intro r v hmem
  have hconcludes := h.concludes
  generalize (ws.runPhase job schedule phase s).1 = out at hconcludes hviolation
  cases hconcludes with
  | brokenOff _ => exact hviolation _ rfl
  | failed hwhole _ _ => exact hwhole r v hmem
  | succeeded hall => cases hall _ hmem

/-- A phase that is not broken off, and that the flag does not end, is an orderly one. -/
theorem Course.orderly (h : Course job schedule phase s ws moves results calls steps)
    (hflag : (ws.runPhase job schedule phase s).2.flag.raised = false)
    (hviolation : ∀ v, (ws.runPhase job schedule phase s).1 ≠ .error (.violation v)) :
    Orderly job schedule phase s ws moves calls steps := by
  have hwhole := h.whole hviolation
  refine ⟨⟨h.scheduled, results, h.finished⟩, h.logged.callsEq, h.logged.stepsEq,
    h.logged.perm_of_whole h.laid hwhole, ?_, ?_⟩
  · rintro ⟨phase', s', r, ok⟩ hstep
    obtain ⟨rfl, rfl⟩ := h.logged.of_mem_steps hstep
    constructor
    · rintro rfl
      obtain ⟨hok, -⟩ | ⟨-, e, hr⟩ := h.logged.mem_steps_iff.mp hstep
      · cases hok
      · obtain ⟨source, -, c, hc, hsource, hvertex⟩ := h.call_of_failed hflag hr
        exact ⟨c, hc, by rw [hsource]; simp, hvertex⟩
    · rintro ⟨c, hc, herror, hvertex⟩
      obtain ⟨r', e, hr', hvertex'⟩ := h.failed_of_call hwhole hc herror
      obtain ⟨rfl, hr⟩ | ⟨rfl, -⟩ := h.logged.mem_steps_iff.mp hstep
      · -- the vertex belongs to one worker only, and that one has failed
        have heq := h.laid.eq_of_mem (mem_finishedTasks.mpr hr) (mem_finishedTasks.mpr hr') hvertex
          hvertex'
        cases heq
      · rfl
  · intro hnone
    -- without an erring call no worker has a reason to fail
    have hcompleted : ∀ x ∈ results, x.2 = .completed := by
      rintro ⟨r, result⟩ hr
      cases result with
      | completed => rfl
      | failed e =>
        obtain ⟨source, -, c, hc, hsource, -⟩ := h.call_of_failed hflag hr
        cases (hnone c hc).symm.trans hsource
      | violated v => exact absurd hr (hwhole r v)
    refine ⟨?_, h.perm_visits hcompleted⟩
    have hconcludes := h.concludes
    generalize (ws.runPhase job schedule phase s).1 = out at hconcludes
    cases hconcludes with
    | brokenOff hr => cases hcompleted _ hr
    | failed _ hr _ => cases hcompleted _ hr
    | succeeded _ => rfl

end Workspace

/-! ## A run whose phase has failed -/

/-- The run ends with the phase and reports the call `c`, whose worker had the range `vertices`. -/
structure Reports [Scalar α] (r : Run α) (schedule : Schedule) (phase : Phase) (s : Nat)
    (steps : List Journal.FinishedStep) (c : Call α) (vertices : VertexRange) (source : String) :
    Prop where
  outcome : (r.execute schedule).1 = .error (.error (.computation phase s vertices source))
  error? : c.error? = some source
  vertex : c.vertex ∈ vertices.toList
  handedOut : vertices ∈ r.job.computer.handedOut r.job.graph.nodeCount
  failed : ⟨phase, s, vertices, false⟩ ∈ steps
  /-- Of the workers that failed this is the first. -/
  least : ∀ step ∈ steps, step.ok = false → vertices.start ≤ step.vertices.start
  /-- The superstep is not finished, and no later one starts. -/
  milestones : ∃ (counts : Nat → Nat) (calls : Nat), (r.execute schedule).2.journal.milestones
    = ((List.range s).flatMap fun i => Milestone.course (counts i) i)
      ++ Milestone.brokenOff phase calls s
  state : (r.execute schedule).2.state = .failed
  superstep : c.superstep = s
  phase : c.phase = phase

/-- A run whose phase has failed reports the leftmost worker that failed. -/
theorem Workspace.Course.reports [Scalar α] {graph : Graph α} {config : Config}
    {program : Program α} {flag : Flag} {r : Run α} {schema : Schema α} {schedule : Schedule}
    {phase : Phase} {s : Nat} {ws : Workspace α} {moves : List Move} {results : Results}
    {calls : List (Call α)} {steps : List Journal.FinishedStep}
    (h : Workspace.Course r.job schedule phase s ws moves results calls steps)
    (hcreate : Run.create graph config program flag = .ok r)
    (hschema : program.schema config = .ok schema)
    (henters : Workspace.Enters r.job schedule (r.opening schema) phase s ws)
    (hflag : (ws.runPhase r.job schedule phase s).2.flag.raised = false)
    (hviolation : ∀ v, (ws.runPhase r.job schedule phase s).1 ≠ .error (.violation v))
    (herror : ∃ c ∈ calls, c.error? ≠ none) :
    ∃ c ∈ calls, ∃ vertices source, Reports r schedule phase s steps c vertices source := by
  obtain ⟨c, hc, herror⟩ := herror
  obtain ⟨_, _, hfailed, -⟩ := h.failed_of_call (h.whole hviolation) hc herror
  have hconcludes := h.concludes
  generalize hout : (ws.runPhase r.job schedule phase s).1 = out at hconcludes
  -- some worker failed, so the phase ends with the first that did
  cases hconcludes with
  | brokenOff _ => exact absurd hout (hviolation _)
  | succeeded hall => cases hall _ hfailed
  | @failed vertices e hwhole hmem hleast =>
    obtain ⟨source, rfl, c, hc, hsource, hvertex⟩ := h.call_of_failed hflag hmem
    obtain ⟨houtcome, hstate, hmilestones⟩ := Run.execute_of_failed hcreate hschema henters hout
    refine ⟨c, hc, vertices, source, {
      outcome := houtcome
      error? := hsource
      vertex := hvertex
      handedOut := (h.laid.of_failed (mem_finishedTasks.mpr hmem) (by simp)).1
      failed := h.logged.mem_steps_iff.mpr (.inr ⟨rfl, _, hmem⟩)
      least := ?_
      milestones := hmilestones
      state := hstate
      superstep := h.logged.superstep henters.eq_zero c hc
      phase := ?_ }⟩
    · rintro ⟨phase', s', r', ok⟩ hstep rfl
      obtain ⟨rfl, rfl⟩ := h.logged.of_mem_steps hstep
      obtain ⟨hok, -⟩ | ⟨-, e', hr'⟩ := h.logged.mem_steps_iff.mp hstep
      · cases hok
      · exact hleast r' e' hr'
    · refine Journal.phase_of_mem_calls
        (j := (ws.runPhase r.job schedule phase s).2.journal) ?_
      rw [h.logged.callsEq]
      exact List.mem_append_right _ hc

/-! ## Working through a phase in ascending order -/

/-- The calls are those of the vertices below `k` whose turn it is, in ascending order. If one of
them answers with an error it is the last. -/
structure AscendsTo (job : Job α) (phase : Phase) (ws : Workspace α) (calls : List (Call α))
    (k : Nat) : Prop where
  le_nodeCount : k ≤ job.graph.nodeCount
  sorted : (calls.map (·.vertex)).Pairwise (· < ·)
  mem_iff : ∀ v, v ∈ calls.map (·.vertex) ↔ v < k ∧ job.callsInTurn phase ws calls v = true
  last : k = job.graph.nodeCount ∧ (∀ c ∈ calls, c.error? = none) ∨
    ∃ before c, calls = before ++ [c] ∧ c.vertex + 1 = k ∧ c.error? ≠ none ∧
      ∀ b ∈ before, b.error? = none

/-- Without moves of a schedule the calls ascend, up to the first that answers with an error. -/
theorem Workspace.Orderly.ascendsTo {job : Job α} {schedule : Schedule} {phase : Phase} {s : Nat}
    {ws₀ ws : Workspace α} {moves : List Move} {calls : List (Call α)}
    {steps : List Journal.FinishedStep}
    (h : Workspace.Orderly job schedule phase s ws moves calls steps)
    (henters : Workspace.Enters job schedule ws₀ phase s ws) (h₀ : ws₀.Serves job)
    (hready : ws₀.messenger.ReadyFor 0) (hschedule : schedule phase s = [])
    (hflag : (ws.runPhase job schedule phase s).2.flag.raised = false)
    (hviolation : ∀ v, (ws.runPhase job schedule phase s).1 ≠ .error (.violation v)) :
    ∃ k, AscendsTo job phase ws calls k := by
  obtain ⟨hserves, hasleep⟩ := henters.serves h₀ hready
  obtain ⟨k, hk, hsweeps, hall⟩ := Workspace.sweeps_runPhase hschedule ws hviolation
  obtain ⟨calls', hturn, hnone, hlast⟩ := hsweeps.calls (hserves.congr rfl rfl rfl) rfl hasleep
    (fun v hv => (List.mem_range.mp hv).trans_le hk) List.pairwise_lt_range
  -- both are the calls that the journal has of the phase
  obtain rfl : calls' = calls := List.append_cancel_left (hturn.callsEq.symm.trans h.callsEq)
  refine ⟨k, hk, List.pairwise_lt_range.sublist hturn.sublist, fun v => ?_, ?_⟩
  · constructor
    · intro hv
      have hbelow := hturn.sublist.subset hv
      exact ⟨List.mem_range.mp hbelow, (hturn.mem_iff v hbelow).mp hv⟩
    · rintro ⟨hbelow, hv⟩
      exact (hturn.mem_iff v (List.mem_range.mpr hbelow)).mpr hv
  · -- a phase that nobody aborted went through, and otherwise the last call answered with an error
    cases haborted : (ws.runPhase job schedule phase s).2.aborted with
    | false => exact .inl ⟨hall haborted, hnone haborted⟩
    | true =>
      obtain ⟨before, c, hsplit, hvertex, herror, hbefore⟩ := hlast haborted hflag
      refine .inr ⟨before, c, hsplit, ?_, herror, hbefore⟩
      cases k with
      | zero => cases hvertex
      | succ k =>
        rw [List.range_succ, List.getLast?_concat] at hvertex
        rw [Option.some.inj hvertex]

/-- Every phase of every run that no hook breaks off and that nobody stops, whatever the schedule.
If no call answers with an error, every vertex is visited once. Otherwise the run ends with the
phase and reports a call that did, and no worker visits a vertex after an error but the one that it
is on. Without moves of a schedule the calls ascend up to the first that answers with an error. -/
theorem failure_of_phase [Scalar α] {graph : Graph α} {config : Config} {program : Program α}
    {flag : Flag} {r : Run α} (hcreate : Run.create graph config program flag = .ok r)
    {schema : Schema α} (hschema : program.schema config = .ok schema) {schedule : Schedule}
    {phase : Phase} {s : Nat} {ws : Workspace α}
    (henters : Workspace.Enters r.job schedule (r.opening schema) phase s ws)
    (hflag : (ws.runPhase r.job schedule phase s).2.flag.raised = false)
    (hviolation : ∀ v, (ws.runPhase r.job schedule phase s).1 ≠ .error (.violation v)) :
    ∃ moves calls steps, Workspace.Orderly r.job schedule phase s ws moves calls steps ∧
      ((∃ c ∈ calls, c.error? ≠ none) →
        ∃ c ∈ calls, ∃ vertices source, Reports r schedule phase s steps c vertices source) ∧
      (∀ before later : List Move,
        let now := before.foldl (Workspace.move r.job phase s) (Workspace.phaseStart r.job ws)
        (∃ vertices e, .finished vertices (.failed e) ∈ now.1) →
          (Workspace.visits r.job phase s now later).Subperm (now.1.filterMap Task.visits?)) ∧
      (schedule phase s = [] → ∃ k, AscendsTo r.job phase ws calls k) := by
  obtain ⟨moves, results, calls, steps, hcourse⟩ :=
    @Workspace.exists_course _ r.job phase s schedule ws
  have horderly := hcourse.orderly hflag hviolation
  obtain ⟨hopening, hready⟩ := r.serves_opening schema
  refine ⟨moves, calls, steps, horderly, ?_, ?_, ?_⟩
  · exact hcourse.reports hcreate hschema henters hflag hviolation
  · rintro before later now ⟨vertices, e, hfailed⟩
    -- whoever fails sets the abort mark
    obtain ⟨_, _, hlogged⟩ := @Workspace.logged_moves _ r.job phase s ws before
    exact Workspace.visits_of_aborted (hlogged.failed vertices e hfailed).1 later
  · intro hschedule
    exact horderly.ascendsTo henters hopening hready hschedule hflag hviolation

namespace Relay

/-- The relay in which vertex 1 refuses to take part. -/
def refusing : Program Float :=
  { program none with
    compute := fun view =>
      if view.vertex = 1 then ⟨view.row, [], .error (.error "refused")⟩
      else (program none).compute view }

def refusingRun : Run Float :=
  { run none false false with job := { (run none false false).job with program := refusing } }

theorem create_refusingRun :
    Run.create (.complete 2) (config false false) refusing .fresh = .ok refusingRun := rfl

end Relay

/-- The worker of vertex 1 is on its vertex when that of vertex 0 goes over its own. The run reports
the call of vertex 1. -/
theorem failure_of_phase_relay :
    ∃ ws : Workspace Float,
      (ws.runPhase Relay.refusingRun.job Relay.takingTurns .compute 0).1
        = .error (.error (.computation .compute 0 ⟨1, 2⟩ "refused")) ∧
      ∃ moves calls steps,
        Workspace.Orderly Relay.refusingRun.job Relay.takingTurns .compute 0 ws moves calls steps ∧
        ∃ c ∈ calls,
          Reports Relay.refusingRun Relay.takingTurns .compute 0 steps c ⟨1, 2⟩ "refused" := by
  have hinit : ((Relay.refusingRun.opening .empty).runPhase Relay.refusingRun.job
      Relay.takingTurns .init 0).1 = .ok () := by decide +kernel
  have hstands : Workspace.StandsAt Relay.refusingRun.job Relay.takingTurns
      (Relay.refusingRun.opening .empty) 0 ((Relay.refusingRun.opening .empty).runPhase
        Relay.refusingRun.job Relay.takingTurns .init 0).2 := .first rfl (Prod.ext hinit rfl)
  have henters := Workspace.Enters.compute hstands (by decide) (by decide +kernel)
  have hfailed : (((((Relay.refusingRun.opening .empty).runPhase Relay.refusingRun.job
      Relay.takingTurns .init 0).2.transition (.running 0)).prepare 0).runPhase
        Relay.refusingRun.job Relay.takingTurns .compute 0).1
      = .error (.error (.computation .compute 0 ⟨1, 2⟩ "refused")) := by decide +kernel
  obtain ⟨moves, calls, steps, horderly, hreports, -⟩ := failure_of_phase Relay.create_refusingRun
    (by rfl) henters (by decide +kernel) (fun v hv => by rw [hfailed] at hv; cases hv)
  -- if no call had answered with an error, the phase would have succeeded
  have hrefused : ∃ c ∈ calls, c.error? ≠ none := by
    by_contra hnone
    have hsucceeds := (horderly.succeeds fun c hc => by_contra fun h => hnone ⟨c, hc, h⟩).1
    rw [hfailed] at hsucceeds
    cases hsucceeds
  obtain ⟨c, hc, vertices, source, hreport⟩ := hreports hrefused
  -- the call that is reported is the one that the phase has failed over
  obtain ⟨houtcome, -⟩ := Run.execute_of_failed Relay.create_refusingRun (by rfl) henters hfailed
  obtain ⟨rfl, rfl⟩ : vertices = ⟨1, 2⟩ ∧ source = "refused" := by
    have hsame := hreport.outcome.symm.trans houtcome
    simpa using hsame
  exact ⟨_, hfailed, moves, calls, steps, horderly, c, hc, hreport⟩

end Superstep
