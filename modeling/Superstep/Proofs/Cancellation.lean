import Mathlib
import Superstep.Proofs.Run.Course

/-!
# When the flag is raised

The flag is looked at before vertices are set up, at every boundary, and by every worker at every
position that is a multiple of `pollInterval`. So wherever in a run it goes up, no superstep is
started any more, and every worker visits what lies before its next look at most. A phase in which a
worker saw the flag raised ends with an error, and a run that ends well had its flag down when its
last superstep was started.

## Key results

- `Workspace.visits_of_raised`: what is still visited once the flag is raised
- `Workspace.Course.cancelled`: how a run ends in which a worker saw the flag raised
- `cancellation_of_run`: where a run stops, wherever its flag is raised
-/

namespace Superstep

variable {α : Type}

/-- The vertices of a range from a position on, up to the next position at which its worker looks at
the flag. -/
def VertexRange.unpolled (r : VertexRange) (position : Nat) : List Nat :=
  ((List.range' position (r.length - position)).takeWhile
    fun p => decide (p % pollInterval ≠ 0)).map (r.start + ·)

/-- The vertices that a task may visit before its worker looks at the flag. A worker that is on a
vertex has looked already. -/
def Task.unpolled : Task → List Nat
  | .running r position => r.unpolled position
  | .visiting r position _ => (r.start + position) :: r.unpolled (position + 1)
  | .waiting _ | .finished _ _ => []

/-- Where a worker looks at the flag nothing is left to be visited before it looks. -/
theorem VertexRange.unpolled_of_poll {r : VertexRange} {position : Nat}
    (h : position % pollInterval = 0) : r.unpolled position = [] := by
  rw [unpolled]
  cases r.length - position with
  | zero => rfl
  | succ count => rw [List.range'_succ, List.takeWhile_cons_of_neg (by simp [h]), List.map_nil]

/-- Where it does not look it visits one vertex and goes on to the next position. -/
theorem VertexRange.unpolled_of_not_poll {r : VertexRange} {position : Nat}
    (hlt : position < r.length) (h : position % pollInterval ≠ 0) :
    r.unpolled position = (r.start + position) :: r.unpolled (position + 1) := by
  have hcount : r.length - position = (r.length - (position + 1)) + 1 := by omega
  rw [unpolled, hcount, List.range'_succ, List.takeWhile_cons_of_pos (by simp [h]), List.map_cons,
    unpolled]

namespace Workspace

variable {job : Job α} {schedule : Schedule} {phase : Phase} {s : Nat}

/-! ## Inside a phase -/

/-- Once the flag is raised, every worker visits what lies before its next look at most, and a
worker that starts visits nothing. -/
theorem visits_of_raised {x : List Task × Workspace α} (h : x.2.flag.raised = true)
    (moves : List Move) :
    (visits job phase s x moves).Subperm (x.1.flatMap Task.unpolled) := by
  refine visits_subperm (Q := fun ws => ws.flag.raised = true) (fun _ _ => rfl) ?_ h moves
  intro task ws moved ws' hraised hstep
  refine ⟨(taskStep_mono hstep).2 hraised, ?_⟩
  -- what a step visits, and what may follow it, was among what the task could visit before
  cases hstep with
  | @start r _ h =>
    have hnothing : r.unpolled 0 = [] := VertexRange.unpolled_of_poll (Nat.zero_mod _)
    simp [Task.visits?, Task.unpolled, hnothing]
  | enter h haborted hpoll =>
    -- it did not look at the flag, so it was not due to
    have hnot : ¬_ % pollInterval = 0 := fun hzero => hpoll ⟨hzero, hraised⟩
    rw [Task.unpolled, VertexRange.unpolled_of_not_poll h hnot]
    simpa [Task.visits?, Task.unpolled] using List.Subperm.refl _
  | visit h hvisit => simpa [Task.visits?, Task.unpolled] using List.Subperm.refl _
  | _ => simp [Task.visits?, Task.unpolled]

/-! ## After a phase -/

/-- The run ends with a phase that has these results, and at least one of its workers saw the flag
raised: with the violation that broke a worker off, or as the first worker that failed. -/
inductive CancelledBy (phase : Phase) (s : Nat) (results : Results) : Stop → Prop
  | brokenOff {vertices v} (h : (vertices, .violated v) ∈ results) :
    CancelledBy phase s results (.violation v)
  | terminated {observer} (hwhole : ∀ vertices v, (vertices, .violated v) ∉ results)
      (h : (observer, .failed (.terminated s)) ∈ results)
      (hleast : ∀ vertices e, (vertices, .failed e) ∈ results → observer.start ≤ vertices.start) :
    CancelledBy phase s results (.error (.terminated s))
  /-- The program failed in a worker that starts before all that saw the flag. -/
  | failed {vertices source} (hwhole : ∀ vertices v, (vertices, .violated v) ∉ results)
      (h : (vertices, .failed (.computation phase s vertices source)) ∈ results)
      (hleast : ∀ vertices' e, (vertices', .failed e) ∈ results →
        vertices.start ≤ vertices'.start)
      (hleft : ∀ observer, (observer, .failed (.terminated s)) ∈ results →
        vertices.start < observer.start) :
    CancelledBy phase s results (.error (.computation phase s vertices source))

/-- A phase in which a worker saw the flag raised ends with an error of a kind that says so. -/
theorem Course.cancelled {ws : Workspace α} {moves : List Move} {results : Results}
    {calls : List (Call α)} {steps : List Journal.FinishedStep}
    (h : Course job schedule phase s ws moves results calls steps) {vertices : VertexRange}
    {s' : Nat} (hobserved : (vertices, .failed (.terminated s')) ∈ results) :
    ∃ stop, (ws.runPhase job schedule phase s).1 = .error stop ∧
      CancelledBy phase s results stop := by
  have hconcludes := h.concludes
  generalize (ws.runPhase job schedule phase s).1 = out at hconcludes
  -- the first worker that failed saw the flag raised, or the program failed in it
  cases hconcludes with
  | succeeded hall => cases hall _ hobserved
  | brokenOff hmem => exact ⟨_, rfl, .brokenOff hmem⟩
  | @failed first e hwhole hmem hleast =>
    refine ⟨_, rfl, ?_⟩
    obtain ⟨-, ⟨rfl, -⟩ | ⟨source, rfl, -⟩⟩ := h.logged.failed first e (mem_finishedTasks.mpr hmem)
    · exact .terminated hwhole hmem hleast
    · refine .failed hwhole hmem hleast fun observer hobserver => ?_
      refine Nat.lt_of_le_of_ne (hleast _ _ hobserver) fun hstart => ?_
      -- two workers with the same first vertex are the same
      obtain ⟨-, hfirst⟩ := h.laid.of_failed (mem_finishedTasks.mpr hmem) (by simp)
      obtain ⟨-, hnext⟩ := h.laid.of_failed (mem_finishedTasks.mpr hobserver) (by simp)
      have hshared : first.start ∈ observer.toList := by
        rw [hstart]
        exact VertexRange.mem_toList hnext
      cases h.laid.eq_of_mem (mem_finishedTasks.mpr hmem) (mem_finishedTasks.mpr hobserver)
        (VertexRange.mem_toList hfirst) hshared

/-! ## At a boundary -/

/-- A run ends at the boundary at which it finds its flag raised. -/
theorem StandsAt.iterate_of_raised {ws₀ ws : Workspace α} (h : StandsAt job schedule ws₀ s ws)
    (hs : s < job.config.maxIterations) (hflag : ws.flag.raised = true) :
    ws₀.iterate job schedule = (.error (.error (.terminated s)), ws) := by
  have hleft : job.config.maxIterations - s = job.config.maxIterations - (s + 1) + 1 := by omega
  rw [h.iterate_eq, hleft, supersteps, hflag, if_pos rfl]

/-- A run with a result had its flag down when its last superstep was started. -/
theorem RunEnds.started_last {ws₀ ws : Workspace α} {ending : Ending}
    (h : RunEnds job schedule ws₀ (.ok ending) ws) (hcap : 0 < job.config.maxIterations) :
    ∃ before, StandsAt job schedule ws₀
      (min ending.ranIterations (job.config.maxIterations - 1)) before ∧
        before.flag.raised = false := by
  rcases h.of_ok with ⟨-, control, last, ⟨before, hstands, hs, hflag, -⟩, -⟩ |
    ⟨rfl, last, hcapped, -⟩
  · refine ⟨before, ?_, hflag⟩
    rwa [Nat.min_eq_left (by omega)]
  · obtain ⟨after, before, hstands, hs, hflag, -⟩ :=
      hcapped.computes_of_lt (job.config.maxIterations - 1) (by omega)
    refine ⟨before, ?_, hflag⟩
    rwa [Nat.min_eq_right (by dsimp only; omega)]

end Workspace

/-- A call that computes is a milestone. -/
theorem Journal.called_mem_milestones {j : Journal α} {c : Call α} (h : c ∈ j.calls .compute) :
    .called c.superstep ∈ j.milestones := by
  have hphase := phase_of_mem_calls h
  rw [calls_eq_filterMap] at h
  obtain ⟨e, he, hcall⟩ := List.mem_filterMap.mp h
  refine List.mem_filterMap.mpr ⟨e, he, ?_⟩
  -- of all events only a call of this phase is a call
  cases e with
  | call c' =>
    rw [Event.call?] at hcall
    split at hcall
    · obtain rfl := Option.some.inj hcall
      rw [Event.milestone?, if_pos hphase]
    · cases hcall
  | _ => cases hcall

/-- A superstep that took its course has the calls of no other superstep in it. -/
theorem Milestone.eq_of_called_mem_course {calls s s' : Nat} (h : .called s' ∈ course calls s) :
    s' = s := by
  have hnone := h
  simp only [course, List.mem_cons, List.mem_append, List.mem_replicate] at hnone
  rcases hnone with heq | ⟨-, heq⟩ | heq | heq | hnil
  · cases heq
  · cases heq
    rfl
  · cases heq
  · cases heq
  · cases hnil

section Runs

variable [Scalar α] {graph : Graph α} {config : Config} {program : Program α} {flag : Flag}
  {r : Run α} {schedule : Schedule}

/-- Nothing is called in a run that finds its flag raised at the start. -/
theorem Run.execute_of_raised (hcreate : Run.create graph config program flag = .ok r)
    {schema : Schema α} (hschema : program.schema config = .ok schema)
    (hflag : flag.raised = true) :
    (r.execute schedule).1 = .error (.error (.terminated 0)) ∧
      ∀ phase, (r.execute schedule).2.journal.calls phase = [] := by
  -- preparing the run leaves the flag as it was handed over
  have hraised : (r.opening schema).flag.raised = true := by
    obtain ⟨computer, rfl⟩ := Run.of_create hcreate
    exact hflag
  have hiterate : (r.opening schema).iterate r.job schedule
      = (.error (.error (.terminated 0)), r.opening schema) := by
    rw [Workspace.iterate, hraised, if_pos rfl]
  obtain ⟨houtcome, -, hcalls, -⟩ := Run.execute_of_schema hcreate hschema schedule
  rw [hiterate] at houtcome hcalls
  exact ⟨houtcome, fun phase => (hcalls phase).trans ((Run.journal_opening hcreate schema).1 phase)⟩

/-- A run that finds its flag raised at the boundary before superstep `s` has computed the
supersteps below, and calls nothing any more. -/
theorem Run.execute_of_raised_at (hcreate : Run.create graph config program flag = .ok r)
    {schema : Schema α} (hschema : program.schema config = .ok schema) {s : Nat} {ws : Workspace α}
    (hstands : Workspace.StandsAt r.job schedule (r.opening schema) s ws)
    (hs : s < r.job.config.maxIterations) (hflag : ws.flag.raised = true) :
    (r.execute schedule).1 = .error (.error (.terminated s)) ∧
      (∃ calls : Nat → Nat, (r.execute schedule).2.journal.milestones
        = (List.range s).flatMap fun i => Milestone.course (calls i) i) ∧
      ∀ c ∈ (r.execute schedule).2.journal.calls .compute, c.superstep < s := by
  have hiterate := hstands.iterate_of_raised hs hflag
  obtain ⟨houtcome, -⟩ := Run.execute_of_schema hcreate hschema schedule
  obtain ⟨hmilestones, -⟩ := Run.milestones_execute hcreate hschema schedule
  obtain ⟨calls, hcalls⟩ := hstands.milestones
  rw [Run.milestones_opening hcreate schema, List.nil_append] at hcalls
  rw [hiterate] at houtcome hmilestones
  dsimp only at hmilestones
  rw [hcalls] at hmilestones
  -- a call is among the milestones, and these are of the supersteps below
  refine ⟨houtcome, ⟨calls, hmilestones⟩, fun c hc => ?_⟩
  have hcalled := Journal.called_mem_milestones hc
  rw [hmilestones] at hcalled
  obtain ⟨i, hi, hcourse⟩ := List.mem_flatMap.mp hcalled
  rw [Milestone.eq_of_called_mem_course hcourse]
  exact List.mem_range.mp hi

/-- Where every run stops, wherever its flag is raised. -/
theorem cancellation_of_run (hcreate : Run.create graph config program flag = .ok r)
    (schedule : Schedule) :
    (∀ schema, program.schema config = .ok schema →
      (flag.raised = true → (r.execute schedule).1 = .error (.error (.terminated 0)) ∧
        ∀ phase, (r.execute schedule).2.journal.calls phase = []) ∧
      (∀ s ws, Workspace.StandsAt r.job schedule (r.opening schema) s ws →
        s < config.maxIterations → ws.flag.raised = true →
        (r.execute schedule).1 = .error (.error (.terminated s)) ∧
          (∃ calls : Nat → Nat, (r.execute schedule).2.journal.milestones
            = (List.range s).flatMap fun i => Milestone.course (calls i) i) ∧
          ∀ c ∈ (r.execute schedule).2.journal.calls .compute, c.superstep < s) ∧
      (∀ phase s ws, Workspace.Enters r.job schedule (r.opening schema) phase s ws →
        (∀ before later : List Move,
          let now := before.foldl (Workspace.move r.job phase s) (Workspace.phaseStart r.job ws)
          now.2.flag.raised = true →
            (Workspace.visits r.job phase s now later).Subperm (now.1.flatMap Task.unpolled)) ∧
        ∃ moves results, schedule phase s <+: moves ∧
          moves.foldl (Workspace.move r.job phase s) (Workspace.phaseStart r.job ws)
            = (Workspace.finishedTasks results, (ws.runPhase r.job schedule phase s).2) ∧
          ((∃ vertices s', (vertices, .failed (.terminated s')) ∈ results) →
            ∃ stop, Workspace.CancelledBy phase s results stop ∧
              (r.execute schedule).1 = .error stop ∧
              ∃ (counts : Nat → Nat) (calls : Nat), (r.execute schedule).2.journal.milestones
                = ((List.range s).flatMap fun i => Milestone.course (counts i) i)
                  ++ Milestone.brokenOff phase calls s)) ∧
      ∀ result, (r.execute schedule).1 = .ok result →
        ∃ ws, Workspace.StandsAt r.job schedule (r.opening schema)
          (min result.ranIterations (config.maxIterations - 1)) ws ∧ ws.flag.raised = false) ∧
    ∀ s, (r.execute schedule).1 = .error (.error (.terminated s)) →
      (r.execute schedule).2.flag.raised = true := by
  obtain ⟨-, -, hconfig⟩ := Run.job_of_create hcreate
  -- raised at the start, at a boundary, inside a phase, or not before the last superstep
  refine ⟨fun schema hschema => ⟨?_, ?_, ?_, ?_⟩, ?_⟩
  · exact Run.execute_of_raised hcreate hschema
  · intro s ws hstands hs hflag
    exact Run.execute_of_raised_at hcreate hschema hstands (hconfig ▸ hs) hflag
  · intro phase s ws henters
    refine ⟨?_, ?_⟩
    · intro before later now hraised
      exact Workspace.visits_of_raised hraised later
    obtain ⟨moves, results, calls, steps, hcourse⟩ :=
      @Workspace.exists_course _ r.job phase s schedule ws
    refine ⟨moves, results, hcourse.scheduled, hcourse.finished, ?_⟩
    rintro ⟨vertices, s', hobserved⟩
    obtain ⟨stop, hstop, hcancelled⟩ := hcourse.cancelled hobserved
    obtain ⟨houtcome, -, hmilestones⟩ := Run.execute_of_failed hcreate hschema henters hstop
    exact ⟨stop, hcancelled, houtcome, hmilestones⟩
  · intro result hresult
    obtain ⟨houtcome, -⟩ := Run.execute_of_schema hcreate hschema schedule
    have hends := Workspace.runEnds_iterate r.job schedule (r.opening schema)
    rw [hresult] at houtcome
    generalize (r.opening schema).iterate r.job schedule = ended at houtcome hends
    -- only a run with an ending has a result
    obtain ⟨stop | ending, last⟩ := ended
    · cases houtcome
    · obtain rfl := Except.ok.inj houtcome
      rw [← hconfig]
      exact hends.started_last (hconfig ▸ Run.maxIterations_pos_of_create hcreate)
  · intro s hterminated
    cases hschema : program.schema config with
    | error v =>
      rw [(Run.execute_of_schema_error hcreate hschema schedule).1] at hterminated
      cases hterminated
    | ok schema =>
      obtain ⟨houtcome, hlast, -⟩ := Run.execute_of_schema hcreate hschema schedule
      have hends := Workspace.runEnds_iterate r.job schedule (r.opening schema)
      rw [hlast]
      rw [hterminated] at houtcome
      generalize (r.opening schema).iterate r.job schedule = ended at houtcome hends ⊢
      obtain ⟨stop | ending, last⟩ := ended
      · cases houtcome
        exact hends.raised_of_terminated
      · cases houtcome

end Runs

private theorem eq_error_of_map_eq {ε β γ : Type} {x : Except ε β} {f : β → γ} {e : ε}
    (h : x.map f = .error e) : x = .error e := by
  cases x with
  | error e' => exact congrArg Except.error (Except.error.inj h)
  | ok b => cases h

namespace Relay

/-- The relay in which every vertex asks the run to stop, and then answers with this. -/
def stopping (outcome : Except Fault Unit) : Program Float :=
  { program none with compute := fun view => ⟨view.row, [.terminate], outcome⟩ }

def stoppingRun (outcome : Except Fault Unit) : Run Float :=
  { run none false false with
    job := { (run none false false).job with program := stopping outcome }
    flag := .shared }

theorem create_stoppingRun (outcome : Except Fault Unit) :
    Run.create (.complete 2) (config false false) (stopping outcome) .shared
      = .ok (stoppingRun outcome) := rfl

/-- The run whose program asks for a stop and then finds a bug of its own. -/
def breakingRun : Run Float := stoppingRun (.error (.violation (.program "stop")))

/-- The second worker is done before the first one starts. -/
def secondBeforeFirst : Schedule := fun _ _ => [.work 1, .work 1, .work 1, .work 0, .work 0]

end Relay

/-- The second worker raises the flag in its call and the first one finds it raised. From the call
on nothing is visited any more, and the run ends with the phase for what the first worker saw. -/
theorem cancellation_of_run_relay :
    ((Relay.stoppingRun (.ok ())).execute Relay.secondBeforeFirst).1
        = .error (.error (.terminated 0)) ∧
      ((Relay.stoppingRun (.ok ())).execute Relay.secondBeforeFirst).2.flag.raised = true ∧
      ∃ ws, Workspace.Enters (Relay.stoppingRun (.ok ())).job Relay.secondBeforeFirst
          ((Relay.stoppingRun (.ok ())).opening .empty) .compute 0 ws ∧
        (∀ later, Workspace.visits (Relay.stoppingRun (.ok ())).job .compute 0
          ([.work 1, .work 1, .work 1].foldl
            (Workspace.move (Relay.stoppingRun (.ok ())).job .compute 0)
            (Workspace.phaseStart (Relay.stoppingRun (.ok ())).job ws)) later = []) ∧
        ∃ results : Workspace.Results, (⟨0, 1⟩, .failed (.terminated 0)) ∈ results ∧
          Workspace.CancelledBy .compute 0 results (.error (.terminated 0)) ∧
          ∃ calls, ((Relay.stoppingRun (.ok ())).execute
            Relay.secondBeforeFirst).2.journal.milestones
              = Milestone.brokenOff .compute calls 0 := by
  have hterminated : ((Relay.stoppingRun (.ok ())).execute Relay.secondBeforeFirst).1.map
      (fun _ => ()) = .error (.error (.terminated 0)) := by decide +kernel
  have hexecute := eq_error_of_map_eq hterminated
  have hinit : (((Relay.stoppingRun (.ok ())).opening .empty).runPhase
      (Relay.stoppingRun (.ok ())).job Relay.secondBeforeFirst .init 0).1 = .ok () := by
    decide +kernel
  have hstands : Workspace.StandsAt (Relay.stoppingRun (.ok ())).job Relay.secondBeforeFirst
      ((Relay.stoppingRun (.ok ())).opening .empty) 0
      (((Relay.stoppingRun (.ok ())).opening .empty).runPhase (Relay.stoppingRun (.ok ())).job
        Relay.secondBeforeFirst .init 0).2 := .first rfl (Prod.ext hinit rfl)
  have henters := Workspace.Enters.compute hstands (by decide) (by decide +kernel)
  obtain ⟨hruns, hflag⟩ := cancellation_of_run (Relay.create_stoppingRun (.ok ()))
    Relay.secondBeforeFirst
  obtain ⟨-, -, hphases, -⟩ := hruns .empty (by rfl)
  obtain ⟨hvisits, moves, results, ⟨rest, rfl⟩, hmoves, hends⟩ := hphases .compute 0 _ henters
  -- the first worker has failed when the moves of the schedule are made, and stays so
  have hobserved : (⟨0, 1⟩, .failed (.terminated 0)) ∈ results := by
    have hfinished := congrArg Prod.fst hmoves
    dsimp only at hfinished
    rw [← Workspace.mem_finishedTasks, ← hfinished, List.foldl_append]
    exact Workspace.finished_mem_moves (by decide +kernel) rest
  obtain ⟨stop, hcancelled, hstop, counts, calls, hmilestones⟩ := hends ⟨_, _, hobserved⟩
  obtain rfl : .error (.terminated 0) = stop := Except.error.inj (hexecute.symm.trans hstop)
  refine ⟨hexecute, hflag 0 hexecute, _, henters, fun later => ?_, results, hobserved, hcancelled,
    calls, hmilestones⟩
  -- the second worker has no vertex left, and the first looks before its own
  have hnone := hvisits [.work 1, .work 1, .work 1] later (by decide +kernel)
  rwa [show List.flatMap Task.unpolled _ = [] by decide +kernel, List.subperm_nil] at hnone

/-- A violation goes before the flag: here the first worker finds the flag raised and no worker
fails with an error of the program, but the run ends with what broke the second worker off. -/
theorem terminated_worker_of_brokenOff_run :
    (∃ ws, Workspace.Enters Relay.breakingRun.job Relay.secondBeforeFirst
        (Relay.breakingRun.opening .empty) .compute 0 ws ∧
      ((Relay.secondBeforeFirst .compute 0).foldl (Workspace.move Relay.breakingRun.job .compute 0)
        (Workspace.phaseStart Relay.breakingRun.job ws)).1
          = [.finished ⟨0, 1⟩ (.failed (.terminated 0)),
            .finished ⟨1, 2⟩ (.violated (.program "stop"))]) ∧
      (Relay.breakingRun.execute Relay.secondBeforeFirst).1
        = .error (.violation (.program "stop")) := by
  have hinit : ((Relay.breakingRun.opening .empty).runPhase Relay.breakingRun.job
      Relay.secondBeforeFirst .init 0).1 = .ok () := by decide +kernel
  have hstands : Workspace.StandsAt Relay.breakingRun.job Relay.secondBeforeFirst
      (Relay.breakingRun.opening .empty) 0 ((Relay.breakingRun.opening .empty).runPhase
        Relay.breakingRun.job Relay.secondBeforeFirst .init 0).2 := .first rfl (Prod.ext hinit rfl)
  have henters := Workspace.Enters.compute hstands (by decide) (by decide +kernel)
  have hbroken : (Relay.breakingRun.execute Relay.secondBeforeFirst).1.map (fun _ => ())
      = .error (.violation (.program "stop")) := by decide +kernel
  have hexecute := eq_error_of_map_eq hbroken
  exact ⟨⟨_, henters, by decide +kernel⟩, hexecute⟩

end Superstep
