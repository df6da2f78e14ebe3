import Mathlib
import Superstep.Proofs.Run.Agreement

/-!
# Schedules do not show

A program that looks neither at how vertices are scheduled nor at the order of its messages comes to
the same result under every schedule: with any computer, any number of workers and any interleaving
of them. Both runs come to the same boundaries, agree there, and stop at the same one.

## Key results

- `StandsAt.agrees`: two runs agree at every boundary that both come to
- `StandsAt.follows`: one run comes to every boundary that the other comes to
- `schedule_independence`: both runs end with the same result, figures and calls
-/

namespace Superstep

variable {α : Type}

namespace Workspace

variable {job job' : Job α} {schedule schedule' : Schedule} {s : Nat} {ws₀ ws₀' : Workspace α}
  {ending ending' : Ending}

/-- How two runs of the same program start. -/
structure StartAlike (job job' : Job α) (ws₀ ws₀' : Workspace α) : Prop where
  jobs : job.Alike job'
  serves : ws₀.Serves job
  serves' : ws₀'.Serves job'
  ready : ws₀.messenger.ReadyFor 0
  ready' : ws₀'.messenger.ReadyFor 0
  agrees : ws₀.Agrees ws₀'

theorem StartAlike.symm (h : StartAlike job job' ws₀ ws₀') : StartAlike job' job ws₀' ws₀ :=
  ⟨h.jobs.symm, h.serves', h.serves, h.ready', h.ready, h.agrees.symm⟩

/-! ## Boundaries -/

/-- Two runs agree at every boundary that both come to. -/
theorem StandsAt.agrees (hstart : StartAlike job job' ws₀ ws₀') {ws ws' : Workspace α}
    (h : StandsAt job schedule ws₀ s ws) (h' : StandsAt job' schedule' ws₀' s ws') :
    ws.Agrees ws' := by
  induction h generalizing ws' with
  | @first ws hflag hinit =>
    -- the other run stands at the same boundary, so it came there the same way
    cases h' with
    | first hflag' hinit' =>
      obtain ⟨vs, htraverses, hnodup, hperm, -⟩ := traverses_of_runPhase hinit
      obtain ⟨vs', htraverses', -, hperm', -⟩ := traverses_of_runPhase hinit'
      have hall := hperm' rfl
      rw [← hstart.jobs.graph] at hall
      have hbegin : Agrees { ws₀ with aborted := false, stats := .zero }
          { ws₀' with aborted := false, stats := .zero } :=
        ⟨hstart.agrees.values, hstart.agrees.halted, hstart.agrees.inbox, hstart.agrees.outbox,
          hstart.agrees.calls, hstart.agrees.figures⟩
      exact htraverses.agrees_set_up hstart.jobs hbegin hnodup ((hperm rfl).trans hall.symm)
        htraverses'
  | @next s ws next hstands hs hflag hsuperstep hquiet ih =>
    cases h' with
    | @next _ before' _ hstands' hs' hflag' hsuperstep' hquiet' =>
      obtain ⟨hserves, hready⟩ := hstands.serves hstart.serves hstart.ready
      obtain ⟨hserves', hready'⟩ := hstands'.serves hstart.serves' hstart.ready'
      have hends := SuperstepEnds.of_superstep hsuperstep
      have hends' := SuperstepEnds.of_superstep hsuperstep'
      exact (hends.agrees hstart.jobs (ih hstands') hserves hserves' hready hready' hends').2

/-- Two runs come out of a superstep that both compute in the same way. -/
theorem Computes.agrees (hstart : StartAlike job job' ws₀ ws₀') {ws ws' : Workspace α}
    {control control' : Control} (h : Computes job schedule ws₀ s (.ok control) ws)
    (h' : Computes job' schedule' ws₀' s (.ok control') ws') :
    control = control' ∧ ws.Agrees ws' ∧ ws.isQuiet = ws'.isQuiet := by
  have hnext := h.serves hstart.serves hstart.ready
  have hnext' := h'.serves hstart.serves' hstart.ready'
  obtain ⟨before, hstands, -, -, hsuperstep⟩ := h
  obtain ⟨before', hstands', -, -, hsuperstep'⟩ := h'
  obtain ⟨hserves, hready⟩ := hstands.serves hstart.serves hstart.ready
  obtain ⟨hserves', hready'⟩ := hstands'.serves hstart.serves' hstart.ready'
  have hends := SuperstepEnds.of_superstep hsuperstep
  have hends' := SuperstepEnds.of_superstep hsuperstep'
  obtain ⟨hcontrol, hagree⟩ := hends.agrees hstart.jobs (hstands.agrees hstart hstands') hserves
    hserves' hready hready' hends'
  exact ⟨hcontrol, hagree, hagree.isQuiet_eq hnext.1 hnext'.1⟩

/-- A run that ends with a result comes to every boundary that the other comes to. -/
theorem StandsAt.follows (hstart : StartAlike job job' ws₀ ws₀')
    (hok : (ws₀'.iterate job' schedule').1 = .ok ending') {ws : Workspace α}
    (h : StandsAt job schedule ws₀ s ws) : ∃ ws', StandsAt job' schedule' ws₀' s ws' := by
  induction h with
  | first => exact exists_standsAt_zero hok
  | @next s ws next hstands hs hflag hsuperstep hquiet ih =>
    obtain ⟨before', hstands'⟩ := ih
    have hs' : s < job'.config.maxIterations := hstart.jobs.maxIterations ▸ hs
    obtain ⟨control', next', hcomputes'⟩ := hstands'.computes hs' hok
    have hcomputes : Computes job schedule ws₀ s (.ok .continue) next :=
      ⟨ws, hstands, hs, hflag, hsuperstep⟩
    -- the check says the same in both runs, so the other one goes on too
    obtain ⟨rfl, -, hsame⟩ := hcomputes.agrees hstart hcomputes'
    rw [hquiet] at hsame
    obtain ⟨before'', hstands'', -, hflag', hsuperstep'⟩ := hcomputes'
    exact ⟨next', hstands''.next hs' hflag' hsuperstep' hsame.symm⟩

/-- A run that ends with a result computes every superstep that the other computes, and agrees with
it afterwards. -/
theorem Computes.follows (hstart : StartAlike job job' ws₀ ws₀')
    (hok : (ws₀'.iterate job' schedule').1 = .ok ending') {ws : Workspace α} {control : Control}
    (h : Computes job schedule ws₀ s (.ok control) ws) :
    ∃ ws', Computes job' schedule' ws₀' s (.ok control) ws' ∧ ws.Agrees ws' ∧
      ws.isQuiet = ws'.isQuiet := by
  obtain ⟨before, hstands, hs, hflag, hsuperstep⟩ := h
  obtain ⟨before', hstands'⟩ := hstands.follows hstart hok
  have hs' : s < job'.config.maxIterations := hstart.jobs.maxIterations ▸ hs
  obtain ⟨control', ws', hcomputes'⟩ := hstands'.computes hs' hok
  have h : Computes job schedule ws₀ s (.ok control) ws := ⟨before, hstands, hs, hflag, hsuperstep⟩
  obtain ⟨rfl, hagree, hquiet⟩ := h.agrees hstart hcomputes'
  exact ⟨ws', hcomputes', hagree, hquiet⟩

/-! ## The end of a run -/

/-- Two runs that end with a result end with the same one, and agree at the end. -/
theorem iterate_agrees (hstart : StartAlike job job' ws₀ ws₀')
    (hok : (ws₀.iterate job schedule).1 = .ok ending)
    (hok' : (ws₀'.iterate job' schedule').1 = .ok ending') :
    ending = ending' ∧
      (ws₀.iterate job schedule).2.Agrees (ws₀'.iterate job' schedule').2 := by
  -- the last change of state is no call and no superstep
  have hleft (state : RunState) {ws ws' : Workspace α} (h : ws.Agrees ws') :
      (ws.transition state).Agrees (ws'.transition state) := by
    refine ⟨h.values, h.halted, h.inbox, h.outbox, ?_, ?_⟩
    · simpa [transition, Journal.calls_push, Event.call?] using h.calls
    · simpa [transition, Journal.figures_push, Event.figures?] using h.figures
  have hends := runEnds_iterate job schedule ws₀
  rw [hok] at hends
  generalize (ws₀.iterate job schedule).2 = last at hends
  -- the way in which one run ends is open to the other as well
  cases hends with
  | @capped ws hstands =>
    obtain ⟨ws', hstands'⟩ := hstands.follows hstart hok'
    have hagree := hstands.agrees hstart hstands'
    rw [hstart.jobs.maxIterations] at hstands'
    rw [hstands'.iterate_of_capped] at hok' ⊢
    exact ⟨by rw [hstart.jobs.maxIterations]; exact Except.ok.inj hok', hleft _ hagree⟩
  | @halted s ws hcomputes =>
    obtain ⟨ws', hcomputes', hagree, -⟩ := hcomputes.follows hstart hok'
    rw [hcomputes'.iterate_of_last (.inl rfl)] at hok' ⊢
    exact ⟨Except.ok.inj hok', hleft _ hagree⟩
  | @converged s ws hcomputes hquiet =>
    obtain ⟨ws', hcomputes', hagree, hsame⟩ := hcomputes.follows hstart hok'
    rw [hcomputes'.iterate_of_last (.inr (hsame ▸ hquiet))] at hok' ⊢
    exact ⟨Except.ok.inj hok', hleft _ hagree⟩

end Workspace

/-! ## Whole runs -/

namespace Run

variable [Scalar α] {graph : Graph α} {config config' : Config} {program : Program α}
  {flag flag' : Flag} {r r' : Run α} {schedule schedule' : Schedule}

/-- No hook of the run fails, which would end the run with that failure, and its flag is never
raised. -/
structure Undisturbed (r : Run α) (schedule : Schedule) : Prop where
  unfailing : ∀ stop, (r.execute schedule).1 = .error stop → ∃ s, stop = .error (.terminated s)
  unraised : (r.execute schedule).2.flag.raised = false

/-- An undisturbed run ends with a result. -/
theorem Undisturbed.exists_ending (h : r.Undisturbed schedule)
    (hcreate : create graph config program flag = .ok r) :
    ∃ schema ending, program.schema config = .ok schema ∧
      ((r.opening schema).iterate r.job schedule).1 = .ok ending := by
  cases hschema : program.schema config with
  | error v =>
    obtain ⟨hfailed, -⟩ := execute_of_schema_error hcreate hschema schedule
    obtain ⟨s, hs⟩ := h.unfailing _ hfailed
    cases hs
  | ok schema =>
    obtain ⟨houtcome, hflag, -⟩ := execute_of_schema hcreate hschema schedule
    have hends := Workspace.runEnds_iterate r.job schedule (r.opening schema)
    cases hout : ((r.opening schema).iterate r.job schedule).1 with
    | ok ending => exact ⟨schema, ending, rfl, hout⟩
    | error stop =>
      rw [hout] at houtcome hends
      obtain ⟨s, rfl⟩ := h.unfailing stop houtcome
      -- only the flag could have ended the run, and it was never raised
      have hraised := hends.raised_of_terminated
      rw [← hflag, h.unraised] at hraised
      cases hraised

theorem undisturbed_of_isOk (hok : (r.execute schedule).1.isOk = true)
    (hflag : (r.execute schedule).2.flag.raised = false) : r.Undisturbed schedule where
  unfailing stop hstop := by
    rw [hstop] at hok
    cases hok
  unraised := hflag

theorem startAlike_opening (hcreate : create graph config program flag = .ok r)
    (hcreate' : create graph config' program flag' = .ok r') (hjob : r.job.Alike r'.job)
    (schema : Schema α) :
    Workspace.StartAlike r.job r'.job (r.opening schema) (r'.opening schema) := by
  obtain ⟨hserves, hready⟩ := r.serves_opening schema
  obtain ⟨hserves', hready'⟩ := r'.serves_opening schema
  obtain ⟨hcalls, -, hfigures⟩ := journal_opening hcreate schema
  obtain ⟨hcalls', -, hfigures'⟩ := journal_opening hcreate' schema
  refine ⟨hjob, hserves, hserves', hready, hready', ?_, ?_, fun v => ?_, fun v => ?_, ?_, ?_⟩
  · change NodeValues.allocate schema r.job.graph.nodeCount
      = NodeValues.allocate schema r'.job.graph.nodeCount
    rw [hjob.graph]
  · change BitSet.empty r.job.graph.nodeCount = BitSet.empty r'.job.graph.nodeCount
    rw [hjob.graph]
  · change ((Messenger.create _ _ _).inbox v).Perm ((Messenger.create _ _ _).inbox v)
    rw [Messenger.inbox_create, Messenger.inbox_create]
  · change ((Messenger.create _ _ _).outbox v).Perm ((Messenger.create _ _ _).outbox v)
    rw [Messenger.outbox_create, Messenger.outbox_create]
  · rw [hcalls, hcalls']
  · rw [hfigures, hfigures']

end Run

/-- How vertices are scheduled does not show in a run. Let a program answer alike to alike views,
with two configurations that agree on the cap, and let its messages be combined in an order that
does not show, or be delivered in the next superstep. Then two undisturbed runs, under any two
schedules, end with the same values after the same number of supersteps, with the same figures for
every superstep, and having made the same calls. They compute the same supersteps, and after each of
them their values, votes and messages are the same. -/
theorem schedule_independence [Scalar α] {graph : Graph α} {config config' : Config}
    {program : Program α} {flag flag' : Flag} {r r' : Run α}
    (hcreate : Run.create graph config program flag = .ok r)
    (hcreate' : Run.create graph config' program flag' = .ok r')
    (hcap : config.maxIterations = config'.maxIterations)
    (hindifferent : program.Indifferent config config')
    (horderless : ∀ red, program.reducer = some red → red.IsOrderless)
    (hnext : program.reducer = none →
      config.isAsynchronous = false ∧ config'.isAsynchronous = false)
    (schedule schedule' : Schedule) (hr : r.Undisturbed schedule)
    (hr' : r'.Undisturbed schedule') :
    (∃ result, (r.execute schedule).1 = .ok result ∧ (r'.execute schedule').1 = .ok result) ∧
    (r.execute schedule).2.journal.figures = (r'.execute schedule').2.journal.figures ∧
    (((r.execute schedule).2.journal.calls .compute).map Call.gist).Perm
      (((r'.execute schedule').2.journal.calls .compute).map Call.gist) ∧
    ∀ schema, program.schema config = .ok schema → ∀ s control,
      (∀ ws, Workspace.Computes r.job schedule (r.opening schema) s (.ok control) ws →
        ∃ ws', Workspace.Computes r'.job schedule' (r'.opening schema) s (.ok control) ws' ∧
          ws.Agrees ws') ∧
      ∀ ws', Workspace.Computes r'.job schedule' (r'.opening schema) s (.ok control) ws' →
        ∃ ws, Workspace.Computes r.job schedule (r.opening schema) s (.ok control) ws ∧
          ws.Agrees ws' := by
  obtain ⟨hgraph, hprogram, hconfig⟩ := Run.job_of_create hcreate
  obtain ⟨hgraph', hprogram', hconfig'⟩ := Run.job_of_create hcreate'
  have hbuffered : (program.reducer.isSome || !config.isAsynchronous) = true ∧
      (program.reducer.isSome || !config'.isAsynchronous) = true := by
    cases hreducer : program.reducer with
    | some red => exact ⟨rfl, rfl⟩
    | none =>
      rw [(hnext hreducer).1, (hnext hreducer).2]
      exact ⟨rfl, rfl⟩
  have hjob : r.job.Alike r'.job := {
    graph := hgraph.trans hgraph'.symm
    program := hprogram.trans hprogram'.symm
    maxIterations := by rw [hconfig, hconfig', hcap]
    indifferent := by rw [hprogram, hconfig, hconfig']; exact hindifferent
    orderless := by rw [hprogram]; exact horderless
    doubleBuffered := by rw [hprogram, hconfig]; exact hbuffered.1
    doubleBuffered' := by rw [hprogram, hconfig']; exact hbuffered.2 }
  obtain ⟨schema, ending, hschema, hok⟩ := hr.exists_ending hcreate
  obtain ⟨schema', ending', hschema', hok'⟩ := hr'.exists_ending hcreate'
  obtain rfl : schema = schema' := by
    rw [hindifferent.schema, hschema'] at hschema
    exact (Except.ok.inj hschema).symm
  have hstart := Run.startAlike_opening hcreate hcreate' hjob schema
  obtain ⟨rfl, hagree⟩ := Workspace.iterate_agrees hstart hok hok'
  obtain ⟨houtcome, -, hcalls, -, hfigures⟩ := Run.execute_of_schema hcreate hschema schedule
  obtain ⟨houtcome', -, hcalls', -, hfigures'⟩ := Run.execute_of_schema hcreate' hschema' schedule'
  rw [hok] at houtcome
  rw [hok', ← hagree.values] at houtcome'
  refine ⟨⟨_, houtcome, houtcome'⟩, ?_, ?_, ?_⟩
  · rw [hfigures, hfigures', hagree.figures]
  · rw [hcalls, hcalls']
    exact hagree.calls
  · intro schema₁ hschema₁ s control
    obtain rfl : schema = schema₁ := by
      rw [hschema] at hschema₁
      exact Except.ok.inj hschema₁
    constructor
    · intro ws hcomputes
      obtain ⟨ws', hcomputes', hsame, -⟩ := hcomputes.follows hstart hok'
      exact ⟨ws', hcomputes', hsame⟩
    · intro ws' hcomputes'
      obtain ⟨ws, hcomputes, hsame, -⟩ := hcomputes'.follows hstart.symm hok
      exact ⟨ws, hcomputes, hsame.symm⟩

/-- Two workers that take turns, and two halves of which the second is done first. -/
theorem schedule_independence_relay :
    let r := Relay.run (some .count) false false
    let r' := Relay.run (some .count) false true
    ((r.execute Relay.takingTurns).2.journal.calls .compute).map (·.vertex) = [0, 1, 1] ∧
      ((r'.execute Relay.secondFirst).2.journal.calls .compute).map (·.vertex) = [1, 0, 1] ∧
      r.Undisturbed Relay.takingTurns ∧ r'.Undisturbed Relay.secondFirst ∧
      ∃ result, (r.execute Relay.takingTurns).1 = .ok result ∧
        (r'.execute Relay.secondFirst).1 = .ok result := by
  have hindifferent : (Relay.program (some (.count : Reducer Float))).Indifferent
      (Relay.config false false) (Relay.config false true) := {
    schema := rfl
    init := fun a b _ _ h => by simp only [Relay.program, Program.keep, h.row]
    compute := fun a b _ _ h => by simp only [Relay.program, h.superstep, h.vertex, h.row]
    master := fun _ _ _ _ _ => rfl }
  have horderless : ∀ red, (Relay.program (some (.count : Reducer Float))).reducer = some red →
      red.IsOrderless := by
    intro red hred
    obtain rfl := Option.some.inj hred
    exact fun a b c => rfl
  have hr : (Relay.run (some .count) false false).Undisturbed Relay.takingTurns :=
    Run.undisturbed_of_isOk (by decide +kernel) (by decide +kernel)
  have hr' : (Relay.run (some .count) false true).Undisturbed Relay.secondFirst :=
    Run.undisturbed_of_isOk (by decide +kernel) (by decide +kernel)
  refine ⟨by decide +kernel, by decide +kernel, hr, hr', ?_⟩
  exact (schedule_independence (Relay.create_run _ false false) (Relay.create_run _ false true) rfl
    hindifferent horderless (fun h => by cases h) _ _ hr hr').1

end Superstep
