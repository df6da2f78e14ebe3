import Mathlib
import Superstep.Proofs.Exact
import Superstep.Proofs.Run.Mirror

/-!
# Queues or combined messages

Whether messages are kept in queues or combined on the way does not show in a run, if the program
looks at them only through a lawful reducer. Under the same schedule, the run of the program with
the reducer and the run without it make the same calls in the same order and end in the same way,
also if that is an error.

## Key results

- `Run.lockstep_opening`: both runs go through the same supersteps
- `reducing_agreement`: both runs end in the same way
-/

namespace Superstep

variable {α : Type} {graph : Graph α} {config : Config} {program : Program α}
  {flag : Flag} {R : Reducer α} {r r' : Run α} {schedule : Schedule}

namespace Run

/-- Both runs are about the same job and wait to be started. -/
theorem of_create_both (hcreate : create graph config (program.reducing R) flag = .ok r)
    (hcreate' : create graph config program.queueing flag = .ok r') :
    ∃ computer, r = ⟨Job.reducing ⟨graph, program, config, computer⟩ R, flag, .created,
        #[.created computer graph.nodeCount]⟩ ∧
      r' = ⟨Job.queueing ⟨graph, program, config, computer⟩, flag, .created,
        #[.created computer graph.nodeCount]⟩ := by
  unfold create at hcreate hcreate'
  split at hcreate
  · cases hcreate
  · split at hcreate'
    · cases hcreate'
    · exact ⟨_, (Except.ok.inj hcreate).symm, (Except.ok.inj hcreate').symm⟩

/-- Runs that came out of their supersteps together write down the same end. -/
theorem conclude_together {n : Nat} {x x' : Except Stop Ending × Workspace α} (job job' : Job α)
    (h : Workspace.Together (Workspace.Mirrors n R) x x') :
    (conclude (afterIterate job x)).1 = (conclude (afterIterate job' x')).1 ∧
      (conclude (afterIterate job x)).2.state = (conclude (afterIterate job' x')).2.state ∧
      (conclude (afterIterate job x)).2.flag = (conclude (afterIterate job' x')).2.flag ∧
      (conclude (afterIterate job x)).2.journal.condensed R
        = (conclude (afterIterate job' x')).2.journal.condensed R := by
  obtain ⟨out, ws⟩ := x
  obtain ⟨ws', rfl, hmirrors⟩ := h.exists_right
  obtain ⟨messenger, journal, rfl, -, hjournal⟩ := hmirrors.exists_eq
  rcases out with (e | v) | ending
  all_goals
    refine ⟨rfl, rfl, rfl, ?_⟩
    simp only [afterIterate, conclude, transition, Journal.condensed_push, hjournal]

variable [Scalar α]

/-- Both runs start with mirror images. -/
theorem mirrors_opening (hcreate : create graph config (program.reducing R) flag = .ok r)
    (hcreate' : create graph config program.queueing flag = .ok r')
    (hsync : config.isAsynchronous = false) (schema : Schema α) :
    (r.opening schema).Mirrors graph.nodeCount R (r'.opening schema) := by
  obtain ⟨computer, rfl, rfl⟩ := of_create_both hcreate hcreate'
  have hmessenger : (Messenger.create graph.nodeCount (some R) config.isAsynchronous).Condenses
      graph.nodeCount R (Messenger.create graph.nodeCount none config.isAsynchronous) := by
    rw [hsync]
    exact Messenger.condenses_create graph.nodeCount R
  -- the name of the messenger in the log is all that differs
  refine Workspace.Mirrors.note ?_ rfl
  exact ⟨rfl, rfl, rfl, rfl, rfl, hmessenger, rfl, rfl, rfl⟩

/-- Both runs come out of the set-up and out of every superstep in the same way. -/
theorem lockstep_opening (hlawful : R.IsLawful) (hreads : program.ReadsThrough R)
    (hsync : config.isAsynchronous = false)
    (hcreate : create graph config (program.reducing R) flag = .ok r)
    (hcreate' : create graph config program.queueing flag = .ok r') {schema : Schema α}
    (hinside : ((r'.opening schema).iterate r'.job schedule).2.journal.SendsInside
      graph.nodeCount) :
    Workspace.Lockstep r.job r'.job schedule (r.opening schema) (r'.opening schema)
      (Workspace.Mirrors graph.nodeCount R) := by
  have hstart := mirrors_opening hcreate hcreate' hsync schema
  obtain ⟨computer, hr, hr'⟩ := of_create_both hcreate hcreate'
  have hjob : r.job = Job.reducing ⟨graph, program, config, computer⟩ R := by rw [hr]
  have hjob' : r'.job = Job.queueing ⟨graph, program, config, computer⟩ := by rw [hr']
  rw [hjob'] at hinside
  rw [hjob, hjob']
  exact {
    maxIterations := rfl
    flag := fun h => congrArg Flag.raised h.flag
    isQuiet := fun h => h.isQuiet
    transition := fun state h => h.transition state
    start := hstart
    setUp := fun hflag =>
      have hlater := Workspace.continues_setUp ((congrArg Flag.raised hstart.flag).symm.trans hflag)
      Workspace.inStep_runPhase hlawful hreads hstart schedule (hlater.sendsInside hinside)
    superstep := fun _ hstands' hs hflag h =>
      have hlater := hstands'.continues hs ((congrArg Flag.raised h.flag).symm.trans hflag)
      Workspace.inStep_superstep hlawful hreads h schedule (hlater.sendsInside hinside) }

end Run

/-- Combining messages on the way does not show. Let a reducer be associative and commutative with a
neutral identity, and let a program look at its messages only through whether there are any and what
they combine to. Then two runs under the same schedule, one with the reducer and one with queues,
whose messages all go to existing vertices, end with the same result or error, in the same state and
with the same journal, but for how messages are kept. They compute the same supersteps, and come out
of each of them with the same vertices awake, the same values, votes and counters, and with messages
waiting in both or in neither. -/
theorem reducing_agreement [Scalar α] (hlawful : R.IsLawful) (hreads : program.ReadsThrough R)
    (hsync : config.isAsynchronous = false)
    (hcreate : Run.create graph config (program.reducing R) flag = .ok r)
    (hcreate' : Run.create graph config program.queueing flag = .ok r') (schedule : Schedule)
    (hinside : (r'.execute schedule).2.journal.SendsInside graph.nodeCount) :
    (r.execute schedule).1 = (r'.execute schedule).1 ∧
      (r.execute schedule).2.state = (r'.execute schedule).2.state ∧
      (r.execute schedule).2.flag = (r'.execute schedule).2.flag ∧
      (r.execute schedule).2.journal.condensed R = (r'.execute schedule).2.journal.condensed R ∧
      ∀ schema, program.schema config = .ok schema → ∀ s out,
        (∀ ws, Workspace.Computes r.job schedule (r.opening schema) s out ws →
          ∃ ws', Workspace.Computes r'.job schedule (r'.opening schema) s out ws' ∧
            ws.Mirrors graph.nodeCount R ws' ∧ ws.messenger.pending = ws'.messenger.pending) ∧
        ∀ ws', Workspace.Computes r'.job schedule (r'.opening schema) s out ws' →
          ∃ ws, Workspace.Computes r.job schedule (r.opening schema) s out ws ∧
            ws.Mirrors graph.nodeCount R ws' ∧ ws.messenger.pending = ws'.messenger.pending := by
  cases hschema : program.schema config with
  | error v =>
    -- a program without schema ends both runs before any message is sent
    obtain ⟨computer, rfl, rfl⟩ := Run.of_create_both hcreate hcreate'
    rw [Run.execute, Run.execute, if_pos rfl, if_pos rfl]
    simp only [Run.start, Run.transition, Job.reducing, Job.queueing, Program.reducing,
      Program.queueing, hschema, Run.conclude]
    refine ⟨trivial, trivial, trivial, trivial, fun schema hschema => ?_⟩
    cases hschema
  | ok schema =>
    have hend : ((r'.opening schema).iterate r'.job schedule).2.journal.SendsInside
        graph.nodeCount := by
      obtain ⟨-, -, hcalls, -⟩ := Run.execute_of_schema hcreate' hschema schedule
      intro c hc
      rw [← hcalls] at hc
      exact hinside c hc
    have hlockstep := Run.lockstep_opening hlawful hreads hsync hcreate hcreate' hend
    rw [Run.execute_eq hcreate hschema, Run.execute_eq hcreate' hschema]
    obtain ⟨houtcome, hstate, hflag, hjournal⟩ :=
      Run.conclude_together r.job r'.job hlockstep.iterate
    refine ⟨houtcome, hstate, hflag, hjournal, ?_⟩
    rintro schema₁ hschema₁ s out
    obtain rfl := Except.ok.inj hschema₁
    constructor
    · intro ws hcomputes
      obtain ⟨ws', hcomputes', hmirrors⟩ := hlockstep.computes hcomputes
      exact ⟨ws', hcomputes', hmirrors, hmirrors.messenger.pending⟩
    · intro ws' hcomputes'
      obtain ⟨ws, hcomputes, hmirrors⟩ := hlockstep.symm.computes hcomputes'
      exact ⟨ws, hcomputes, hmirrors, hmirrors.messenger.pending⟩

namespace Relay

/-- In superstep 0 vertex 0 hands two messages to vertex 1, which returns the lesser one. -/
def volley : Program Exact where
  schema _ := .ok .empty
  reducer := none
  init := Program.keep
  compute view :=
    let sent :=
      if view.superstep = 0 ∧ view.vertex = 0 then [.send 1 (.finite 2), .send 1 (.finite 1)]
      else if view.superstep = 1 then [.send 0 (Reducer.min.fold view.inbox)]
      else []
    ⟨view.row, sent ++ [.voteToHalt], .ok ()⟩
  master := Program.proceed

theorem readsThrough_volley : volley.ReadsThrough .min := by
  intro view inbox _ hfold
  simp only [volley, hfold]

def volleyRun (reducer : Option (Reducer Exact)) : Run Exact :=
  ⟨⟨.complete 2, { volley with reducer := reducer }, Relay.config false false,
    .partitioned 2 Nat.two_pos⟩, .fresh, .created, #[.created (.partitioned 2 Nat.two_pos) 2]⟩

theorem create_volleyRun (reducer : Option (Reducer Exact)) :
    Run.create (.complete 2) (Relay.config false false) { volley with reducer := reducer } .fresh
      = .ok (volleyRun reducer) := rfl

end Relay

/-- Two messages in a queue and their combination lead to the same return. -/
theorem reducing_agreement_relay :
    ((Relay.volleyRun (some .min)).execute Relay.takingTurns).1
        = ((Relay.volleyRun none).execute Relay.takingTurns).1 ∧
      (((Relay.volleyRun none).execute Relay.takingTurns).2.journal.calls .compute).map (·.vertex)
        = [0, 1, 1, 0] := by
  have hinside : ((Relay.volleyRun none).execute Relay.takingTurns).2.journal.SendsInside 2 := by
    unfold Journal.SendsInside
    decide +kernel
  refine ⟨?_, by decide +kernel⟩
  exact (reducing_agreement Exact.isLawful_min Relay.readsThrough_volley rfl
    (Relay.create_volleyRun (some .min)) (Relay.create_volleyRun none) Relay.takingTurns hinside).1

end Superstep
