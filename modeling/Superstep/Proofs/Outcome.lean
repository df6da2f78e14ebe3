import Mathlib
import Superstep.Proofs.Run.Milestones

/-!
# The result of a run

A run that ends with a result was ended by the program, by the convergence check or by the cap. The
superstep it reports is the last one in the first two cases, so it is one less than their number,
and the cap itself in the third. Counting supersteps never goes beyond the cap.

## Key results

- `Workspace.EndsAfter`: the superstep after which the run does not go on
- `outcome_of_run`: what a result says about the supersteps of its run
-/

namespace Superstep

variable {α : Type}

namespace Workspace

variable {job : Job α} {schedule : Schedule} {s : Nat}

/-- The run comes out of superstep `s` without failure, and the program halts it there or the
convergence check holds. -/
def EndsAfter (job : Job α) (schedule : Schedule) (ws₀ : Workspace α) (s : Nat) : Prop :=
  ∃ control ws, Computes job schedule ws₀ s (.ok control) ws ∧
    (control = .halt ∨ ws.isQuiet = true)

/-- The run does not go on after such a superstep. -/
theorem EndsAfter.iterate {ws₀ : Workspace α} (h : EndsAfter job schedule ws₀ s) :
    (ws₀.iterate job schedule).1 = .ok ⟨true, s⟩ := by
  obtain ⟨control, ws, hcomputes, hlast⟩ := h
  rw [hcomputes.iterate_of_last hlast]

end Workspace

/-- What the end of a run says of its supersteps, with the state that the run is left in and its
milestones. -/
structure Outcome (job : Job α) (schedule : Schedule) (ws₀ : Workspace α) (ending : Ending)
    (state : RunState) (milestones : List Milestone) : Prop where
  /-- If there is a superstep that the run could end after, it ended after the first one. -/
  converged : ∀ k, Workspace.EndsAfter job schedule ws₀ k →
    ending.didConverge = true ∧ ending.ranIterations = k ∧ state = .converged
  /-- Otherwise it went on to its cap. -/
  capped : (∀ k, ¬Workspace.EndsAfter job schedule ws₀ k) →
    ending.didConverge = false ∧ ending.ranIterations = job.config.maxIterations ∧
      state = .reachedMaxIterations
  /-- All supersteps up to the last one were computed without failure. -/
  computes : ∀ s, s ≤ min ending.ranIterations (job.config.maxIterations - 1) →
    ∃ control ws, Workspace.Computes job schedule ws₀ s (.ok control) ws
  /-- They took their course one after the other, and nothing else was computed. -/
  milestones : ∃ calls : Nat → Nat, milestones
    = (List.range (min ending.ranIterations (job.config.maxIterations - 1) + 1)).flatMap
      fun s => Milestone.course (calls s) s
  /-- No superstep is counted beyond the cap. -/
  counted : ∀ s ws, Workspace.StandsAt job schedule ws₀ s ws → s ≤ job.config.maxIterations
  le_cap : ending.ranIterations ≤ job.config.maxIterations
  didConverge : ending.didConverge = true ↔ ending.ranIterations < job.config.maxIterations

namespace Workspace

variable {job : Job α} {schedule : Schedule} {ws₀ last : Workspace α}

/-- The end of a run that was ended after superstep `s`. -/
theorem Computes.outcome {s : Nat} {control : Control}
    (h : Computes job schedule ws₀ s (.ok control) last)
    (hlast : control = .halt ∨ last.isQuiet = true) (hfresh : ws₀.journal.milestones = []) :
    Outcome job schedule ws₀ ⟨true, s⟩ .converged last.journal.milestones := by
  have hafter : EndsAfter job schedule ws₀ s := ⟨control, last, h, hlast⟩
  have hs : s < job.config.maxIterations := h.choose_spec.2.1
  have hmin : min s (job.config.maxIterations - 1) = s := by omega
  refine ⟨fun k hk => ?_, fun hnone => absurd hafter (hnone s), fun i hi => ?_, ?_,
    fun i ws hstands => hstands.le_maxIterations, hs.le, by simp [hs]⟩
  · have heq := hk.iterate.symm.trans hafter.iterate
    simp only [Except.ok.injEq, Ending.mk.injEq, true_and] at heq
    exact ⟨rfl, heq.symm, rfl⟩
  · dsimp only at hi
    rw [hmin] at hi
    rcases Nat.lt_or_eq_of_le hi with hlt | rfl
    · obtain ⟨before, hstands, -⟩ := h
      obtain ⟨after, hcomputes⟩ := hstands.computes_of_lt i hlt
      exact ⟨_, after, hcomputes⟩
    · exact ⟨control, last, h⟩
  · dsimp only
    obtain ⟨calls, hcalls⟩ := h.milestones
    rw [hfresh, List.nil_append] at hcalls
    rw [hmin]
    exact ⟨calls, hcalls⟩

/-- The end of a run that came to its cap. -/
theorem StandsAt.outcome (h : StandsAt job schedule ws₀ job.config.maxIterations last)
    (hcap : 0 < job.config.maxIterations) (hfresh : ws₀.journal.milestones = []) :
    Outcome job schedule ws₀ ⟨false, job.config.maxIterations⟩ .reachedMaxIterations
      last.journal.milestones := by
  have hmin : min job.config.maxIterations (job.config.maxIterations - 1) + 1
      = job.config.maxIterations := by omega
  refine ⟨fun k hk => ?_, fun _ => ⟨rfl, rfl, rfl⟩, fun i hi => ?_, ?_,
    fun i ws hstands => hstands.le_maxIterations, le_rfl, by simp⟩
  · -- a run that stands at its cap was not ended before
    have heq := hk.iterate
    rw [h.iterate_of_capped] at heq
    cases heq
  · dsimp only at hi
    obtain ⟨after, hcomputes⟩ := h.computes_of_lt i (by omega)
    exact ⟨_, after, hcomputes⟩
  · dsimp only
    obtain ⟨calls, hcalls⟩ := h.milestones
    rw [hfresh, List.nil_append] at hcalls
    rw [hmin]
    exact ⟨calls, hcalls⟩

end Workspace

/-- Every run that ends with a result was computed superstep by superstep, up to the first one that
the program halted it after or that the convergence check held after, or else up to its cap. The
result and the state tell which of the two it was, and in which superstep. -/
theorem outcome_of_run [Scalar α] {graph : Graph α} {config : Config} {program : Program α}
    {flag : Flag} {r : Run α} (hcreate : Run.create graph config program flag = .ok r)
    (schedule : Schedule) {result : RunResult α}
    (hok : (r.execute schedule).1 = .ok result) :
    ∃ schema, program.schema config = .ok schema ∧
      Outcome r.job schedule (r.opening schema) ⟨result.didConverge, result.ranIterations⟩
        (r.execute schedule).2.state (r.execute schedule).2.journal.milestones := by
  obtain ⟨-, -, hconfig⟩ := Run.job_of_create hcreate
  cases hschema : program.schema config with
  | error v =>
    rw [(Run.execute_of_schema_error hcreate hschema schedule).1] at hok
    cases hok
  | ok schema =>
    refine ⟨schema, rfl, ?_⟩
    have hfresh := Run.milestones_opening hcreate schema
    obtain ⟨hmilestones, hstate⟩ := Run.milestones_execute hcreate hschema schedule
    obtain ⟨houtcome, -⟩ := Run.execute_of_schema hcreate hschema schedule
    have hends := Workspace.runEnds_iterate r.job schedule (r.opening schema)
    rw [hmilestones, hstate]
    rw [hok] at houtcome
    generalize (r.opening schema).iterate r.job schedule = ended at houtcome hends ⊢
    obtain ⟨stop | ending, ws⟩ := ended
    · cases houtcome
    · obtain rfl := Except.ok.inj houtcome
      rcases hends.of_ok with ⟨hconverge, control, last, hcomputes, hlast, rfl⟩ |
        ⟨rfl, last, hstands, rfl⟩
      · obtain ⟨didConverge, ranIterations⟩ := ending
        obtain rfl : didConverge = true := hconverge
        rw [Workspace.milestones_converged]
        exact hcomputes.outcome hlast hfresh
      · rw [Workspace.milestones_reachedMaxIterations]
        exact hstands.outcome (hconfig ▸ Run.maxIterations_pos_of_create hcreate) hfresh

/-- What a mapped result comes from. -/
private theorem exists_of_map_eq_ok {ε β γ : Type} {x : Except ε β} {f : β → γ} {c : γ}
    (h : x.map f = .ok c) : ∃ b, x = .ok b ∧ f b = c := by
  cases x with
  | error e => cases h
  | ok b => exact ⟨b, rfl, Except.ok.inj h⟩

/-- The message of superstep 0 keeps the relay going for one more superstep. -/
theorem outcome_of_run_relay :
    ∃ result, ((Relay.run none false false).execute Relay.takingTurns).1 = .ok result ∧
      result.ranIterations = 1 ∧
      ∃ schema, (Relay.program none : Program Float).schema (Relay.config false false)
          = .ok schema ∧
        Outcome (Relay.run none false false).job Relay.takingTurns
          ((Relay.run none false false).opening schema)
          ⟨result.didConverge, result.ranIterations⟩
          ((Relay.run none false false).execute Relay.takingTurns).2.state
          ((Relay.run none false false).execute Relay.takingTurns).2.journal.milestones := by
  have hran : ((Relay.run none false false).execute Relay.takingTurns).1.map (·.ranIterations)
      = .ok 1 := by decide +kernel
  obtain ⟨result, hresult, hone⟩ := exists_of_map_eq_ok hran
  have houtcome := outcome_of_run (Relay.create_run none false false) Relay.takingTurns hresult
  exact ⟨result, hresult, hone, houtcome⟩

end Superstep
