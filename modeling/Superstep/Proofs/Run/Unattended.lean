import Mathlib
import Superstep.Proofs.Run.Serving

/-!
# Runs that nobody stops

A flag is raised by its owner, between two moves of the workers, or by a program that holds it. If
the owner lets it be and the program does not hold it, the flag is after a run as it was before.

## Key results

- `Workspace.flag_runPhase`, `Workspace.flag_superstep`: neither a phase nor a superstep raises it
- `Run.flag_execute`: so no run does
-/

namespace Superstep

variable {α : Type}

/-- The owner never raises the flag. -/
def Schedule.IsUnattended (schedule : Schedule) : Prop :=
  ∀ phase s, Move.raiseFlag ∉ schedule phase s

/-- Where nobody moves before the workers, nobody raises the flag. -/
theorem Schedule.isUnattended_sequential : Schedule.sequential.IsUnattended :=
  fun _ _ => List.not_mem_nil

namespace Workspace

variable {job : Job α} {schedule : Schedule} {phase : Phase} {s : Nat} {ws : Workspace α}

/-- A step of a worker leaves a flag that the program does not hold as it is. -/
theorem flag_taskStep {task : Task} {moved : List Task} {ws' : Workspace α}
    (hstep : TaskStep job phase s task ws moved ws') (hheld : ws.flag.heldByProgram = false) :
    ws'.flag = ws.flag := by
  -- only a visit could raise it, and the program does not hold it
  cases hstep with
  | visit _ hvisit | fail _ hvisit | violate _ hvisit => exact (keeps_of_visit hvisit).flag hheld
  | _ => rfl

/-- Workers leave the flag as it is. -/
theorem flag_moves {moves : List Move} (hmoves : .raiseFlag ∉ moves)
    {x : List Task × Workspace α} (hheld : x.2.flag.heldByProgram = false) :
    (moves.foldl (move job phase s) x).2.flag = x.2.flag := by
  -- a flag that is the same is still not held, so the next move leaves it as well
  induction moves generalizing x with
  | nil => rfl
  | cons m moves ih =>
    obtain ⟨hm, hlater⟩ := List.ne_and_not_mem_of_not_mem_cons hmoves
    have hmove : (move job phase s x m).2.flag = x.2.flag := by
      cases m with
      | raiseFlag => exact absurd rfl hm
      | work i =>
        rw [move]
        cases x.1[i]? with
        | none => rfl
        | some task => exact flag_taskStep (taskStep_workOn task x.2) hheld
    exact (ih hlater (hmove ▸ hheld)).trans hmove

/-- A phase that the owner leaves alone does so too. -/
theorem flag_runPhase (hschedule : .raiseFlag ∉ schedule phase s)
    (hheld : ws.flag.heldByProgram = false) :
    (ws.runPhase job schedule phase s).2.flag = ws.flag := by
  -- after the moves of the schedule only workers move
  obtain ⟨moves, results, hwork, hmoves, -⟩ := @runPhase_works _ job phase s schedule ws
  have hall : .raiseFlag ∉ schedule phase s ++ moves := by simp [hschedule, hwork]
  have hflag := @flag_moves _ job phase s _ hall (phaseStart job ws) hheld
  rw [hmoves] at hflag
  exact hflag

/-- So does the program's step between supersteps. -/
theorem flag_masterCompute (hheld : ws.flag.heldByProgram = false) :
    (masterCompute job s ws).2.flag = ws.flag := by
  rw [masterCompute]
  dsimp only
  split
  · exact Flag.request_of_not_held hheld
  · rfl

/-- A superstep is a phase and the program's step. -/
theorem flag_superstep (hschedule : schedule.IsUnattended)
    (hheld : ws.flag.heldByProgram = false) : (ws.superstep job schedule s).2.flag = ws.flag := by
  have hprepared : ((ws.transition (.running s)).prepare s).flag = ws.flag := by
    rw [prepare_frame]
    rfl
  have hphase : (((ws.transition (.running s)).prepare s).runPhase job schedule .compute s).2.flag
      = ws.flag := (flag_runPhase (hschedule .compute s) (hprepared ▸ hheld)).trans hprepared
  rw [superstep]
  dsimp only
  rcases hrun : ((ws.transition (.running s)).prepare s).runPhase job schedule .compute s
    with ⟨stop | _, ws₁⟩ <;> rw [hrun] at hphase
  · exact hphase
  · have hmaster : (masterCompute job s (ws₁.transition (.masterComputing s))).2.flag = ws.flag :=
      (flag_masterCompute (hphase ▸ hheld)).trans hphase
    dsimp only
    rcases hcompute : masterCompute job s (ws₁.transition (.masterComputing s))
      with ⟨stop | control, ws₂⟩ <;> rw [hcompute] at hmaster <;> exact hmaster

/-- Any number of supersteps leaves the flag as it was. -/
theorem flag_supersteps (hschedule : schedule.IsUnattended) (remaining : Nat)
    (hheld : ws.flag.heldByProgram = false) :
    (ws.supersteps job schedule remaining s).2.flag = ws.flag := by
  induction remaining generalizing s ws with
  | zero => rfl
  | succ remaining ih =>
    have hstep := @flag_superstep _ job schedule s ws hschedule hheld
    rw [supersteps]
    split
    · rfl
    · -- broken off, gone on or quiet, or halted
      rcases hrun : ws.superstep job schedule s with ⟨stop | _ | _, ws₁⟩ <;> rw [hrun] at hstep
      · exact hstep
      · dsimp only
        split
        · exact hstep
        · exact (ih (hstep ▸ hheld)).trans hstep
      · exact hstep

/-- Setting up and the supersteps after it leave the flag as it was. -/
theorem flag_iterate (hschedule : schedule.IsUnattended) (hheld : ws.flag.heldByProgram = false) :
    (ws.iterate job schedule).2.flag = ws.flag := by
  have hinit := @flag_runPhase _ job schedule .init 0 ws (hschedule .init 0) hheld
  rw [iterate]
  split
  · rfl
  · rcases hrun : ws.runPhase job schedule .init 0 with ⟨stop | _, ws₁⟩ <;> rw [hrun] at hinit
    · exact hinit
    · exact (flag_supersteps hschedule _ (hinit ▸ hheld)).trans hinit

end Workspace

namespace Run

variable {r : Run α} {schedule : Schedule}

/-- How a run is concluded does not touch the flag. -/
theorem flag_conclude (x : Except Stop (RunResult α) × Run α) : (conclude x).2.flag = x.2.flag := by
  rcases x with ⟨(e | v) | result, r⟩ <;> rfl

/-- A run that nobody stops leaves the flag as it was. -/
theorem flag_execute [Scalar α] (hschedule : schedule.IsUnattended)
    (hheld : r.flag.heldByProgram = false) : (r.execute schedule).2.flag = r.flag := by
  rw [execute]
  split
  · rw [flag_conclude, start]
    dsimp only [transition]
    split
    · rfl
    · rename_i schema _
      have hiterate : ((r.opening schema).iterate r.job schedule).2.flag = r.flag :=
        Workspace.flag_iterate hschedule hheld
      split <;> rename_i hrun <;> rw [← hiterate] <;> exact congrArg (·.2.flag) hrun.symm
  · rfl

end Run

end Superstep
