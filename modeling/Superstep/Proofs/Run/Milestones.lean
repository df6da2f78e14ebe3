import Mathlib
import Superstep.Proofs.Run.Serving

/-!
# The course of a run

The milestones of a run are its supersteps as they start, the computing calls, and the two ends of a
superstep: its last vertex was computed, and its figures were taken. `Milestone.course` is what a
superstep that ends without failure adds to them. A superstep that fails adds less and is the last
one, so the milestones of a run tell which supersteps it computed, and in which order.

## Key results

- `Workspace.SuperstepEnds.milestones`: what a superstep adds, however it ends
- `Workspace.StandsAt.milestones`: at a boundary all earlier supersteps have taken their course
-/

namespace Superstep

variable {α : Type}

/-- A stage in the course of a run. -/
inductive Milestone where
  | started (superstep : Nat)
  /-- A vertex is computed. -/
  | called (superstep : Nat)
  /-- All vertices have been computed, and the program's own step is taken. -/
  | computed (superstep : Nat)
  | finished (superstep : Nat)
  deriving Repr, DecidableEq

/-- The course of a superstep with so many calls that ends without failure. -/
def Milestone.course (calls s : Nat) : List Milestone :=
  .started s :: (List.replicate calls (.called s) ++ [.computed s, .finished s])

/-- The milestone that an event is, if it is one. -/
def Event.milestone? : Event α → Option Milestone
  | .transition _ (.running s) => some (.started s)
  | .transition _ (.masterComputing s) => some (.computed s)
  | .call c => if c.phase = .compute then some (.called c.superstep) else none
  | .superstepFinished stats => some (.finished stats.superstep)
  | _ => none

namespace Journal

/-- The milestones of a run, in order. -/
def milestones (j : Journal α) : List Milestone := j.toList.filterMap Event.milestone?

/-- An event adds its milestone, if it is one. -/
theorem milestones_push (j : Journal α) (e : Event α) :
    milestones (j.push e) = j.milestones ++ e.milestone?.toList := by
  rw [milestones, milestones, Array.toList_push, List.filterMap_append]
  cases h : e.milestone? <;> simp [h]

end Journal

namespace Workspace

variable {job : Job α} {schedule : Schedule} {s : Nat}

/-- Converging is no part of the course of a superstep. -/
theorem milestones_converged (ws : Workspace α) :
    (ws.transition .converged).journal.milestones = ws.journal.milestones := by
  rw [transition, Journal.milestones_push]
  exact List.append_nil _

/-- Nor is reaching the cap. -/
theorem milestones_reachedMaxIterations (ws : Workspace α) :
    (ws.transition .reachedMaxIterations).journal.milestones = ws.journal.milestones := by
  rw [transition, Journal.milestones_push]
  exact List.append_nil _

/-- The workers of a phase add calls of their superstep. -/
theorem Traverses.milestones {phase : Phase} {ws₀ ws : Workspace α} {vs : List Nat}
    (h : Traverses job phase s ws₀ vs ws) :
    ∃ calls, ws.journal.milestones = ws₀.journal.milestones ++ List.replicate calls (.called s) ∧
      (phase = .init → calls = 0) := by
  induction h with
  | start => exact ⟨0, (List.append_nil _).symm, fun _ => rfl⟩
  | @visit vs ws v _ _ ih =>
    obtain ⟨calls, hcalls, hinit⟩ := ih
    rcases (keeps_visit job phase s v ws).2 with ⟨-, hasleep⟩ | ⟨-, c, hlogs⟩
    · rw [hasleep]
      exact ⟨calls, hcalls, hinit⟩
    · rw [hlogs.journal, Journal.milestones_push, hcalls, Event.milestone?, hlogs.phase]
      cases phase with
      | init =>
        refine ⟨calls, ?_, hinit⟩
        rw [if_neg (by decide), Option.toList_none, List.append_nil]
      | compute =>
        refine ⟨calls + 1, ?_, nofun⟩
        rw [if_pos rfl, hlogs.superstep nofun, List.append_assoc, List.replicate_succ']
        rfl
  | raise _ ih => exact ih
  | abort _ ih => exact ih
  | @note vs ws _ r ok ih =>
    obtain ⟨calls, hcalls, hinit⟩ := ih
    refine ⟨calls, ?_, hinit⟩
    rw [Workspace.note, Journal.milestones_push, hcalls]
    exact List.append_nil _

/-- A superstep begins with the milestone of its start. -/
theorem milestones_opened (ws : Workspace α) (s : Nat) :
    (ws.opened s).journal.milestones = ws.journal.milestones ++ [.started s] := by
  have hjournal : (ws.opened s).journal = ws.journal.push (.transition ws.state (.running s)) :=
    (congrArg Workspace.journal (prepare_frame (ws.transition (.running s)) s) :)
  rw [hjournal, Journal.milestones_push]
  rfl

/-- What a superstep adds to the milestones, however it ends. -/
theorem SuperstepEnds.milestones {ws ws' : Workspace α} {out : Except Stop Control}
    (h : SuperstepEnds job s ws out ws') :
    ∃ calls, match out with
      | .ok _ => ws'.journal.milestones = ws.journal.milestones ++ Milestone.course calls s
      | .error _ => ∃ ended, (ended = [] ∨ ended = [.computed s]) ∧ ws'.journal.milestones
          = ws.journal.milestones ++ .started s :: (List.replicate calls (.called s) ++ ended) := by
  have hopened := milestones_opened ws s
  cases h with
  | @broken vs _ stop htraverses =>
    obtain ⟨calls, hcalls, -⟩ := htraverses.milestones
    refine ⟨calls, [], .inl rfl, ?_⟩
    rw [hcalls, hopened, List.append_nil, List.append_assoc]
    rfl
  | @masterFailed vs ws₁ _ stop htraverses _ hmaster =>
    obtain ⟨calls, hcalls, -⟩ := htraverses.milestones
    have hjournal : ws'.journal = ws₁.journal.push (.transition ws₁.state (.masterComputing s)) :=
      (congrArg (fun out => out.2.journal) hmaster.symm :)
    refine ⟨calls, [.computed s], .inr rfl, ?_⟩
    rw [hjournal, Journal.milestones_push, hcalls, hopened]
    simp [Event.milestone?]
  | @finished vs ws₁ ws₂ control htraverses _ hmaster =>
    obtain ⟨calls, hcalls, -⟩ := htraverses.milestones
    have hjournal : ws₂.journal = ws₁.journal.push (.transition ws₁.state (.masterComputing s)) :=
      (congrArg (fun out => out.2.journal) hmaster.symm :)
    refine ⟨calls, ?_⟩
    rw [note, Journal.milestones_push, hjournal, Journal.milestones_push, hcalls, hopened,
      Milestone.course]
    simp [Event.milestone?, superstepStats]

/-- A superstep that ends without failure takes its course after those below it. -/
theorem SuperstepEnds.course {start : List Milestone} {ws ws' : Workspace α} {control : Control}
    (h : SuperstepEnds job s ws (.ok control) ws')
    (hbefore : ∃ calls : Nat → Nat, ws.journal.milestones
      = start ++ (List.range s).flatMap fun i => Milestone.course (calls i) i) :
    ∃ calls : Nat → Nat, ws'.journal.milestones
      = start ++ (List.range (s + 1)).flatMap fun i => Milestone.course (calls i) i := by
  obtain ⟨calls, hcalls⟩ := hbefore
  obtain ⟨last, hlast⟩ := h.milestones
  refine ⟨Function.update calls s last, ?_⟩
  -- the supersteps before this one are not touched by the update
  have hsame : (List.range s).flatMap (fun i => Milestone.course (Function.update calls s last i) i)
      = (List.range s).flatMap fun i => Milestone.course (calls i) i := by
    refine List.flatMap_congr fun i hi => ?_
    rw [Function.update_of_ne (List.mem_range.mp hi).ne]
  rw [hlast, hcalls, List.range_succ, List.flatMap_append, hsame, List.append_assoc,
    List.flatMap_singleton, Function.update_self]

/-- At the boundary before superstep `s` the supersteps below `s` have taken their course. -/
theorem StandsAt.milestones {ws₀ ws : Workspace α} (h : StandsAt job schedule ws₀ s ws) :
    ∃ calls : Nat → Nat, ws.journal.milestones = ws₀.journal.milestones
      ++ (List.range s).flatMap fun i => Milestone.course (calls i) i := by
  refine h.invariant (P := fun s ws => ∃ calls : Nat → Nat, ws.journal.milestones
    = ws₀.journal.milestones ++ (List.range s).flatMap fun i => Milestone.course (calls i) i) ?_ ?_
  · intro vs ws _ htraverses
    obtain ⟨calls, hcalls, hinit⟩ := htraverses.milestones
    rw [hinit rfl] at hcalls
    exact ⟨fun _ => 0, hcalls⟩
  · intro s ws ws' hbefore hends
    exact hends.course hbefore

/-- After a superstep without failure that one and those below it have taken their course. -/
theorem Computes.milestones {ws₀ ws : Workspace α} {control : Control}
    (h : Computes job schedule ws₀ s (.ok control) ws) :
    ∃ calls : Nat → Nat, ws.journal.milestones = ws₀.journal.milestones
      ++ (List.range (s + 1)).flatMap fun i => Milestone.course (calls i) i := by
  obtain ⟨before, hstands, -, -, hsuperstep⟩ := h
  have hends := SuperstepEnds.of_superstep hsuperstep
  exact hends.course hstands.milestones

end Workspace

namespace Run

variable [Scalar α] {graph : Graph α} {config : Config} {program : Program α} {flag : Flag}
  {r : Run α}

/-- The end of a run is no milestone, and leaves the state of a run with a result as it is. -/
theorem milestones_execute {schema : Schema α} (hcreate : create graph config program flag = .ok r)
    (hschema : program.schema config = .ok schema) (schedule : Schedule) :
    let ended := (r.opening schema).iterate r.job schedule
    (r.execute schedule).2.journal.milestones = ended.2.journal.milestones ∧
      (r.execute schedule).2.state = match ended.1 with
        | .ok _ => ended.2.state
        | .error _ => .failed := by
  rw [execute_eq hcreate hschema]
  rcases (r.opening schema).iterate r.job schedule with ⟨(e | v) | ending, ws⟩
  · simp [afterIterate, conclude, transition, Journal.milestones_push, Event.milestone?]
  · simp [afterIterate, conclude, transition, Journal.milestones_push, Event.milestone?]
  · simp [afterIterate, conclude, Journal.milestones_push, Event.milestone?]

/-- A run has no milestone before its vertices are set up. -/
theorem milestones_opening (hcreate : create graph config program flag = .ok r)
    (schema : Schema α) : (r.opening schema).journal.milestones = [] := by
  obtain ⟨computer, rfl⟩ := of_create hcreate
  rfl

end Run

end Superstep
