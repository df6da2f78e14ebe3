import Mathlib
import Superstep.Proofs.Run.Phase

/-!
# What is read off the journal

The calls, the supersteps that were computed and the figures of the supersteps are sublists of the
journal, picked out event by event. A phase adds calls to it and nothing else that these see.
-/

namespace Superstep

variable {α : Type}

/-! ## Sublists of the journal -/

namespace Event

/-- The call of a phase that an event is, if it is one. -/
def call? (phase : Phase) : Event α → Option (Call α)
  | .call c => if c.phase = phase then some c else none
  | _ => none

/-- The superstep whose vertices have all been computed when this event happens. -/
def computed? : Event α → Option Nat
  | .transition _ (.masterComputing s) => some s
  | _ => none

def figures? : Event α → Option SuperstepStats
  | .superstepFinished stats => some stats
  | _ => none

end Event

namespace Journal

/-- The supersteps whose vertices were all computed without failure, in order. -/
def computed (j : Journal α) : List Nat := j.toList.filterMap Event.computed?

/-- The figures of the supersteps that ended without failure, in order. -/
def figures (j : Journal α) : List SuperstepStats := j.toList.filterMap Event.figures?

/-- The calls of a phase are events of the journal, in their order. -/
theorem calls_eq_filterMap (j : Journal α) (phase : Phase) :
    j.calls phase = j.toList.filterMap (Event.call? phase) := rfl

/-- The calls of a phase are made in that phase. -/
theorem phase_of_mem_calls {j : Journal α} {phase : Phase} {c : Call α} (h : c ∈ j.calls phase) :
    c.phase = phase := by
  rw [calls_eq_filterMap] at h
  obtain ⟨e, -, he⟩ := List.mem_filterMap.mp h
  cases e with
  | call c' =>
    rw [Event.call?] at he
    split at he
    · rename_i hphase
      rw [← Option.some.inj he, hphase]
    · cases he
  | _ => cases he

/-- An event is at most one call. -/
theorem calls_push (j : Journal α) (e : Event α) (phase : Phase) :
    calls (j.push e) phase = j.calls phase ++ (Event.call? phase e).toList := by
  rw [calls_eq_filterMap, calls_eq_filterMap, Array.toList_push, List.filterMap_append]
  cases h : Event.call? phase e <;> simp [h]

/-- An event completes at most one superstep. -/
theorem computed_push (j : Journal α) (e : Event α) :
    computed (j.push e) = j.computed ++ (Event.computed? e).toList := by
  rw [computed, computed, Array.toList_push, List.filterMap_append]
  cases h : Event.computed? e <;> simp [h]

/-- An event holds the figures of at most one superstep. -/
theorem figures_push (j : Journal α) (e : Event α) :
    figures (j.push e) = j.figures ++ (Event.figures? e).toList := by
  rw [figures, figures, Array.toList_push, List.filterMap_append]
  cases h : Event.figures? e <;> simp [h]

end Journal

namespace Workspace

variable {job : Job α} {phase : Phase} {s : Nat}

/-- A phase ends no superstep, and its calls are calls of this phase. -/
theorem Traverses.journal {ws₀ ws : Workspace α} {vs : List Nat}
    (h : Traverses job phase s ws₀ vs ws) :
    ws.journal.computed = ws₀.journal.computed ∧ ws.journal.figures = ws₀.journal.figures ∧
      ∀ phase', phase' ≠ phase → ws.journal.calls phase' = ws₀.journal.calls phase' := by
  induction h with
  | start => exact ⟨rfl, rfl, fun _ _ => rfl⟩
  | @visit vs ws v _ _ ih =>
    obtain ⟨hcomputed, hfigures, hcalls⟩ := ih
    -- a visit writes nothing, or one call of this phase
    rcases (keeps_visit job phase s v ws).2 with ⟨-, hsame⟩ | ⟨-, c, -, hphase, -, hpush, -⟩
    · rw [hsame]
      exact ⟨hcomputed, hfigures, hcalls⟩
    · rw [hpush, Journal.computed_push, Journal.figures_push]
      refine ⟨by simpa [Event.computed?] using hcomputed,
        by simpa [Event.figures?] using hfigures, fun phase' hne => ?_⟩
      have hother : ¬c.phase = phase' := by
        rw [hphase]
        exact fun h => hne h.symm
      rw [Journal.calls_push, hcalls phase' hne, Event.call?, if_neg hother]
      exact List.append_nil _
  | raise _ ih => exact ih
  | abort _ ih => exact ih
  | @note vs ws _ r ok ih =>
    obtain ⟨hcomputed, hfigures, hcalls⟩ := ih
    rw [Workspace.note, Journal.computed_push, Journal.figures_push]
    refine ⟨by simpa [Event.computed?] using hcomputed,
      by simpa [Event.figures?] using hfigures, fun phase' hne => ?_⟩
    rw [Journal.calls_push, hcalls phase' hne]
    exact List.append_nil _

/-- The report of a step is no call. -/
theorem calls_note (ws : Workspace α) (r : VertexRange) (ok : Bool) (phase' : Phase) :
    (ws.note (.stepFinished phase s r ok)).journal.calls phase' = ws.journal.calls phase' := by
  rw [Workspace.note, Journal.calls_push]
  exact List.append_nil _

/-- A step of a task adds the calls of the visit that it makes, if it makes one. -/
theorem calls_taskStep {task : Task} {moved : List Task} {ws ws' : Workspace α}
    (hstep : TaskStep job phase s task ws moved ws') :
    (task.visits? = none ∧ ∀ phase', ws'.journal.calls phase' = ws.journal.calls phase') ∨
      ∃ v ∈ task.ahead, task.visits? = some v ∧
        ∀ phase', ws'.journal.calls phase'
          = (ws.visit job phase s v).2.journal.calls phase' := by
  -- three kinds of steps visit, the others write no call down
  cases hstep with
  | halve h => exact .inl ⟨rfl, fun _ => rfl⟩
  | start h => exact .inl ⟨rfl, fun _ => rfl⟩
  | complete h => exact .inl ⟨rfl, calls_note ws _ _⟩
  | giveUp h haborted => exact .inl ⟨rfl, calls_note ws _ _⟩
  | observe h haborted hpoll hflag => exact .inl ⟨rfl, calls_note { ws with aborted := true } _ _⟩
  | enter h haborted hpoll => exact .inl ⟨rfl, fun _ => rfl⟩
  | visit h hvisit =>
    refine .inr ⟨_, Task.mem_ahead_visiting h, rfl, fun _ => ?_⟩
    rw [hvisit]
  | @fail _ _ _ ws₁ _ h hvisit =>
    refine .inr ⟨_, Task.mem_ahead_visiting h, rfl, ?_⟩
    rw [hvisit]
    exact calls_note { ws₁ with aborted := true } _ _
  | violate h hvisit =>
    refine .inr ⟨_, Task.mem_ahead_visiting h, rfl, fun _ => ?_⟩
    rw [hvisit]
  | rest => exact .inl ⟨rfl, fun _ => rfl⟩

/-- A move adds the calls of the visit that it makes, if it makes one. -/
theorem calls_move (x : List Task × Workspace α) (m : Move) :
    (visited? x m = none ∧
        ∀ phase', (move job phase s x m).2.journal.calls phase' = x.2.journal.calls phase') ∨
      ∃ v ∈ x.1.flatMap Task.ahead, visited? x m = some v ∧
        ∀ phase', (move job phase s x m).2.journal.calls phase'
          = (x.2.visit job phase s v).2.journal.calls phase' := by
  have hmove := @moveStep_move _ job phase s x m
  generalize visited? x m = v?, move job phase s x m = y at hmove ⊢
  cases hmove with
  | work hstep =>
    rcases calls_taskStep hstep with hnone | ⟨v, hv, hvisit, hcalls⟩
    · exact .inl hnone
    · exact .inr ⟨v, by simp [hv], hvisit, hcalls⟩
  | raise => exact .inl ⟨rfl, fun _ => rfl⟩
  | idle => exact .inl ⟨rfl, fun _ => rfl⟩

end Workspace

end Superstep
