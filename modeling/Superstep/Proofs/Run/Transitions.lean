import Mathlib
import Superstep.Proofs.Run.Serving

/-!
# The states that a run goes through

`RunState.Step` lists the changes of state that a run can make, and `RunState.Path` the ways that
they lead from one state to another. A run writes every change of its state down, so its journal
should be such a path from the beginning of its life to the state that it is in. The workers of a
phase change no state; every superstep takes two steps, and the end of the run is one more.

## Key results

- `Workspace.SuperstepEnds.tracks`: a superstep takes its two steps, or fails underway
- `Workspace.RunEnds.tracks`: the state in which the supersteps of a run leave it
-/

namespace Superstep

variable {α : Type}

/-! ## The automaton -/

namespace RunState

/-- Whether the run has been started and has not ended. -/
def isUnderway : RunState → Bool
  | .initializing | .running _ | .masterComputing _ => true
  | .created | .converged | .reachedMaxIterations | .failed | .released => false

/-- Whether nothing is being done and the run was not given up. -/
def isResting : RunState → Bool
  | .created | .converged | .reachedMaxIterations | .failed => true
  | .initializing | .running _ | .masterComputing _ | .released => false

/-- The changes of state that a run can make. -/
inductive Step : RunState → RunState → Prop
  | start : Step .created .initializing
  | first : Step .initializing (.running 0)
  | computed (s : Nat) : Step (.running s) (.masterComputing s)
  | next (s : Nat) : Step (.masterComputing s) (.running (s + 1))
  | converge (s : Nat) : Step (.masterComputing s) .converged
  | reachCap (s : Nat) : Step (.masterComputing s) .reachedMaxIterations
  | fail {state : RunState} (h : state.isUnderway = true) : Step state .failed
  | release {state : RunState} (h : state.isResting = true) : Step state .released

/-- The changes of state, each from where the one before has led, that lead to a state. -/
inductive Path (source : RunState) : List (RunState × RunState) → RunState → Prop
  | stay : Path source [] source
  | step {changes : List (RunState × RunState)} {state next : RunState}
      (h : Path source changes state) (hstep : Step state next) :
    Path source (changes ++ [(state, next)]) next

/-- The state at the boundary before a superstep. -/
def before : Nat → RunState
  | 0 => .initializing
  | s + 1 => .masterComputing s

/-- A superstep is entered from the boundary before it. -/
theorem step_before (s : Nat) : Step (before s) (.running s) := by
  cases s with
  | zero => exact .first
  | succ s => exact .next s

/-- At a boundary the run is underway. -/
theorem isUnderway_before (s : Nat) : (before s).isUnderway = true := by
  cases s <;> rfl

/-- What was done well leaves the run in the state of its answer, and what failed leaves it
underway. -/
def LeftBy {β : Type} (done : β → RunState) (out : Except Stop β) (state : RunState) : Prop :=
  match out with
  | .ok answer => state = done answer
  | .error _ => state.isUnderway = true

end RunState

/-- The state of a run that its supersteps have ended like this. -/
def Ending.state (ending : Ending) : RunState :=
  if ending.didConverge then .converged else .reachedMaxIterations

/-! ## What the journal says -/

/-- The change of state that an event is, if it is one. -/
def Event.change? : Event α → Option (RunState × RunState)
  | .transition source target => some (source, target)
  | _ => none

namespace Journal

/-- The changes of state of a run, in order. -/
def changes (j : Journal α) : List (RunState × RunState) := j.toList.filterMap Event.change?

/-- An event is at most one change of state. -/
theorem changes_push (j : Journal α) (e : Event α) :
    changes (j.push e) = j.changes ++ e.change?.toList := by
  rw [changes, changes, Array.toList_push, List.filterMap_append]
  cases h : e.change? <;> simp [h]

end Journal

namespace Workspace

variable {job : Job α} {schedule : Schedule} {s : Nat}

/-- The changes of state that were written down lead to the state that the run is in. -/
def Tracks (ws : Workspace α) : Prop := RunState.Path .created ws.journal.changes ws.state

/-- A change that is none of the state's keeps track of it. -/
theorem Tracks.congr {ws ws' : Workspace α} (h : ws.Tracks) (hstate : ws'.state = ws.state)
    (hchanges : ws'.journal.changes = ws.journal.changes) : ws'.Tracks := by
  unfold Tracks at h ⊢
  rw [hstate, hchanges]
  exact h

/-- A change of state that the automaton allows is kept track of. -/
theorem Tracks.transition {ws : Workspace α} (h : ws.Tracks) {next : RunState}
    (hstep : ws.state.Step next) : (ws.transition next).Tracks := by
  unfold Tracks
  rw [Workspace.transition, Journal.changes_push]
  exact h.step hstep

/-! ## Phases -/

/-- Effects leave the state as it is. -/
theorem state_perform (vertex : Nat) (effects : List (Effect α)) (ws : Workspace α) :
    (perform vertex effects ws).2.state = ws.state := by
  induction effects generalizing ws with
  | nil => rfl
  | cons e effects ih =>
    cases e with
    | send target value =>
      rw [perform]
      split
      · rfl
      · exact ih _
    | voteToHalt =>
      rw [perform, ih]
      unfold voteToHalt
      split <;> rfl
    | terminate => exact ih _

/-- So does a call. -/
theorem state_callCompute (superstep vertex : Nat) (late : Bool) (ws : Workspace α) :
    (callCompute job superstep vertex late ws).2.state = ws.state := by
  unfold callCompute
  dsimp only
  split
  · rename_i hperform
    rw [← congrArg (fun out => out.2.state) hperform, state_perform]
  · rename_i hperform
    rw [← congrArg (fun out => out.2.state) hperform, state_perform]

/-- So does a visit, whether it makes a call or not. -/
theorem state_visit (phase : Phase) (superstep vertex : Nat) (ws : Workspace α) :
    (ws.visit job phase superstep vertex).2.state = ws.state := by
  cases phase with
  | init => rfl
  | compute =>
    rw [visit, visitCompute]
    split
    · exact state_callCompute superstep vertex false ws
    · split
      · exact state_callCompute superstep vertex true _
      · rfl

/-- A visit writes no change of state down. -/
theorem changes_visit (phase : Phase) (superstep vertex : Nat) (ws : Workspace α) :
    (ws.visit job phase superstep vertex).2.journal.changes = ws.journal.changes := by
  rcases (keeps_visit job phase superstep vertex ws).2 with ⟨-, hasleep⟩ | ⟨-, c, hlogs⟩
  · rw [hasleep]
  · rw [hlogs.journal, Journal.changes_push]
    exact List.append_nil _

/-- The workers of a phase leave the state as it is. -/
theorem Traverses.tracks {phase : Phase} {ws₀ ws : Workspace α} {vs : List Nat}
    (h : Traverses job phase s ws₀ vs ws) (h₀ : ws₀.Tracks) :
    ws.Tracks ∧ ws.state = ws₀.state := by
  -- whatever the workers do, in whatever order
  induction h with
  | start => exact ⟨h₀, rfl⟩
  | @visit vs ws v _ _ ih =>
    obtain ⟨htracks, hstate⟩ := ih
    have hkept := @state_visit _ job phase s v ws
    exact ⟨htracks.congr hkept (changes_visit phase s v ws), hkept.trans hstate⟩
  | raise _ ih => exact ih
  | abort _ ih => exact ih
  | @note vs ws _ r ok ih =>
    obtain ⟨htracks, hstate⟩ := ih
    refine ⟨htracks.congr rfl ?_, hstate⟩
    rw [Workspace.note, Journal.changes_push]
    exact List.append_nil _

/-! ## Supersteps -/

/-- Opening a superstep is the one change from the boundary before it. -/
theorem Tracks.opened {ws : Workspace α} (h : ws.Tracks) (hstate : ws.state = .before s) :
    (ws.opened s).Tracks ∧ (ws.opened s).state = .running s := by
  have hframe := prepare_frame (ws.transition (.running s)) s
  have hrunning : (ws.opened s).state = .running s := (congrArg Workspace.state hframe :)
  have hjournal : (ws.opened s).journal = (ws.transition (.running s)).journal :=
    (congrArg Workspace.journal hframe :)
  have hstep : ws.state.Step (.running s) := by
    rw [hstate]
    exact RunState.step_before s
  refine ⟨(h.transition hstep).congr hrunning ?_, hrunning⟩
  rw [hjournal]

/-- The program's step after a superstep is taken in a state of its own. -/
theorem Tracks.masterCompute {ws ws₁ : Workspace α} {out : Except Stop Control}
    (h : ws.Tracks) (hstate : ws.state = .running s)
    (hmaster : masterCompute job s (ws.transition (.masterComputing s)) = (out, ws₁)) :
    ws₁.Tracks ∧ ws₁.state = .masterComputing s := by
  have hframe := masterCompute_frame job s (ws.transition (.masterComputing s))
  rw [hmaster] at hframe
  have hmastering : ws₁.state = .masterComputing s := (congrArg Workspace.state hframe :)
  have hjournal : ws₁.journal = (ws.transition (.masterComputing s)).journal :=
    (congrArg Workspace.journal hframe :)
  have hstep : ws.state.Step (.masterComputing s) := by
    rw [hstate]
    exact .computed s
  refine ⟨(h.transition hstep).congr hmastering ?_, hmastering⟩
  rw [hjournal]

/-- A superstep takes its two steps, or fails underway. -/
theorem SuperstepEnds.tracks {ws ws' : Workspace α} {out : Except Stop Control}
    (h : SuperstepEnds job s ws out ws') (htracks : ws.Tracks) (hstate : ws.state = .before s) :
    ws'.Tracks ∧ RunState.LeftBy (fun _ => .masterComputing s) out ws'.state := by
  obtain ⟨hopened, hrunning⟩ := htracks.opened hstate
  -- broken off by its workers or its master, or finished
  cases h with
  | broken htraverses =>
    obtain ⟨hbroken, hsame⟩ := htraverses.tracks hopened
    refine ⟨hbroken, ?_⟩
    show ws'.state.isUnderway = true
    rw [hsame, hrunning]
    rfl
  | masterFailed htraverses _ hmaster =>
    obtain ⟨hdone, hsame⟩ := htraverses.tracks hopened
    obtain ⟨hfailed, hmastering⟩ := hdone.masterCompute (hsame.trans hrunning) hmaster
    refine ⟨hfailed, ?_⟩
    show ws'.state.isUnderway = true
    rw [hmastering]
    rfl
  | finished htraverses _ hmaster =>
    obtain ⟨hdone, hsame⟩ := htraverses.tracks hopened
    obtain ⟨hfinished, hmastering⟩ := hdone.masterCompute (hsame.trans hrunning) hmaster
    refine ⟨hfinished.congr rfl ?_, hmastering⟩
    -- the figures of a superstep are no change of state
    rw [note, Journal.changes_push]
    exact List.append_nil _

/-! ## Runs -/

/-- At a boundary the run is in the state that the superstep before it has left. -/
theorem StandsAt.tracks {ws₀ ws : Workspace α} (h : StandsAt job schedule ws₀ s ws)
    (h₀ : ws₀.Tracks) (hstate : ws₀.state = .initializing) :
    ws.Tracks ∧ ws.state = .before s := by
  refine h.invariant (P := fun s ws => ws.Tracks ∧ ws.state = .before s) ?_ ?_
  · intro vs ws _ htraverses
    obtain ⟨htracks, hsame⟩ := htraverses.tracks (h₀.congr rfl rfl)
    exact ⟨htracks, hsame.trans hstate⟩
  · intro s ws ws' ⟨htracks, hbefore⟩ hends
    exact hends.tracks htracks hbefore

/-- A superstep that was started ends in the state that it has come to. -/
theorem Computes.tracks {ws₀ ws : Workspace α} {out : Except Stop Control}
    (h : Computes job schedule ws₀ s out ws) (h₀ : ws₀.Tracks)
    (hstate : ws₀.state = .initializing) :
    ws.Tracks ∧ RunState.LeftBy (fun _ => .masterComputing s) out ws.state := by
  obtain ⟨start, hstands, -, -, hsuperstep⟩ := h
  obtain ⟨htracks, hbefore⟩ := hstands.tracks h₀ hstate
  have hends := SuperstepEnds.of_superstep hsuperstep
  exact hends.tracks htracks hbefore

/-- The state in which the supersteps of a run leave it: the one of its result, or one underway. -/
theorem RunEnds.tracks {ws₀ ws : Workspace α} {out : Except Stop Ending}
    (h : RunEnds job schedule ws₀ out ws) (hcap : 0 < job.config.maxIterations) (h₀ : ws₀.Tracks)
    (hstate : ws₀.state = .initializing) :
    ws.Tracks ∧ RunState.LeftBy Ending.state out ws.state := by
  -- a run that ends well does so in its program's own step, from which both ends are reached
  have hconverge {s : Nat} {control : Control} {last : Workspace α}
      (h : Computes job schedule ws₀ s (.ok control) last) :
      (last.transition .converged).Tracks := by
    obtain ⟨htracks, hmastering⟩ := h.tracks h₀ hstate
    refine htracks.transition ?_
    rw [hmastering]
    exact .converge s
  cases h with
  | neverStarted =>
    refine ⟨h₀, ?_⟩
    show ws₀.state.isUnderway = true
    rw [hstate]
    rfl
  | setUpFailed hflag hinit =>
    obtain ⟨vs, htraverses, -⟩ := traverses_of_runPhase hinit
    obtain ⟨htracks, hsame⟩ := htraverses.tracks (h₀.congr rfl rfl)
    refine ⟨htracks, ?_⟩
    show ws.state.isUnderway = true
    rw [hsame]
    exact congrArg RunState.isUnderway hstate
  | @capped last hcapped =>
    obtain ⟨htracks, hbefore⟩ := hcapped.tracks h₀ hstate
    -- the cap is not zero, so a superstep was computed before it
    obtain ⟨s, hs⟩ : ∃ s, job.config.maxIterations = s + 1 := ⟨_, (Nat.succ_pred hcap.ne').symm⟩
    refine ⟨htracks.transition ?_, rfl⟩
    -- the superstep before the cap has left the run in its master's state
    rw [hbefore, hs]
    exact .reachCap s
  | @terminated s _ hstands =>
    obtain ⟨htracks, hbefore⟩ := hstands.tracks h₀ hstate
    refine ⟨htracks, ?_⟩
    show ws.state.isUnderway = true
    rw [hbefore]
    exact RunState.isUnderway_before s
  | failed hcomputes => exact hcomputes.tracks h₀ hstate
  | halted hcomputes => exact ⟨hconverge hcomputes, rfl⟩
  | converged hcomputes => exact ⟨hconverge hcomputes, rfl⟩

end Workspace

end Superstep
