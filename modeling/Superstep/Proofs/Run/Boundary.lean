import Mathlib
import Superstep.Proofs.Run.Journal
import Superstep.Run

/-!
# Where a run stands between supersteps

`StandsAt s ws` says that a run comes to the boundary before superstep `s` with the workspace `ws`,
and `Computes s out ws` that it goes on from there and comes out of superstep `s` with `out` and
`ws`. Every run ends in one of seven ways (`RunEnds`), and every superstep in one of three
(`SuperstepEnds`), so that an invariant of runs is proved for the set-up and for one superstep.

## Key results

- `Workspace.runEnds_iterate`, `SuperstepEnds.of_superstep`: the ways in which runs and supersteps
  end
- `Workspace.StandsAt.iterate_eq`: from a boundary on a run does what is left of its supersteps
-/

namespace Superstep

variable {α : Type}

namespace Workspace

variable {job : Job α} {schedule : Schedule} {s : Nat}

/-! ## Supersteps -/

/-- The workspace when the workers of superstep `s` begin. -/
def opened (s : Nat) (ws : Workspace α) : Workspace α :=
  { (ws.transition (.running s)).prepare s with aborted := false, stats := .zero }

/-- The tasks and the workspace of superstep `s` after some moves of its workers. -/
def during (job : Job α) (s : Nat) (ws : Workspace α) (moves : List Move) :
    List Task × Workspace α :=
  moves.foldl (move job .compute s) (phaseStart job ((ws.transition (.running s)).prepare s))

/-- How a superstep ends. -/
inductive SuperstepEnds (job : Job α) (s : Nat) (ws : Workspace α) :
    Except Stop Control → Workspace α → Prop
  /-- Some worker has failed or was broken off. -/
  | broken {vs ws₁ stop} (htraverses : Traverses job .compute s (ws.opened s) vs ws₁)
      (hnodup : vs.Nodup)
      (hflag : ∀ s', stop = .error (.terminated s') → ws₁.flag.raised = true) :
    SuperstepEnds job s ws (.error stop) ws₁
  /-- Every vertex was visited, but the program's step failed. -/
  | masterFailed {vs ws₁ ws₂ stop} (htraverses : Traverses job .compute s (ws.opened s) vs ws₁)
      (hperm : vs.Perm (List.range job.graph.nodeCount))
      (hmaster : masterCompute job s (ws₁.transition (.masterComputing s)) = (.error stop, ws₂)) :
    SuperstepEnds job s ws (.error stop) ws₂
  | finished {vs ws₁ ws₂ control} (htraverses : Traverses job .compute s (ws.opened s) vs ws₁)
      (hperm : vs.Perm (List.range job.graph.nodeCount))
      (hmaster : masterCompute job s (ws₁.transition (.masterComputing s)) = (.ok control, ws₂)) :
    SuperstepEnds job s ws (.ok control) (ws₂.note (.superstepFinished (ws₂.superstepStats s)))

/-- A superstep ends in one of the three ways. -/
theorem SuperstepEnds.of_superstep {schedule : Schedule} {ws ws' : Workspace α}
    {out : Except Stop Control} (h : ws.superstep job schedule s = (out, ws')) :
    SuperstepEnds job s ws out ws' := by
  rw [superstep] at h
  dsimp only at h
  -- the three ends are the three ways through `superstep`
  rcases hphase : ((ws.transition (.running s)).prepare s).runPhase job schedule .compute s
    with ⟨stop | _, ws₁⟩ <;> rw [hphase] at h
  · obtain ⟨vs, htraverses, hnodup, -, hflag⟩ := traverses_of_runPhase hphase
    cases h
    exact .broken htraverses hnodup fun s' hstop => hflag s' (by rw [hstop])
  · obtain ⟨vs, htraverses, -, hperm, -⟩ := traverses_of_runPhase hphase
    dsimp only at h
    rcases hmaster : masterCompute job s (ws₁.transition (.masterComputing s))
      with ⟨stop | control, ws₂⟩ <;> rw [hmaster] at h <;> cases h
    · exact .masterFailed htraverses (hperm rfl) hmaster
    · exact .finished htraverses (hperm rfl) hmaster

/-- The program's step writes values and may ask the run to stop, and does nothing else. -/
theorem masterCompute_frame (job : Job α) (s : Nat) (ws : Workspace α) :
    (masterCompute job s ws).2 = { ws with
      flag := (masterCompute job s ws).2.flag, values := (masterCompute job s ws).2.values } := rfl

/-- The program's step does not lower the flag. -/
theorem raised_masterCompute {ws : Workspace α} (h : ws.flag.raised = true) :
    (masterCompute job s ws).2.flag.raised = true := by
  rw [masterCompute]
  dsimp only
  split
  · simp [Flag.request, h]
  · exact h

/-! ## Runs -/

/-- The run comes to the boundary before superstep `s` with the workspace `ws`. -/
inductive StandsAt (job : Job α) (schedule : Schedule) (ws₀ : Workspace α) :
    Nat → Workspace α → Prop
  | first {ws} (hflag : ws₀.flag.raised = false)
      (hinit : ws₀.runPhase job schedule .init 0 = (.ok (), ws)) : StandsAt job schedule ws₀ 0 ws
  | next {s ws ws'} (h : StandsAt job schedule ws₀ s ws) (hs : s < job.config.maxIterations)
      (hflag : ws.flag.raised = false)
      (hsuperstep : ws.superstep job schedule s = (.ok .continue, ws'))
      (hquiet : ws'.isQuiet = false) : StandsAt job schedule ws₀ (s + 1) ws'

/-- The run starts superstep `s` and comes out of it with `out` and the workspace `ws'`. -/
def Computes (job : Job α) (schedule : Schedule) (ws₀ : Workspace α) (s : Nat)
    (out : Except Stop Control) (ws' : Workspace α) : Prop :=
  ∃ ws, StandsAt job schedule ws₀ s ws ∧ s < job.config.maxIterations ∧ ws.flag.raised = false ∧
    ws.superstep job schedule s = (out, ws')

/-- No boundary lies beyond the cap. -/
theorem StandsAt.le_maxIterations {ws₀ ws : Workspace α} (h : StandsAt job schedule ws₀ s ws) :
    s ≤ job.config.maxIterations := by
  cases h with
  | first _ _ => exact Nat.zero_le _
  | next _ hs _ _ _ => exact hs

/-- What the set-up establishes and every superstep keeps holds at every boundary. -/
theorem StandsAt.invariant {P : Nat → Workspace α → Prop} {ws₀ ws : Workspace α}
    (h : StandsAt job schedule ws₀ s ws)
    (hfirst : ∀ vs ws, vs.Nodup →
      Traverses job .init 0 { ws₀ with aborted := false, stats := .zero } vs ws → P 0 ws)
    (hnext : ∀ s ws ws', P s ws → SuperstepEnds job s ws (.ok .continue) ws' → P (s + 1) ws') :
    P s ws := by
  -- the two constructors are the set-up and one more superstep
  induction h with
  | @first ws hflag hinit =>
    obtain ⟨vs, htraverses, hnodup, -⟩ := traverses_of_runPhase hinit
    exact hfirst vs ws hnodup htraverses
  | @next s ws ws' _ hs hflag hsuperstep hquiet ih =>
    have hends := SuperstepEnds.of_superstep hsuperstep
    exact hnext s ws ws' ih hends

/-- How the supersteps of a run end. -/
inductive RunEnds (job : Job α) (schedule : Schedule) (ws₀ : Workspace α) :
    Except Stop Ending → Workspace α → Prop
  | neverStarted (hflag : ws₀.flag.raised = true) :
    RunEnds job schedule ws₀ (.error (.error (.terminated 0))) ws₀
  | setUpFailed {stop ws} (hflag : ws₀.flag.raised = false)
      (hinit : ws₀.runPhase job schedule .init 0 = (.error stop, ws)) :
    RunEnds job schedule ws₀ (.error stop) ws
  | capped {ws} (h : StandsAt job schedule ws₀ job.config.maxIterations ws) :
    RunEnds job schedule ws₀ (.ok ⟨false, job.config.maxIterations⟩)
      (ws.transition .reachedMaxIterations)
  | terminated {s ws} (h : StandsAt job schedule ws₀ s ws) (hs : s < job.config.maxIterations)
      (hflag : ws.flag.raised = true) :
    RunEnds job schedule ws₀ (.error (.error (.terminated s))) ws
  | failed {s stop ws} (h : Computes job schedule ws₀ s (.error stop) ws) :
    RunEnds job schedule ws₀ (.error stop) ws
  | halted {s ws} (h : Computes job schedule ws₀ s (.ok .halt) ws) :
    RunEnds job schedule ws₀ (.ok ⟨true, s⟩) (ws.transition .converged)
  | converged {s ws} (h : Computes job schedule ws₀ s (.ok .continue) ws)
      (hquiet : ws.isQuiet = true) :
    RunEnds job schedule ws₀ (.ok ⟨true, s⟩) (ws.transition .converged)

/-- A run that converged was ended by the program or was quiet. -/
theorem RunEnds.of_converged {ws₀ ws : Workspace α} {ending : Ending}
    (h : RunEnds job schedule ws₀ (.ok ending) ws) (hconverge : ending.didConverge = true) :
    (∃ last, Computes job schedule ws₀ ending.ranIterations (.ok .halt) last) ∨
      ∃ last, Computes job schedule ws₀ ending.ranIterations (.ok .continue) last ∧
        last.isQuiet = true ∧ ws = last.transition .converged := by
  cases h with
  | capped => cases hconverge
  | halted h => exact .inl ⟨_, h⟩
  | converged h hquiet => exact .inr ⟨_, h, hquiet, rfl⟩

/-- From a boundary on the supersteps that are left end in one of the ways. -/
theorem runEnds_supersteps {ws₀ : Workspace α} (remaining : Nat) {ws : Workspace α}
    (h : StandsAt job schedule ws₀ s ws) (hs : s + remaining = job.config.maxIterations) :
    RunEnds job schedule ws₀ (ws.supersteps job schedule remaining s).1
      (ws.supersteps job schedule remaining s).2 := by
  -- the induction is on the supersteps that the cap still allows
  induction remaining generalizing s ws with
  | zero =>
    have hcap : s = job.config.maxIterations := hs
    subst hcap
    exact .capped h
  | succ remaining ih =>
    have hlt : s < job.config.maxIterations := by omega
    rw [supersteps]
    cases hflag : ws.flag.raised with
    | true => exact .terminated h hlt hflag
    | false =>
      rw [if_neg (by decide)]
      -- a superstep fails, goes on or halts
      rcases hstep : ws.superstep job schedule s with ⟨stop | _ | _, ws'⟩
      · exact .failed ⟨ws, h, hlt, hflag, hstep⟩
      · dsimp only
        cases hquiet : ws'.isQuiet with
        | true => exact .converged ⟨ws, h, hlt, hflag, hstep⟩ hquiet
        | false =>
          rw [if_neg (by decide)]
          exact ih (h.next hlt hflag hstep hquiet) (by omega)
      · exact .halted ⟨ws, h, hlt, hflag, hstep⟩

/-- A run ends in one of the ways. -/
theorem runEnds_iterate (job : Job α) (schedule : Schedule) (ws₀ : Workspace α) :
    RunEnds job schedule ws₀ (ws₀.iterate job schedule).1 (ws₀.iterate job schedule).2 := by
  rw [iterate]
  cases hflag : ws₀.flag.raised with
  | true => exact .neverStarted hflag
  | false =>
    rw [if_neg (by decide)]
    rcases hinit : ws₀.runPhase job schedule .init 0 with ⟨stop | _, ws⟩
    · exact .setUpFailed hflag hinit
    · exact runEnds_supersteps _ (.first hflag hinit) (Nat.zero_add _)

/-- A run that ended because of its flag has raised it. -/
theorem RunEnds.raised_of_terminated {ws₀ ws : Workspace α} {s' : Nat}
    (h : RunEnds job schedule ws₀ (.error (.error (.terminated s'))) ws) :
    ws.flag.raised = true := by
  cases h with
  | neverStarted hflag => exact hflag
  | setUpFailed hflag hinit =>
    obtain ⟨vs, -, -, -, hterminated⟩ := traverses_of_runPhase hinit
    exact hterminated s' rfl
  | terminated _ _ hflag => exact hflag
  | @failed s _ _ hcomputes =>
    obtain ⟨before, -, -, -, hsuperstep⟩ := hcomputes
    have hends := SuperstepEnds.of_superstep hsuperstep
    cases hends with
    | broken _ _ hflag => exact hflag s' rfl
    | @masterFailed vs ws₁ _ _ _ _ hmaster =>
      -- the program's step never reports the flag
      have houtcome := congrArg Prod.fst hmaster
      rw [masterCompute] at houtcome
      simp only at houtcome
      split at houtcome <;> cases houtcome

/-- A run that comes to the boundary before superstep `s` has computed all supersteps below. -/
theorem StandsAt.computes_of_lt {ws₀ ws : Workspace α} (h : StandsAt job schedule ws₀ s ws) :
    ∀ i, i < s → ∃ after, Computes job schedule ws₀ i (.ok .continue) after := by
  induction h with
  | first _ _ => exact fun i hi => absurd hi (Nat.not_lt_zero i)
  | @next s ws ws' hstands hs hflag hsuperstep _ ih =>
    intro i hi
    rcases Nat.lt_succ_iff_lt_or_eq.mp hi with hlt | rfl
    · exact ih i hlt
    · exact ⟨ws', ws, hstands, hs, hflag, hsuperstep⟩

/-- A run with a result was ended after a superstep, or it stands at its cap. -/
theorem RunEnds.of_ok {ws₀ ws : Workspace α} {ending : Ending}
    (h : RunEnds job schedule ws₀ (.ok ending) ws) :
    (ending.didConverge = true ∧ ∃ control last,
        Computes job schedule ws₀ ending.ranIterations (.ok control) last ∧
        (control = .halt ∨ last.isQuiet = true) ∧ ws = last.transition .converged) ∨
      (ending = ⟨false, job.config.maxIterations⟩ ∧ ∃ last,
        StandsAt job schedule ws₀ job.config.maxIterations last ∧
        ws = last.transition .reachedMaxIterations) := by
  cases h with
  | capped h => exact .inr ⟨rfl, _, h, rfl⟩
  | halted h => exact .inl ⟨rfl, _, _, h, .inl rfl, rfl⟩
  | converged h hquiet => exact .inl ⟨rfl, _, _, h, .inr hquiet, rfl⟩

/-! ## What is left of a run -/

/-- From a boundary on a run does what is left of its supersteps. -/
theorem StandsAt.iterate_eq {ws₀ ws : Workspace α} (h : StandsAt job schedule ws₀ s ws) :
    ws₀.iterate job schedule = ws.supersteps job schedule (job.config.maxIterations - s) s := by
  induction h with
  | first hflag hinit =>
    rw [iterate, hflag, if_neg (by decide), hinit]
    rfl
  | @next s ws ws' _ hs hflag hsuperstep hquiet ih =>
    -- one of the supersteps that are left is this one
    have hleft : job.config.maxIterations - s = job.config.maxIterations - (s + 1) + 1 := by omega
    rw [ih, hleft, supersteps, hflag, if_neg (by decide), hsuperstep]
    dsimp only
    rw [hquiet, if_neg (by decide)]

/-- A run that stands at its cap is over. -/
theorem StandsAt.iterate_of_capped {ws₀ ws : Workspace α}
    (h : StandsAt job schedule ws₀ job.config.maxIterations ws) :
    ws₀.iterate job schedule
      = (.ok ⟨false, job.config.maxIterations⟩, ws.transition .reachedMaxIterations) := by
  rw [h.iterate_eq, Nat.sub_self]
  rfl

/-- A superstep after which the program halts or the run is quiet is the last one. -/
theorem Computes.iterate_of_last {ws₀ ws : Workspace α} {control : Control}
    (h : Computes job schedule ws₀ s (.ok control) ws)
    (hlast : control = .halt ∨ ws.isQuiet = true) :
    ws₀.iterate job schedule = (.ok ⟨true, s⟩, ws.transition .converged) := by
  obtain ⟨before, hstands, hs, hflag, hsuperstep⟩ := h
  have hleft : job.config.maxIterations - s = job.config.maxIterations - (s + 1) + 1 := by omega
  rw [hstands.iterate_eq, hleft, supersteps, hflag, if_neg (by decide), hsuperstep]
  cases control with
  | halt => rfl
  | «continue» =>
    dsimp only
    rw [if_pos (hlast.resolve_left (by decide))]

/-- A run that ends with a result computes every superstep that it comes to. -/
theorem StandsAt.computes {ws₀ ws : Workspace α} {ending : Ending}
    (h : StandsAt job schedule ws₀ s ws) (hs : s < job.config.maxIterations)
    (hok : (ws₀.iterate job schedule).1 = .ok ending) :
    ∃ control ws', Computes job schedule ws₀ s (.ok control) ws' := by
  have hleft : job.config.maxIterations - s = job.config.maxIterations - (s + 1) + 1 := by omega
  rw [h.iterate_eq, hleft, supersteps] at hok
  -- a run that was stopped here would have no result
  cases hflag : ws.flag.raised with
  | true =>
    rw [hflag, if_pos rfl] at hok
    cases hok
  | false =>
    rw [hflag, if_neg (by decide)] at hok
    rcases hsuperstep : ws.superstep job schedule s with ⟨stop | control, ws'⟩
    · rw [hsuperstep] at hok
      cases hok
    · exact ⟨control, ws', ws, h, hs, hflag, hsuperstep⟩

/-- A run that ends with a result has set its vertices up. -/
theorem exists_standsAt_zero {ws₀ : Workspace α} {ending : Ending}
    (hok : (ws₀.iterate job schedule).1 = .ok ending) :
    ∃ ws, StandsAt job schedule ws₀ 0 ws := by
  rw [iterate] at hok
  cases hflag : ws₀.flag.raised with
  | true =>
    rw [hflag, if_pos rfl] at hok
    cases hok
  | false =>
    rw [hflag, if_neg (by decide)] at hok
    rcases hinit : ws₀.runPhase job schedule .init 0 with ⟨stop | _, ws⟩
    · rw [hinit] at hok
      cases hok
    · exact ⟨ws, .first hflag hinit⟩

end Workspace

end Superstep
