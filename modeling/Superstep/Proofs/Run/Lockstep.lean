import Mathlib
import Superstep.Proofs.Run.Serving

/-!
# Two runs side by side

Two runs are in lockstep if whatever one of them does, the other does too: both come out of the
set-up and out of every superstep in the same way, with workspaces that are related to each other.
Then they come to the same boundaries, compute the same supersteps and end in the same way.

That a relation is kept may depend on what a run does later. Nothing that was written to a journal
is taken back (`Workspace.Continues`), so what is assumed of the calls of a whole run holds of every
part of it.

## Key results

- `Workspace.StandsAt.continues`, `continues_superstep`: no part of a run takes anything back
- `Workspace.Lockstep.computes`, `Workspace.Lockstep.iterate`: the same supersteps and the same end
-/

namespace Superstep

variable {α : Type}

namespace Workspace

variable {job job' : Job α} {schedule : Schedule} {phase : Phase} {s : Nat}

/-! ## Journals only grow -/

/-- The journal of the second workspace begins with that of the first. -/
def Continues (ws ws' : Workspace α) : Prop := ws.journal.toList <+: ws'.journal.toList

/-- A workspace continues itself. -/
theorem Continues.refl (ws : Workspace α) : Continues ws ws := List.prefix_rfl

/-- What continues a continuation continues what it continues. -/
theorem Continues.trans {ws ws' ws'' : Workspace α} (h : Continues ws ws')
    (h' : Continues ws' ws'') : Continues ws ws'' :=
  List.IsPrefix.trans h h'

/-- Writing down one more event takes nothing back. -/
theorem continues_of_push {ws ws' : Workspace α} {e : Event α}
    (h : ws'.journal = ws.journal.push e) : Continues ws ws' := by
  rw [Continues, h, Array.toList_push]
  exact List.prefix_append _ _

/-- The calls of the first journal are the first calls of the second. -/
theorem Continues.calls {ws ws' : Workspace α} (h : Continues ws ws') (phase : Phase) :
    ws.journal.calls phase <+: ws'.journal.calls phase := by
  rw [Journal.calls_eq_filterMap, Journal.calls_eq_filterMap]
  exact List.IsPrefix.filterMap _ h

/-- The figures of the first journal are the first figures of the second. -/
theorem Continues.figures {ws ws' : Workspace α} (h : Continues ws ws') :
    ws.journal.figures <+: ws'.journal.figures :=
  List.IsPrefix.filterMap _ h

/-- A visit takes nothing back: it writes down its call, or changes nothing. -/
theorem continues_visit (job : Job α) (phase : Phase) (s v : Nat) (ws : Workspace α) :
    Continues ws (ws.visit job phase s v).2 := by
  rcases (keeps_visit job phase s v ws).2 with ⟨-, hsame⟩ | ⟨-, c, hlogs⟩
  · rw [hsame]
    exact .refl ws
  · exact continues_of_push hlogs.journal

/-- No step of a task takes anything back. -/
theorem continues_taskStep {task : Task} {moved : List Task} {ws ws' : Workspace α}
    (hstep : TaskStep job phase s task ws moved ws') : Continues ws ws' := by
  cases hstep with
  -- a worker that ends by itself leaves a record
  | complete | giveUp | observe => exact continues_of_push rfl
  | @visit r position _ _ h hvisit | @violate r position _ _ _ h hvisit =>
    have hvisited := continues_visit job phase s (r.start + position) ws
    rwa [hvisit] at hvisited
  | @fail r position _ _ _ h hvisit =>
    have hvisited := continues_visit job phase s (r.start + position) ws
    rw [hvisit] at hvisited
    exact hvisited.trans (continues_of_push rfl)
  | _ => exact .refl ws

/-- No moves take anything back. -/
theorem Leads.continues {x y : List Task × Workspace α} (h : Leads job phase s x y) :
    Continues x.2 y.2 := by
  obtain ⟨moves, rfl⟩ := h
  refine moves_keep (P := fun y => Continues x.2 y.2) ?_ (.refl x.2) moves
  intro y v? z hy hmove
  cases hmove with
  | work hstep => exact hy.trans (continues_taskStep hstep)
  | raise => exact hy
  | idle => exact hy

/-- Going to the end of a range takes nothing back. -/
theorem continues_finishStep (r : VertexRange) (position : Nat) (ws : Workspace α) :
    Continues ws (ws.finishStep job phase s r position).2 :=
  (works_finishStep [] [] r position ws).leads.continues

/-- Finishing a waiting range takes nothing back. -/
theorem continues_finishRange (r : VertexRange) (ws : Workspace α) :
    Continues ws (ws.finishRange job phase s r).2 := by
  obtain ⟨_, -, hwork⟩ := @works_finishRange _ job phase s r ws [] []
  exact hwork.leads.continues

/-- Finishing all tasks takes nothing back. -/
theorem continues_finishTasks (tasks : List Task) (ws : Workspace α) :
    Continues ws (ws.finishTasks job phase s tasks).2 := by
  obtain ⟨_, -, hwork⟩ := @works_finishTasks _ job phase s tasks ws []
  exact hwork.leads.continues

/-- A phase takes nothing back. -/
theorem continues_runPhase (job : Job α) (schedule : Schedule) (phase : Phase) (s : Nat)
    (ws : Workspace α) : Continues ws (ws.runPhase job schedule phase s).2 := by
  obtain ⟨moves, results, -, hmoves, -⟩ := @runPhase_moves _ job phase s schedule ws
  have hlead : Leads job phase s (phaseStart job ws)
    (finishedTasks results, (ws.runPhase job schedule phase s).2) := ⟨moves, hmoves⟩
  exact hlead.continues

/-- The step between supersteps does not write to the journal. -/
theorem continues_masterCompute (job : Job α) (s : Nat) (ws : Workspace α) :
    Continues ws (masterCompute job s ws).2 := by
  rw [masterCompute_frame]
  exact .refl ws

/-- A transition takes nothing back. -/
theorem continues_transition (ws : Workspace α) (state : RunState) :
    Continues ws (ws.transition state) :=
  continues_of_push rfl

/-- Preparing a superstep does not write to the journal. -/
theorem continues_prepare (ws : Workspace α) (s : Nat) : Continues ws (ws.prepare s) := by
  rw [prepare_frame]
  exact .refl ws

/-- A superstep takes nothing back, however far it comes. -/
theorem continues_superstep (job : Job α) (schedule : Schedule) (s : Nat) (ws : Workspace α) :
    Continues ws (ws.superstep job schedule s).2 := by
  have hphase := ((continues_transition ws (.running s)).trans (continues_prepare _ s)).trans
    (continues_runPhase job schedule .compute s _)
  rw [superstep]
  dsimp only
  generalize ((ws.transition (.running s)).prepare s).runPhase job schedule .compute s = ran
    at hphase ⊢
  rcases ran with ⟨stop | _, ws₁⟩
  · exact hphase
  · -- the phase ended well, so the step between supersteps follows
    have hmaster := (hphase.trans (continues_transition ws₁ (.masterComputing s))).trans
      (continues_masterCompute job s _)
    dsimp only
    generalize masterCompute job s (ws₁.transition (.masterComputing s)) = mastered at hmaster ⊢
    rcases mastered with ⟨stop | control, ws₂⟩
    · exact hmaster
    · exact hmaster.trans (continues_of_push rfl)

/-- All supersteps together take nothing back. -/
theorem continues_supersteps (remaining s : Nat) (ws : Workspace α) :
    Continues ws (ws.supersteps job schedule remaining s).2 := by
  -- the induction is on the supersteps that the cap still allows
  induction remaining generalizing s ws with
  | zero => exact continues_transition ws _
  | succ remaining ih =>
    have hsuperstep := continues_superstep job schedule s ws
    rw [supersteps]
    split
    · exact .refl ws
    · generalize ws.superstep job schedule s = stepped at hsuperstep ⊢
      rcases stepped with ⟨stop | _ | _, next⟩
      · exact hsuperstep
      · dsimp only
        split
        · exact hsuperstep.trans (continues_transition next _)
        · exact hsuperstep.trans (ih (s + 1) next)
      · exact hsuperstep.trans (continues_transition next _)

/-- A run writes down all that its set-up did. -/
theorem continues_setUp {ws₀ : Workspace α} (hflag : ws₀.flag.raised = false) :
    Continues (ws₀.runPhase job schedule .init 0).2 (ws₀.iterate job schedule).2 := by
  rw [iterate, hflag, if_neg (by decide)]
  rcases ws₀.runPhase job schedule .init 0 with ⟨stop | _, ws⟩
  · exact .refl ws
  · exact continues_supersteps _ 0 ws

/-- A run writes down all that each of its supersteps did. -/
theorem StandsAt.continues {ws₀ ws : Workspace α} (h : StandsAt job schedule ws₀ s ws)
    (hs : s < job.config.maxIterations) (hflag : ws.flag.raised = false) :
    Continues (ws.superstep job schedule s).2 (ws₀.iterate job schedule).2 := by
  -- the superstep is the next one, and what follows it only adds
  have hleft : job.config.maxIterations - s = job.config.maxIterations - (s + 1) + 1 := by omega
  rw [h.iterate_eq, hleft, supersteps, hflag, if_neg (by decide)]
  rcases ws.superstep job schedule s with ⟨stop | _ | _, next⟩
  · exact .refl next
  · dsimp only
    split
    · exact continues_transition next _
    · exact continues_supersteps _ (s + 1) next
  · exact continues_transition next _

/-! ## Lockstep -/

/-- The same answer, and related workspaces. -/
def Together {β : Type} (Rel : Workspace α → Workspace α → Prop) (x x' : β × Workspace α) : Prop :=
  x.1 = x'.1 ∧ Rel x.2 x'.2

/-- If one side is known, the other has the same answer and a related workspace. -/
theorem Together.exists_right {β : Type} {Rel : Workspace α → Workspace α → Prop} {out : β}
    {ws : Workspace α} {x' : β × Workspace α} (h : Together Rel (out, ws) x') :
    ∃ ws', x' = (out, ws') ∧ Rel ws ws' :=
  ⟨x'.2, Prod.ext h.1.symm rfl, h.2⟩

/-- The same from the other side. -/
theorem Together.exists_left {β : Type} {Rel : Workspace α → Workspace α → Prop} {out : β}
    {ws' : Workspace α} {x : β × Workspace α} (h : Together Rel x (out, ws')) :
    ∃ ws, x = (out, ws) ∧ Rel ws ws' :=
  ⟨x.2, Prod.ext h.1 rfl, h.2⟩

/-- Two runs that come out of the set-up and out of every superstep together. -/
structure Lockstep (job job' : Job α) (schedule : Schedule) (ws₀ ws₀' : Workspace α)
    (Rel : Workspace α → Workspace α → Prop) : Prop where
  maxIterations : job.config.maxIterations = job'.config.maxIterations
  flag : ∀ {ws ws'}, Rel ws ws' → ws.flag.raised = ws'.flag.raised
  isQuiet : ∀ {ws ws'}, Rel ws ws' → ws.isQuiet = ws'.isQuiet
  transition : ∀ {ws ws'} state, Rel ws ws' → Rel (ws.transition state) (ws'.transition state)
  start : Rel ws₀ ws₀'
  setUp : ws₀.flag.raised = false →
    Together Rel (ws₀.runPhase job schedule .init 0) (ws₀'.runPhase job' schedule .init 0)
  superstep : ∀ {s ws ws'}, StandsAt job schedule ws₀ s ws → StandsAt job' schedule ws₀' s ws' →
    s < job.config.maxIterations → ws.flag.raised = false → Rel ws ws' →
    Together Rel (ws.superstep job schedule s) (ws'.superstep job' schedule s)

namespace Lockstep

variable {ws₀ ws₀' : Workspace α} {Rel : Workspace α → Workspace α → Prop}

/-- Lockstep is symmetric. -/
theorem symm (h : Lockstep job job' schedule ws₀ ws₀' Rel) :
    Lockstep job' job schedule ws₀' ws₀ (fun ws' ws => Rel ws ws') where
  maxIterations := h.maxIterations.symm
  flag hrel := (h.flag hrel).symm
  isQuiet hrel := (h.isQuiet hrel).symm
  transition state hrel := h.transition state hrel
  start := h.start
  setUp hflag := by
    obtain ⟨hout, hrel⟩ := h.setUp ((h.flag h.start).trans hflag)
    exact ⟨hout.symm, hrel⟩
  superstep hstands hstands' hs hflag hrel := by
    obtain ⟨hout, hrel'⟩ := h.superstep hstands' hstands (h.maxIterations ▸ hs)
      ((h.flag hrel).trans hflag) hrel
    exact ⟨hout.symm, hrel'⟩

/-- The second run comes to every boundary that the first one comes to. -/
theorem standsAt (h : Lockstep job job' schedule ws₀ ws₀' Rel) {ws : Workspace α}
    (hstands : StandsAt job schedule ws₀ s ws) :
    ∃ ws', StandsAt job' schedule ws₀' s ws' ∧ Rel ws ws' := by
  -- boundary by boundary, as the first run came to them
  induction hstands with
  | first hflag hinit =>
    have htogether := h.setUp hflag
    rw [hinit] at htogether
    obtain ⟨ws', hinit', hrel⟩ := htogether.exists_right
    exact ⟨ws', .first ((h.flag h.start).symm.trans hflag) hinit', hrel⟩
  | next hstands hs hflag hsuperstep hquiet ih =>
    obtain ⟨ws', hstands', hrel⟩ := ih
    have htogether := h.superstep hstands hstands' hs hflag hrel
    rw [hsuperstep] at htogether
    obtain ⟨next', hsuperstep', hrel'⟩ := htogether.exists_right
    exact ⟨next', .next hstands' (h.maxIterations ▸ hs) ((h.flag hrel).symm.trans hflag)
      hsuperstep' ((h.isQuiet hrel').symm.trans hquiet), hrel'⟩

/-- The second run computes every superstep that the first one computes, with the same answer. -/
theorem computes (h : Lockstep job job' schedule ws₀ ws₀' Rel) {out : Except Stop Control}
    {ws : Workspace α} (hcomputes : Computes job schedule ws₀ s out ws) :
    ∃ ws', Computes job' schedule ws₀' s out ws' ∧ Rel ws ws' := by
  obtain ⟨before, hstands, hs, hflag, hsuperstep⟩ := hcomputes
  obtain ⟨before', hstands', hrel⟩ := h.standsAt hstands
  have htogether := h.superstep hstands hstands' hs hflag hrel
  rw [hsuperstep] at htogether
  obtain ⟨ws', hsuperstep', hrel'⟩ := htogether.exists_right
  exact ⟨ws', ⟨before', hstands', h.maxIterations ▸ hs, (h.flag hrel).symm.trans hflag,
    hsuperstep'⟩, hrel'⟩

/-- From a common boundary on both runs end together. -/
private theorem supersteps (h : Lockstep job job' schedule ws₀ ws₀' Rel) (remaining : Nat)
    {ws ws' : Workspace α} (hs : s + remaining = job.config.maxIterations)
    (hstands : StandsAt job schedule ws₀ s ws) (hstands' : StandsAt job' schedule ws₀' s ws')
    (hrel : Rel ws ws') :
    Together Rel (ws.supersteps job schedule remaining s)
      (ws'.supersteps job' schedule remaining s) := by
  -- the induction is on the supersteps that the cap still allows
  induction remaining generalizing s ws ws' with
  | zero => exact ⟨rfl, h.transition _ hrel⟩
  | succ remaining ih =>
    rw [Workspace.supersteps, Workspace.supersteps, ← h.flag hrel]
    cases hflag : ws.flag.raised with
    | true => exact ⟨rfl, hrel⟩
    | false =>
      have hlt : s < job.config.maxIterations := by omega
      have hlt' : s < job'.config.maxIterations := h.maxIterations ▸ hlt
      have hflag' := (h.flag hrel).symm.trans hflag
      have htogether := h.superstep hstands hstands' hlt hflag hrel
      rcases hstep : ws.superstep job schedule s with ⟨out, next⟩
      rw [hstep] at htogether
      obtain ⟨next', hstep', hnext⟩ := htogether.exists_right
      rw [if_neg (by decide), if_neg (by decide), hstep']
      -- the answer of the superstep, which is that of both, decides how to go on
      rcases out with stop | _ | _
      · exact ⟨rfl, hnext⟩
      · dsimp only
        rw [← h.isQuiet hnext]
        cases hquiet : next.isQuiet with
        | true => exact ⟨rfl, h.transition _ hnext⟩
        | false =>
          rw [if_neg (by decide), if_neg (by decide)]
          exact ih (by omega) (hstands.next hlt hflag hstep hquiet)
            (hstands'.next hlt' hflag' hstep' ((h.isQuiet hnext).symm.trans hquiet)) hnext
      · exact ⟨rfl, h.transition _ hnext⟩

/-- Both runs end together. -/
theorem iterate (h : Lockstep job job' schedule ws₀ ws₀' Rel) :
    Together Rel (ws₀.iterate job schedule) (ws₀'.iterate job' schedule) := by
  rw [Workspace.iterate, Workspace.iterate, ← h.flag h.start]
  cases hflag : ws₀.flag.raised with
  | true => exact ⟨rfl, h.start⟩
  | false =>
    -- with the flag down both set their vertices up
    have htogether := h.setUp hflag
    rcases hinit : ws₀.runPhase job schedule .init 0 with ⟨out, ws⟩
    rw [hinit] at htogether
    obtain ⟨ws', hinit', hrel⟩ := htogether.exists_right
    rw [if_neg (by decide), if_neg (by decide), hinit']
    rcases out with stop | _
    · exact ⟨rfl, hrel⟩
    · dsimp only
      rw [← h.maxIterations]
      exact h.supersteps _ (Nat.zero_add _) (.first hflag hinit)
        (.first ((h.flag h.start).symm.trans hflag) hinit') hrel

end Lockstep

end Workspace

end Superstep
