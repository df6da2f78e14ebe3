import Mathlib
import Superstep.Proofs.Run.Serving

/-!
# When a phase succeeds

A worker stops for one of three reasons: a call of one of its vertices did not do all it set out to
do, it saw the flag raised, or another worker had stopped before it. So a phase succeeds exactly if
all its calls do, unless it is stopped from outside, and the calls of a superstep that ended without
failure were carried out in full.

## Key results

- `Workspace.answers_moves`: after any moves the tasks that failed answer for a call or for the flag
- `Workspace.runPhase_ok_iff`: a phase that nobody stops succeeds exactly if its calls do
- `Workspace.succeeded_of_superstep`: no call of a superstep without failure was cut short
-/

namespace Superstep

variable {α : Type}

/-- Whether the worker that makes a call goes on after it. What a set-up hook sends is not carried
out, so that it cannot be refused. -/
def Call.isFine (n : Nat) (c : Call α) : Bool :=
  match c.phase with
  | .init => c.reply.outcome.toBool
  | .compute => c.succeeded n

namespace Workspace

variable {job : Job α} {phase : Phase} {s : Nat}

/-- A visit succeeds exactly if the call that it makes does. -/
theorem isFine_visit {ws : Workspace α} (h : ws.Serves job) (phase : Phase) {v : Nat}
    (hv : v < job.graph.nodeCount) :
    ws.visit job phase s v = (.ok (), ws) ∨
      ∃ c : Call α, c.phase = phase ∧
        (ws.visit job phase s v).2.journal = ws.journal.push (.call c) ∧
        ((ws.visit job phase s v).1 = .ok () ↔ c.isFine job.graph.nodeCount = true) := by
  cases phase with
  | init =>
    refine .inr ⟨_, rfl, rfl, ?_⟩
    rw [visit, visitInit, Call.isFine]
    dsimp only
    -- setting up carries no effects out, so its answer alone decides
    cases (job.program.init (ws.view job 0 v [])).outcome <;> simp [Except.toBool]
  | compute =>
    cases hawake : ws.isAwake v with
    | false =>
      left
      rw [visit, visitCompute_of_asleep hawake]
    | true =>
      obtain ⟨hcalled, hok⟩ := @called_visitCompute _ _ job s v ws h.fits hv hawake
      exact .inr ⟨ws.nextCall job s v, rfl, hcalled.journal, hok⟩

/-- A visit that succeeds adds a call that does, or none. -/
theorem calls_of_visit_ok {ws ws' : Workspace α} (h : ws.Serves job) {v : Nat}
    (hv : v < job.graph.nodeCount) (hvisit : ws.visit job phase s v = (.ok (), ws')) :
    ∃ new : List (Call α), ws'.journal.calls phase = ws.journal.calls phase ++ new ∧
      ∀ c ∈ new, c.isFine job.graph.nodeCount = true := by
  rcases @isFine_visit _ job s ws h phase v hv with hasleep | ⟨c, hphase, hpush, hiff⟩
  · cases hvisit.symm.trans hasleep
    exact ⟨[], (List.append_nil _).symm, List.forall_mem_nil _⟩
  · rw [hvisit] at hpush hiff
    refine ⟨[c], ?_, by simpa using hiff.mp rfl⟩
    rw [hpush, Journal.calls_push, Event.call?, if_pos hphase]
    rfl

/-- A visit fails over a call that it adds. -/
theorem calls_of_visit_error {ws ws' : Workspace α} (h : ws.Serves job) {v : Nat}
    (hv : v < job.graph.nodeCount) {fault : Fault}
    (hvisit : ws.visit job phase s v = (.error fault, ws')) :
    ∃ c : Call α, ws'.journal.calls phase = ws.journal.calls phase ++ [c] ∧
      c.isFine job.graph.nodeCount = false := by
  rcases @isFine_visit _ job s ws h phase v hv with hasleep | ⟨c, hphase, hpush, hiff⟩
  · cases hvisit.symm.trans hasleep
  · rw [hvisit] at hpush hiff
    refine ⟨c, ?_, Bool.eq_false_iff.mpr fun hfine => ?_⟩
    · rw [hpush, Journal.calls_push, Event.call?, if_pos hphase]
      rfl
    · cases hiff.mpr hfine

/-- Whom the tasks that did not end well answer for, when a phase has made the calls `calls`. -/
structure Answers (job : Job α) (phase : Phase) (s : Nat) (ws₀ : Workspace α)
    (calls : List (Call α)) (tasks : List Task) (ws : Workspace α) : Prop where
  callsEq : ws.journal.calls phase = ws₀.journal.calls phase ++ calls
  fine : (∀ c ∈ calls, c.isFine job.graph.nodeCount = true) ∨ ∃ t ∈ tasks, t.hasFailed = true
  failed : ∀ t ∈ tasks, t.hasFailed = true →
    ws.flag.raised = true ∨ ∃ c ∈ calls, c.isFine job.graph.nodeCount = false

/-- What a step of a task adds to the calls: if one of them is cut short the task fails, and a task
fails because of a call or the flag. -/
theorem answers_taskStep {task : Task} {moved : List Task} {ws ws' : Workspace α}
    (hserves : ws.Serves job) (hahead : ∀ v ∈ task.ahead, v < job.graph.nodeCount)
    (hstep : TaskStep job phase s task ws moved ws') :
    ∃ new : List (Call α), ws'.journal.calls phase = ws.journal.calls phase ++ new ∧
      ((∀ c ∈ new, c.isFine job.graph.nodeCount = true) ∨ ∃ t ∈ moved, t.hasFailed = true) ∧
      ∀ t ∈ moved, t.hasFailed = true → t = task ∨ ws'.flag.raised = true ∨
        ∃ c ∈ new, c.isFine job.graph.nodeCount = false := by
  have hsilent : ws.journal.calls phase = ws.journal.calls phase ++ [] := (List.append_nil _).symm
  -- only a visit makes a call, and only some ways to finish are failures
  cases hstep with
  | halve h | start h | enter h =>
    exact ⟨[], hsilent, .inl (List.forall_mem_nil _), by simp [Task.hasFailed]⟩
  | @complete r _ _ h | @giveUp r _ _ h haborted =>
    refine ⟨[], (calls_note ws r true phase).trans hsilent, .inl (List.forall_mem_nil _), ?_⟩
    simp [Task.hasFailed]
  | @observe r _ _ h haborted hpoll hflag =>
    refine ⟨[], ?_, .inl (List.forall_mem_nil _), fun _ _ _ => .inr (.inl hflag)⟩
    exact (calls_note { ws with aborted := true } r false phase).trans hsilent
  | visit h hvisit =>
    obtain ⟨new, hcalls, hfine⟩ :=
      calls_of_visit_ok hserves (hahead _ (Task.mem_ahead_visiting h)) hvisit
    exact ⟨new, hcalls, .inl hfine, by simp [Task.hasFailed]⟩
  | @fail r position _ ws₁ source h hvisit =>
    obtain ⟨c, hcalls, hcut⟩ :=
      calls_of_visit_error hserves (hahead _ (Task.mem_ahead_visiting h)) hvisit
    refine ⟨[c], (calls_note { ws₁ with aborted := true } r false phase).trans hcalls,
      .inr ⟨_, List.mem_singleton_self _, rfl⟩, ?_⟩
    exact fun _ _ _ => .inr (.inr ⟨c, List.mem_singleton_self c, hcut⟩)
  | violate h hvisit =>
    obtain ⟨c, hcalls, hcut⟩ :=
      calls_of_visit_error hserves (hahead _ (Task.mem_ahead_visiting h)) hvisit
    refine ⟨[c], hcalls, .inr ⟨_, List.mem_singleton_self _, rfl⟩, ?_⟩
    exact fun _ _ _ => .inr (.inr ⟨c, List.mem_singleton_self c, hcut⟩)
  | rest =>
    exact ⟨[], hsilent, .inl (List.forall_mem_nil _), fun t ht _ => .inl (List.mem_singleton.mp ht)⟩

/-- A move keeps who answers for whom, with the calls that it adds. -/
theorem Answers.move {ws₀ : Workspace α} {calls : List (Call α)} {x y : List Task × Workspace α}
    {v? : Option Nat} (h : Answers job phase s ws₀ calls x.1 x.2) (hserves : x.2.Serves job)
    (hahead : ∀ t ∈ x.1, ∀ v ∈ t.ahead, v < job.graph.nodeCount)
    (hmove : MoveStep job phase s x v? y) : ∃ calls', Answers job phase s ws₀ calls' y.1 y.2 := by
  cases hmove with
  | @work left task right moved ws ws' hstep =>
    obtain ⟨new, hcalls, hfine, hblame⟩ :=
      answers_taskStep hserves (hahead task (by simp)) hstep
    have hraised := (taskStep_mono hstep).2
    refine ⟨calls ++ new, ?_, ?_, ?_⟩
    · rw [hcalls, h.callsEq, List.append_assoc]
    · rcases h.fine with hall | hfailed
      · -- no task had failed so far, so this one is the first if it did
        rcases hfine with hnew | ⟨t, ht, hfailed⟩
        · left
          intro c hc
          exact (List.mem_append.mp hc).elim (hall c) (hnew c)
        · exact .inr ⟨t, by simp [ht], hfailed⟩
      · -- a task that has failed stays as it is
        obtain ⟨t, ht, hfailed⟩ := hfailed
        cases t with
        | finished r result => exact .inr ⟨_, finished_mem_taskStep hstep ht, hfailed⟩
        | _ => cases hfailed
    · intro t ht hfailed
      -- a task that had failed before answers for the same call or for the flag
      have hold (ht : t ∈ left ++ task :: right) : ws'.flag.raised = true ∨
          ∃ c ∈ calls ++ new, c.isFine job.graph.nodeCount = false := by
        refine (h.failed t ht hfailed).imp hraised ?_
        rintro ⟨c, hc, hcut⟩
        exact ⟨c, List.mem_append_left _ hc, hcut⟩
      simp only [List.mem_append] at ht
      rcases ht with (hleft | hmoved) | hright
      · exact hold (by simp [hleft])
      · rcases hblame t hmoved hfailed with rfl | hflag | ⟨c, hc, hcut⟩
        · exact hold (by simp)
        · exact .inl hflag
        · exact .inr ⟨c, List.mem_append_right _ hc, hcut⟩
      · exact hold (by simp [hright])
  | raise => exact ⟨calls, h.callsEq, h.fine, fun _ _ _ => .inl rfl⟩
  | idle => exact ⟨calls, h⟩

/-- After any moves the tasks that failed answer for a call or for the flag. -/
theorem answers_moves {ws : Workspace α} (h : ws.Serves job) (moves : List Move) :
    ∃ calls, Answers job phase s ws calls
      (moves.foldl (move job phase s) (phaseStart job ws)).1
      (moves.foldl (move job phase s) (phaseStart job ws)).2 := by
  have hstart : Answers job phase s ws [] (phaseStart job ws).1 (phaseStart job ws).2 := by
    refine ⟨(List.append_nil _).symm, .inl (List.forall_mem_nil _), fun t ht hfailed => ?_⟩
    obtain ⟨r, -, rfl⟩ := List.mem_map.mp ht
    cases hfailed
  have hfirst : (∃ dropped, PhaseInv job phase s (phaseStart job ws).2 [] dropped
      (phaseStart job ws).1 (phaseStart job ws).2) ∧ ∃ calls, Answers job phase s ws calls
        (phaseStart job ws).1 (phaseStart job ws).2 := ⟨⟨[], phaseInv_start ws⟩, [], hstart⟩
  -- what is ahead lies inside the graph, which the invariant of the phase knows
  obtain ⟨-, calls, hanswers⟩ := moves_induction (P := fun visited x =>
      (∃ dropped, PhaseInv job phase s (phaseStart job ws).2 visited dropped x.1 x.2) ∧
        ∃ calls, Answers job phase s ws calls x.1 x.2)
    (fun visited x _ y ⟨⟨dropped, hphase⟩, calls, hanswers⟩ hmove => by
      obtain ⟨hserves, -⟩ := hphase.traverses.serves (h.congr rfl rfl rfl)
      refine ⟨hphase.move hmove, hanswers.move hserves (fun t ht v hv => ?_) hmove⟩
      rw [← List.mem_range, ← hphase.covered.mem_iff]
      exact List.mem_append_right _ (List.mem_flatMap.mpr ⟨t, ht, hv⟩))
    hfirst moves
  exact ⟨calls, hanswers⟩

/-- A phase that nobody stops succeeds exactly if all its calls do. -/
theorem runPhase_ok_iff {ws : Workspace α} (h : ws.Serves job) (schedule : Schedule) :
    ∃ calls, (ws.runPhase job schedule phase s).2.journal.calls phase
        = ws.journal.calls phase ++ calls ∧
      ((ws.runPhase job schedule phase s).1 = .ok () →
        ∀ c ∈ calls, c.isFine job.graph.nodeCount = true) ∧
      ((ws.runPhase job schedule phase s).2.flag.raised = false →
        (∀ c ∈ calls, c.isFine job.graph.nodeCount = true) →
          (ws.runPhase job schedule phase s).1 = .ok ()) := by
  obtain ⟨moves, results, -, hmoves, hcombine⟩ := @runPhase_moves _ job phase s schedule ws
  obtain ⟨calls, hanswers⟩ := @answers_moves _ job phase s ws h moves
  rw [hmoves] at hanswers
  refine ⟨calls, hanswers.callsEq, fun hok => hanswers.fine.resolve_right ?_, fun hflag hall => ?_⟩
  · -- in a phase that succeeded no task has failed
    rintro ⟨t, ht, hfailed⟩
    obtain ⟨⟨r, result⟩, hr, rfl⟩ := List.mem_map.mp ht
    rw [hcombine, combine_eq_ok_iff] at hok
    rw [Task.hasFailed, hok result (List.mem_map_of_mem hr)] at hfailed
    cases hfailed
  · rw [hcombine, combine_eq_ok_iff]
    intro result hresult
    obtain ⟨⟨r, result⟩, hr, rfl⟩ := List.mem_map.mp hresult
    -- a task that did not complete would answer for a call, or for the flag
    by_contra hne
    have hfailed : (Task.finished r result).hasFailed = true := by
      rw [Task.hasFailed]
      exact bne_iff_ne.mpr hne
    rcases hanswers.failed _ (List.mem_map_of_mem (f := fun r => Task.finished r.1 r.2) hr) hfailed
      with hraised | ⟨c, hc, hcut⟩
    · rw [hflag] at hraised
      cases hraised
    · rw [hall c hc] at hcut
      cases hcut

/-- The calls of a superstep that ended without failure were carried out in full. -/
theorem succeeded_of_superstep {schedule : Schedule} {ws ws' : Workspace α} {control : Control}
    (h : ws.Serves job) (hsuperstep : ws.superstep job schedule s = (.ok control, ws')) :
    ∃ calls, ws'.journal.calls .compute = ws.journal.calls .compute ++ calls ∧
      ∀ c ∈ calls, c.succeeded job.graph.nodeCount = true := by
  have hprepared : ((ws.transition (.running s)).prepare s).Serves job :=
    ((h.opened s).1).congr rfl rfl rfl
  obtain ⟨calls, hcalls, hfine, -⟩ := @runPhase_ok_iff _ job .compute s _ hprepared schedule
  rw [superstep] at hsuperstep
  dsimp only at hsuperstep
  -- the superstep succeeds only if its phase and the program's step do
  rcases hphase : ((ws.transition (.running s)).prepare s).runPhase job schedule .compute s
    with ⟨stop | _, ws₁⟩ <;> rw [hphase] at hsuperstep hcalls hfine
  · cases hsuperstep
  · dsimp only at hsuperstep hcalls hfine
    rcases hmaster : masterCompute job s (ws₁.transition (.masterComputing s))
      with ⟨stop | control', ws₂⟩ <;> rw [hmaster] at hsuperstep
    · cases hsuperstep
    · cases hsuperstep
      have hopened := (journal_opened ws s).1 .compute
      refine ⟨calls, ?_, fun c hc => ?_⟩
      · rw [(finishes_of_masterCompute hmaster).calls, hcalls]
        exact congrArg (· ++ calls) hopened
      · have hcompute : c.phase = .compute :=
          Journal.phase_of_mem_calls (hcalls ▸ List.mem_append_right _ hc)
        have hall := hfine rfl c hc
        rwa [Call.isFine, hcompute] at hall

end Workspace

end Superstep
