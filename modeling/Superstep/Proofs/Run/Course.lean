import Mathlib
import Superstep.Proofs.Run.Milestones

/-!
# The course of a phase

From its first move on, the tasks of a phase tile the vertices in ascending order (`Laid`), and what
the journal says of the phase can be read off them (`Logged`): every worker that is done has left a
record, and a worker has failed exactly if a call of one of its vertices answered with an error, or
if the worker saw the flag raised. At the end the tasks are the results of the phase, and the first
of them that failed says how the phase ends.

## Key results

- `Workspace.laid_moves`, `Workspace.logged_moves`: both invariants hold after any moves
- `Workspace.combine_cases`: a phase ends as the leftmost worker that failed, unless one was broken
  off
- `Workspace.visits_subperm`: what may still be visited once a mark is set
- `Workspace.Enters`: the phases of a run
-/

namespace Superstep

variable {α : Type}

/-! ## The ranges that are handed out -/

namespace Computer

/-- The halves of a range are shorter than the range. -/
theorem halves?_shorter {c : Computer} {r a b : VertexRange} (h : c.halves? r = some (a, b)) :
    a.length < r.length ∧ b.length < r.length := by
  have hsplit : c.split? false r = some (a, b) := h
  exact split?_shorter hsplit

/-- The ranges that a range is cut into when every halving is made. -/
def pieces (c : Computer) (r : VertexRange) : List VertexRange :=
  match h : c.halves? r with
  | some (a, b) =>
    have := halves?_shorter h
    c.pieces a ++ c.pieces b
  | none => [r]
termination_by r.length

/-- A range that has halves is cut into the pieces of both. -/
theorem pieces_of_some {c : Computer} {r a b : VertexRange} (h : c.halves? r = some (a, b)) :
    c.pieces r = c.pieces a ++ c.pieces b := by
  rw [pieces]
  split
  · rename_i h'
    obtain ⟨rfl, rfl⟩ := Prod.mk.inj (Option.some.inj (h'.symm.trans h))
    rfl
  · rename_i h'
    rw [h] at h'
    cases h'

/-- A range without halves is one piece. -/
theorem pieces_of_none {c : Computer} {r : VertexRange} (h : c.halves? r = none) :
    c.pieces r = [r] := by
  rw [pieces]
  split
  · rename_i h'
    rw [h] at h'
    cases h'
  · rfl

/-- The ranges that the workers of a phase over `n` vertices are handed when none of them fails. -/
def handedOut (c : Computer) (n : Nat) : List VertexRange := (c.ranges n).flatMap c.pieces

/-- What a range is split into are its halves. -/
theorem halves?_of_split? {c : Computer} {aborted : Bool} {r a b : VertexRange}
    (h : c.split? aborted r = some (a, b)) : c.halves? r = some (a, b) := by
  unfold split? at h
  split at h
  · cases h
  · exact h

/-- A range is not split if there are no halves, or if a worker has failed. -/
theorem split?_eq_none {c : Computer} {aborted : Bool} {r : VertexRange}
    (h : c.split? aborted r = none) : c.halves? r = none ∨ aborted = true := by
  unfold split? at h
  split at h
  · rename_i haborted
    exact .inr haborted
  · exact .inl h

end Computer

/-! ## Tasks and records -/

namespace Task

/-- The vertices that a task is about. -/
def range : Task → VertexRange
  | .waiting r | .running r _ | .visiting r _ _ | .finished r _ => r

/-- What the worker of a task leaves in the log when it is done. -/
def record? (phase : Phase) (s : Nat) : Task → Option Journal.FinishedStep
  | .finished r .completed => some ⟨phase, s, r, true⟩
  | .finished r (.failed _) => some ⟨phase, s, r, false⟩
  | .finished _ (.violated _) | .waiting _ | .running _ _ | .visiting _ _ _ => none

/-- A worker only visits vertices of a range that no halving is left for, and only such a worker
fails. -/
def IsSound (c : Computer) (aborted : Bool) : Task → Prop
  | .waiting _ | .finished _ .completed => True
  | .running r _ => c.halves? r = none ∨ aborted = true
  | .visiting r _ _ => c.halves? r = none
  | .finished r _ => c.halves? r = none ∧ 0 < r.length

/-- A task that is sound stays so when a worker fails. -/
theorem IsSound.abort {c : Computer} {aborted aborted' : Bool} {t : Task} (h : t.IsSound c aborted)
    (haborted : aborted = true → aborted' = true) : t.IsSound c aborted' := by
  cases t with
  | waiting r => trivial
  | running r position => exact h.imp id haborted
  | visiting r position inside => exact h
  | finished r result => cases result <;> exact h

end Task

/-- The source of the error that the program answered a call with, if it did. -/
def Call.error? (c : Call α) : Option String :=
  match c.reply.outcome with
  | .error (.error source) => some source
  | _ => none

/-- The record that an event is, if it is one. -/
def Event.finishedStep? : Event α → Option Journal.FinishedStep
  | .stepFinished phase superstep vertices ok => some ⟨phase, superstep, vertices, ok⟩
  | _ => none

/-- An event adds the record that it is, if it is one. -/
theorem Journal.finishedSteps_push (j : Journal α) (e : Event α) :
    finishedSteps (j.push e) = j.finishedSteps ++ e.finishedStep?.toList := by
  have heq (j : Journal α) : j.finishedSteps = j.toList.filterMap Event.finishedStep? := rfl
  rw [heq, heq, Array.toList_push, List.filterMap_append]
  cases h : e.finishedStep? <;> simp [h]

namespace Workspace

variable {job : Job α} {phase : Phase} {s : Nat}

/-! ## The tasks tile the vertices -/

/-- The tasks of a phase lie side by side. -/
structure Laid (job : Job α) (tasks : List Task) (ws : Workspace α) : Prop where
  tiled : tasks.flatMap (·.range.toList) = List.range job.graph.nodeCount
  handedOut : ∀ t ∈ tasks, ∀ r ∈ job.computer.pieces t.range,
    r ∈ job.computer.handedOut job.graph.nodeCount
  sound : ∀ t ∈ tasks, t.IsSound job.computer ws.aborted

/-- A step that leaves one task, with the same range, leaves the vertices where they are and hands
out what was handed out before. -/
private theorem laid_of_range_eq {c : Computer} {aborted : Bool} {task t : Task}
    (hrange : t.range = task.range) (hsound : t.IsSound c aborted) :
    [t].flatMap (·.range.toList) = task.range.toList ∧
      [t].flatMap (c.pieces ·.range) = c.pieces task.range ∧ ∀ t' ∈ [t], t'.IsSound c aborted := by
  refine ⟨?_, ?_, fun t' ht' => List.mem_singleton.mp ht' ▸ hsound⟩
  · rw [List.flatMap_singleton, hrange]
  · rw [List.flatMap_singleton, hrange]

/-- A step leaves the vertices of its task where they are, and hands out what may be handed out. -/
theorem laid_taskStep {task : Task} {moved : List Task} {ws ws' : Workspace α}
    (hstep : TaskStep job phase s task ws moved ws')
    (hsound : task.IsSound job.computer ws.aborted) :
    moved.flatMap (·.range.toList) = task.range.toList ∧
      moved.flatMap (job.computer.pieces ·.range) = job.computer.pieces task.range ∧
      ∀ t ∈ moved, t.IsSound job.computer ws'.aborted := by
  -- only halving changes the range, in all other steps the question is what the worker may do
  cases hstep with
  | halve h =>
    have hhalves := Computer.halves?_of_split? h
    refine ⟨?_, ?_, ?_⟩
    · simp [Task.range, Computer.toList_of_halves? hhalves]
    · simp [Task.range, Computer.pieces_of_some hhalves]
    · simp [Task.IsSound]
  | start h => exact laid_of_range_eq rfl (Computer.split?_eq_none h)
  | complete h | giveUp h haborted => exact laid_of_range_eq rfl trivial
  | observe h haborted hpoll hflag =>
    have hwhole := hsound.resolve_right (by simp [haborted])
    exact laid_of_range_eq rfl ⟨hwhole, Nat.zero_lt_of_lt h⟩
  | enter h haborted hpoll =>
    exact laid_of_range_eq rfl (hsound.resolve_right (by simp [haborted]))
  | visit h hvisit => exact laid_of_range_eq rfl (.inl hsound)
  | fail h hvisit | violate h hvisit =>
    exact laid_of_range_eq rfl ⟨hsound, Nat.zero_lt_of_lt h⟩
  | rest => exact laid_of_range_eq rfl hsound

/-- The tasks still lie side by side after a move. -/
theorem Laid.move {x y : List Task × Workspace α} {v? : Option Nat} (h : Laid job x.1 x.2)
    (hmove : MoveStep job phase s x v? y) : Laid job y.1 y.2 := by
  cases hmove with
  | @work left task right moved ws ws' hstep =>
    obtain ⟨htiled, hpieces, hmoved⟩ := laid_taskStep hstep (h.sound task (by simp))
    refine ⟨?_, ?_, ?_⟩
    · -- the task that moved is replaced by tasks over the same vertices
      have hall := h.tiled
      simp only [List.flatMap_append, List.flatMap_cons, htiled, List.append_assoc] at hall ⊢
      exact hall
    · intro t ht r hr
      simp only [List.mem_append] at ht
      rcases ht with (hleft | hnew) | hright
      · exact h.handedOut t (by simp [hleft]) r hr
      · -- its pieces are some of those of the task that moved
        refine h.handedOut task (by simp) r ?_
        rw [← hpieces]
        exact List.mem_flatMap.mpr ⟨t, hnew, hr⟩
      · exact h.handedOut t (by simp [hright]) r hr
    · intro t ht
      simp only [List.mem_append] at ht
      rcases ht with (hleft | hnew) | hright
      · -- the tasks that stay only notice the abort mark
        exact (h.sound t (by simp [hleft])).abort (taskStep_mono hstep).1
      · exact hmoved t hnew
      · exact (h.sound t (by simp [hright])).abort (taskStep_mono hstep).1
  | raise => exact ⟨h.tiled, h.handedOut, h.sound⟩
  | idle => exact h

/-- The tasks of a phase lie side by side before its first move. -/
theorem laid_start (job : Job α) (ws : Workspace α) :
    Laid job (phaseStart job ws).1 (phaseStart job ws).2 where
  tiled := by
    rw [phaseStart, List.flatMap_map]
    exact job.computer.flatMap_toList_ranges job.graph.nodeCount
  handedOut t ht r hr := by
    obtain ⟨r', hr', rfl⟩ := List.mem_map.mp ht
    exact List.mem_flatMap.mpr ⟨r', hr', hr⟩
  sound t ht := by
    obtain ⟨r, -, rfl⟩ := List.mem_map.mp ht
    trivial

/-- The tasks lie side by side after any moves. -/
theorem laid_moves (ws : Workspace α) (moves : List Move) :
    Laid job (moves.foldl (move job phase s) (phaseStart job ws)).1
      (moves.foldl (move job phase s) (phaseStart job ws)).2 :=
  moves_keep (P := fun x => Laid job x.1 x.2) (fun _ _ _ h hmove => h.move hmove)
    (laid_start job ws) moves

/-! ## What the journal says of the tasks -/

/-- What a step of a task adds to the journal: the calls `new` and the records `added`. If a call
answers with an error its task fails, and a task fails because of a call or the flag. -/
structure StepLog (phase : Phase) (s : Nat) (task : Task) (ws : Workspace α) (moved : List Task)
    (ws' : Workspace α) (new : List (Call α)) (added : List Journal.FinishedStep) : Prop where
  callsEq : ws'.journal.calls phase = ws.journal.calls phase ++ new
  stepsEq : ws'.journal.finishedSteps = ws.journal.finishedSteps ++ added
  recorded : moved.filterMap (Task.record? phase s) = (task.record? phase s).toList ++ added
  superstep : (phase = .init → s = 0) → ∀ c ∈ new, c.superstep = s
  erring : ∀ c ∈ new, ∀ source, c.error? = some source → c.vertex ∈ task.range.toList ∧
    (.finished task.range (.failed (.computation phase s task.range source)) ∈ moved ∨
      ∃ v, .finished task.range (.violated v) ∈ moved)
  failed : ∀ r e, .finished r (.failed e) ∈ moved → .finished r (.failed e) = task ∨
    ws'.aborted = true ∧ (e = .terminated s ∧ ws'.flag.raised = true ∨
      ∃ source, e = .computation phase s r source ∧
        ∃ c ∈ new, c.error? = some source ∧ c.vertex ∈ r.toList)

/-- A visit that logs a call adds it to the calls of the phase, and no record. -/
theorem Logs.journal_calls {v : Nat} {c : Call α} {ws : Workspace α}
    {out : Except Fault Unit × Workspace α} (h : Logs phase s v c ws out) :
    out.2.journal.calls phase = ws.journal.calls phase ++ [c] ∧
      out.2.journal.finishedSteps = ws.journal.finishedSteps := by
  rw [h.journal, Journal.calls_push, Journal.finishedSteps_push, Event.call?, if_pos h.phase]
  exact ⟨rfl, List.append_nil _⟩

/-- A call that ends without a fault answers without an error. -/
theorem Logs.error?_eq_none {v : Nat} {c : Call α} {ws ws' : Workspace α}
    (h : Logs phase s v c ws (.ok (), ws')) : c.error? = none := by
  rcases h.outcome with houtcome | ⟨violation, houtcome⟩
  · rw [Call.error?, ← houtcome]
  · cases houtcome

/-- A call that ends with an error of the program has answered with it. -/
theorem Logs.error?_eq_some {v : Nat} {c : Call α} {ws ws' : Workspace α} {source : String}
    (h : Logs phase s v c ws (.error (.error source), ws')) : c.error? = some source := by
  rcases h.outcome with houtcome | ⟨violation, houtcome⟩
  · rw [Call.error?, ← houtcome]
  · cases houtcome

/-- Every position within a range is one of its vertices. -/
theorem VertexRange.mem_toList {r : VertexRange} {position : Nat} (h : position < r.length) :
    r.start + position ∈ r.toList := by
  rw [VertexRange.toList, List.mem_range'_1]
  omega

/-- A step without a call at most adds the record of its worker. If it fails its worker, that is
because of the flag. -/
theorem StepLog.of_quiet {task : Task} {moved : List Task} {ws ws' : Workspace α}
    {added : List Journal.FinishedStep}
    (hcalls : ws'.journal.calls phase = ws.journal.calls phase)
    (hsteps : ws'.journal.finishedSteps = ws.journal.finishedSteps ++ added)
    (hrecorded : moved.filterMap (Task.record? phase s) = (task.record? phase s).toList ++ added)
    (hfailed : ∀ r e, .finished r (.failed e) ∈ moved → .finished r (.failed e) = task ∨
      ws'.aborted = true ∧ e = .terminated s ∧ ws'.flag.raised = true) :
    StepLog phase s task ws moved ws' [] added where
  callsEq := hcalls.trans (List.append_nil _).symm
  stepsEq := hsteps
  recorded := hrecorded
  superstep _ := List.forall_mem_nil _
  erring := List.forall_mem_nil _
  failed r e hmem := (hfailed r e hmem).imp_right (And.imp_right .inl)

/-- A worker that is on a vertex and calls it adds the call. If the call answers with an error the
worker fails because of it, or is broken off. -/
theorem StepLog.of_call {r : VertexRange} {position : Nat} (h : position < r.length) {c : Call α}
    {out : Except Fault Unit} {moved : List Task} {ws ws₁ ws' : Workspace α}
    {added : List Journal.FinishedStep} (hlogs : Logs phase s (r.start + position) c ws (out, ws₁))
    (hcalls : ws'.journal.calls phase = ws₁.journal.calls phase)
    (hsteps : ws'.journal.finishedSteps = ws₁.journal.finishedSteps ++ added)
    (hrecorded : moved.filterMap (Task.record? phase s) = added)
    (herring : ∀ source, c.error? = some source →
      .finished r (.failed (.computation phase s r source)) ∈ moved ∨
        ∃ v, .finished r (.violated v) ∈ moved)
    (hfailed : ∀ r' e, .finished r' (.failed e) ∈ moved → ws'.aborted = true ∧ r' = r ∧
      ∃ source, e = .computation phase s r source ∧ c.error? = some source) :
    StepLog phase s (.visiting r position h) ws moved ws' [c] added := by
  obtain ⟨hcalled, hsame⟩ := hlogs.journal_calls
  -- the vertex that is called is the one that the worker is on
  have hvertex : c.vertex ∈ r.toList := hlogs.vertex ▸ VertexRange.mem_toList h
  refine ⟨hcalls.trans hcalled, hsame ▸ hsteps, hrecorded, ?_, ?_, ?_⟩
  · simpa using hlogs.superstep
  · intro c' hc' source hsource
    rw [List.mem_singleton.mp hc'] at hsource ⊢
    exact ⟨hvertex, herring source hsource⟩
  · intro r' e hmem
    obtain ⟨haborted, rfl, source, rfl, herror⟩ := hfailed r' e hmem
    exact .inr ⟨haborted, .inr ⟨source, rfl, c, List.mem_singleton_self c, herror, hvertex⟩⟩

/-- Every step of a task adds to the journal what `StepLog` says: nothing, a record, a call, or
both. -/
theorem stepLog_of_taskStep {task : Task} {moved : List Task} {ws ws' : Workspace α}
    (hstep : TaskStep job phase s task ws moved ws') :
    ∃ new added, StepLog phase s task ws moved ws' new added := by
  -- a worker that goes over a vertex calls it at most once
  have hvisited {v : Nat} {out : Except Fault Unit × Workspace α}
      (hvisit : ws.visit job phase s v = out) :
      out = (.ok (), ws) ∨ ∃ c, Logs phase s v c ws out := by
    rw [← hvisit]
    exact (keeps_visit job phase s v ws).2.imp (·.2) (·.2)
  cases hstep with
  | halve h | start h | enter h =>
    exact ⟨[], [], .of_quiet rfl (List.append_nil _).symm rfl (by simp)⟩
  | @complete r position _ h | @giveUp r position _ h haborted =>
    exact ⟨[], [⟨phase, s, r, true⟩], .of_quiet (calls_note ws r true phase)
      (Journal.finishedSteps_push _ _) rfl (by simp)⟩
  | @observe r position _ h haborted hpoll hflag =>
    refine ⟨[], [⟨phase, s, r, false⟩], .of_quiet
      (calls_note { ws with aborted := true } r false phase) (Journal.finishedSteps_push _ _) rfl
      fun r' e hmem => ?_⟩
    cases List.mem_singleton.mp hmem
    exact .inr ⟨rfl, rfl, hflag⟩
  | @rest r result _ =>
    refine ⟨[], [], .of_quiet rfl (List.append_nil _).symm ?_ fun r' e hmem => ?_⟩
    · cases result <;> rfl
    · exact .inl (List.mem_singleton.mp hmem)
  -- in the cases that are left the worker is on a vertex, which it calls unless it is asleep
  | @visit r position _ _ h hvisit =>
    rcases hvisited hvisit with hasleep | ⟨c, hlogs⟩
    · cases hasleep
      exact ⟨[], [], .of_quiet rfl (List.append_nil _).symm rfl (by simp)⟩
    · exact ⟨[c], [], .of_call h hlogs rfl (List.append_nil _).symm rfl
        (by simp [hlogs.error?_eq_none]) (by simp)⟩
  | @fail r position _ ws₁ source h hvisit =>
    rcases hvisited hvisit with hasleep | ⟨c, hlogs⟩
    · cases hasleep
    · refine ⟨[c], [⟨phase, s, r, false⟩], .of_call h hlogs
        (calls_note { ws₁ with aborted := true } r false phase) (Journal.finishedSteps_push _ _) rfl
        (fun source' hsource => ?_) fun r' e hmem => ?_⟩
      · cases hsource.symm.trans hlogs.error?_eq_some
        exact .inl (List.mem_singleton_self _)
      · cases List.mem_singleton.mp hmem
        exact ⟨rfl, rfl, source, rfl, hlogs.error?_eq_some⟩
  | @violate r position _ _ violation h hvisit =>
    rcases hvisited hvisit with hasleep | ⟨c, hlogs⟩
    · cases hasleep
    · exact ⟨[c], [], .of_call h hlogs rfl (List.append_nil _).symm rfl
        (fun _ _ => .inr ⟨violation, List.mem_singleton_self _⟩) (by simp)⟩

/-- What the journal says of a phase with these calls and records. -/
structure Logged (phase : Phase) (s : Nat) (ws₀ : Workspace α) (calls : List (Call α))
    (steps : List Journal.FinishedStep) (tasks : List Task) (ws : Workspace α) : Prop where
  callsEq : ws.journal.calls phase = ws₀.journal.calls phase ++ calls
  stepsEq : ws.journal.finishedSteps = ws₀.journal.finishedSteps ++ steps
  recorded : steps.Perm (tasks.filterMap (Task.record? phase s))
  superstep : (phase = .init → s = 0) → ∀ c ∈ calls, c.superstep = s
  erring : ∀ c ∈ calls, ∀ source, c.error? = some source → ∃ r : VertexRange, c.vertex ∈ r.toList ∧
    (.finished r (.failed (.computation phase s r source)) ∈ tasks ∨
      ∃ v, .finished r (.violated v) ∈ tasks)
  failed : ∀ r e, .finished r (.failed e) ∈ tasks →
    ws.aborted = true ∧ (e = .terminated s ∧ ws.flag.raised = true ∨
      ∃ source, e = .computation phase s r source ∧
        ∃ c ∈ calls, c.error? = some source ∧ c.vertex ∈ r.toList)

/-- The records of the workers that are done only differ in the task that moved. -/
private theorem recorded_step {steps added : List Journal.FinishedStep}
    {left right moved : List Task} {task : Task}
    (h : steps.Perm ((left ++ task :: right).filterMap (Task.record? phase s)))
    (hadded : moved.filterMap (Task.record? phase s) = (task.record? phase s).toList ++ added) :
    (steps ++ added).Perm ((left ++ moved ++ right).filterMap (Task.record? phase s)) := by
  -- at most one record is that of the task that moved
  have hsplit : (left ++ task :: right).filterMap (Task.record? phase s)
      = left.filterMap (Task.record? phase s) ++ ((task.record? phase s).toList
        ++ right.filterMap (Task.record? phase s)) := by
    rw [List.filterMap_append, List.filterMap_cons]
    cases task.record? phase s <;> rfl
  rw [hsplit, List.perm_iff_count] at h
  rw [List.filterMap_append, List.filterMap_append, hadded, List.perm_iff_count]
  intro record
  have hcount := h record
  simp only [List.count_append] at hcount ⊢
  omega

/-- The reason for which a worker has failed stays one: marks are not taken away, and calls are not
forgotten. -/
private theorem reason_mono {ws ws' : Workspace α} {calls calls' : List (Call α)} {r : VertexRange}
    {e : RunError}
    (hmono : (ws.aborted = true → ws'.aborted = true) ∧
      (ws.flag.raised = true → ws'.flag.raised = true)) (hcalls : calls ⊆ calls')
    (h : ws.aborted = true ∧ (e = .terminated s ∧ ws.flag.raised = true ∨
      ∃ source, e = .computation phase s r source ∧
        ∃ c ∈ calls, c.error? = some source ∧ c.vertex ∈ r.toList)) :
    ws'.aborted = true ∧ (e = .terminated s ∧ ws'.flag.raised = true ∨
      ∃ source, e = .computation phase s r source ∧
        ∃ c ∈ calls', c.error? = some source ∧ c.vertex ∈ r.toList) := by
  obtain ⟨haborted, ⟨he, hraised⟩ | ⟨source, he, c, hc, hcall⟩⟩ := h
  · exact ⟨hmono.1 haborted, .inl ⟨he, hmono.2 hraised⟩⟩
  · exact ⟨hmono.1 haborted, .inr ⟨source, he, c, hcalls hc, hcall⟩⟩

/-- The journal speaks of the tasks after a step of one of them. -/
theorem Logged.step {ws₀ ws ws' : Workspace α} {calls : List (Call α)}
    {steps : List Journal.FinishedStep} {left right moved : List Task} {task : Task}
    (h : Logged phase s ws₀ calls steps (left ++ task :: right) ws)
    (hstep : TaskStep job phase s task ws moved ws') :
    ∃ calls' steps', Logged phase s ws₀ calls' steps' (left ++ moved ++ right) ws' := by
  obtain ⟨new, added, hlog⟩ := stepLog_of_taskStep hstep
  have hkept {r : VertexRange} {result : StepResult} :
      .finished r result ∈ left ++ task :: right → .finished r result ∈ left ++ moved ++ right :=
    finished_mem_taskStep hstep
  have hin {t : Task} (ht : t ∈ moved) : t ∈ left ++ moved ++ right := by simp [ht]
  refine ⟨calls ++ new, steps ++ added, ?_, ?_, recorded_step h.recorded hlog.recorded, ?_, ?_, ?_⟩
  · rw [hlog.callsEq, h.callsEq, List.append_assoc]
  · rw [hlog.stepsEq, h.stepsEq, List.append_assoc]
  · intro hinit c hc
    rcases List.mem_append.mp hc with hold | hnew
    · exact h.superstep hinit c hold
    · exact hlog.superstep hinit c hnew
  · -- a call that was made before has its worker among the tasks that stay, a new one among `moved`
    intro c hc source hsource
    rcases List.mem_append.mp hc with hold | hnew
    · obtain ⟨r, hr, hfailed⟩ := h.erring c hold source hsource
      exact ⟨r, hr, hfailed.imp hkept fun ⟨v, hv⟩ => ⟨v, hkept hv⟩⟩
    · obtain ⟨hr, hfailed⟩ := hlog.erring c hnew source hsource
      exact ⟨task.range, hr, hfailed.imp hin fun ⟨v, hv⟩ => ⟨v, hin hv⟩⟩
  · intro r e hmem
    -- a failure that was there before stays, with its reason
    have hold (hmem : .finished r (.failed e) ∈ left ++ task :: right) :=
      reason_mono (taskStep_mono hstep) (List.subset_append_left calls new) (h.failed r e hmem)
    simp only [List.mem_append] at hmem
    rcases hmem with (hleft | hmoved) | hright
    · exact hold (by simp [hleft])
    · rcases hlog.failed r e hmoved with htask | hreason
      · exact hold (by simp [htask])
      · exact reason_mono ⟨id, id⟩ (List.subset_append_right calls new) hreason
    · exact hold (by simp [hright])

/-- The journal speaks of the tasks after a move. -/
theorem Logged.move {ws₀ : Workspace α} {calls : List (Call α)} {steps : List Journal.FinishedStep}
    {x y : List Task × Workspace α} {v? : Option Nat} (h : Logged phase s ws₀ calls steps x.1 x.2)
    (hmove : MoveStep job phase s x v? y) :
    ∃ calls' steps', Logged phase s ws₀ calls' steps' y.1 y.2 := by
  cases hmove with
  | work hstep => exact h.step hstep
  | @raise tasks ws =>
    refine ⟨calls, steps, h.callsEq, h.stepsEq, h.recorded, h.superstep, h.erring, ?_⟩
    intro r e hmem
    exact @reason_mono _ _ _ ws _ _ _ _ _ ⟨id, fun _ => rfl⟩ (List.Subset.refl calls)
      (h.failed r e hmem)
  | idle => exact ⟨calls, steps, h⟩

/-- The journal speaks of the tasks after any moves. -/
theorem logged_moves (ws : Workspace α) (moves : List Move) :
    ∃ calls steps, Logged phase s ws calls steps
      (moves.foldl (move job phase s) (phaseStart job ws)).1
      (moves.foldl (move job phase s) (phaseStart job ws)).2 := by
  refine moves_keep (P := fun x => ∃ calls steps, Logged phase s ws calls steps x.1 x.2)
    (fun _ _ _ ⟨_, _, h⟩ hmove => h.move hmove) ⟨[], [], ?_⟩ moves
  -- at the start every task waits, so there is nothing to speak of
  have hnone : (phaseStart job ws).1.filterMap (Task.record? phase s) = [] := by
    rw [List.filterMap_eq_nil_iff]
    intro t ht
    obtain ⟨r, -, rfl⟩ := List.mem_map.mp ht
    rfl
  refine ⟨(List.append_nil _).symm, (List.append_nil _).symm, by rw [hnone], by simp, by simp, ?_⟩
  intro r e hmem
  obtain ⟨r', -, heq⟩ := List.mem_map.mp hmem
  cases heq

/-! ## How a phase ends -/

/-- How a phase with these results ends: whoever was broken off comes first, then the leftmost
worker that failed. -/
inductive Concludes (results : Results) : Except Stop Unit → Prop
  | brokenOff {r v} (h : (r, .violated v) ∈ results) : Concludes results (.error (.violation v))
  | failed {r e} (hwhole : ∀ r v, (r, .violated v) ∉ results) (h : (r, .failed e) ∈ results)
      (hleast : ∀ r' e', (r', .failed e') ∈ results → r.start ≤ r'.start) :
    Concludes results (.error (.error e))
  | succeeded (h : ∀ x ∈ results, x.2 = .completed) : Concludes results (.ok ())

/-- Finished tasks and their results tell the same. -/
theorem mem_finishedTasks {results : Results} {r : VertexRange} {result : StepResult} :
    .finished r result ∈ finishedTasks results ↔ (r, result) ∈ results := by
  simp [finishedTasks]

/-- No vertex belongs to two tasks. -/
theorem Laid.eq_of_mem {tasks : List Task} {ws : Workspace α} (h : Laid job tasks ws)
    {t t' : Task} (ht : t ∈ tasks) (ht' : t' ∈ tasks) {v : Nat} (hv : v ∈ t.range.toList)
    (hv' : v ∈ t'.range.toList) : t = t' := by
  -- the vertices of all tasks are those of the graph, each once
  have hdistinct : (tasks.flatMap (·.range.toList)).Nodup := h.tiled ▸ List.nodup_range
  have hdisjoint := (List.nodup_flatMap.mp hdistinct).2
  have hsymm : Std.Symm (Function.onFun List.Disjoint fun t : Task => t.range.toList) :=
    ⟨fun _ _ hab => hab.symm⟩
  by_contra hne
  exact hdisjoint.forall ht ht' hne hv hv'

/-- Of two workers whose ranges are not empty, the one on the left starts first. -/
theorem Laid.start_lt {before after : Results} {r r' : VertexRange} {x x' : StepResult}
    {ws : Workspace α} (h : Laid job (finishedTasks (before ++ (r, x) :: after)) ws)
    (hafter : (r', x') ∈ after) (hr : 0 < r.length) (hr' : 0 < r'.length) : r.start < r'.start := by
  obtain ⟨between, rest, rfl⟩ := List.append_of_mem hafter
  have hsorted : (List.range job.graph.nodeCount).Pairwise (· < ·) := List.pairwise_lt_range
  rw [← h.tiled] at hsorted
  simp only [finishedTasks, List.map_append, List.map_cons, List.flatMap_append, List.flatMap_cons,
    Task.range] at hsorted
  -- both starts are vertices, and the vertices ascend from left to right
  refine (List.pairwise_append.mp (List.pairwise_append.mp hsorted).2.1).2.2 r.start ?_ r'.start ?_
  · exact VertexRange.mem_toList hr
  · exact List.mem_append_right _ (List.mem_append_left _ (VertexRange.mem_toList hr'))

/-- A worker that has failed was handed a range of vertices that no halving is left for. -/
theorem Laid.of_failed {tasks : List Task} {ws : Workspace α} (h : Laid job tasks ws)
    {r : VertexRange} {result : StepResult} (hmem : .finished r result ∈ tasks)
    (hfailed : result ≠ .completed) :
    r ∈ job.computer.handedOut job.graph.nodeCount ∧ 0 < r.length := by
  have hsound := h.sound _ hmem
  -- a worker that did not go through its range has one that is whole and not empty
  obtain ⟨hwhole, hlength⟩ : job.computer.halves? r = none ∧ 0 < r.length := by
    cases result with
    | completed => exact absurd rfl hfailed
    | _ => exact hsound
  refine ⟨h.handedOut _ hmem r ?_, hlength⟩
  rw [Task.range, Computer.pieces_of_none hwhole]
  exact List.mem_singleton_self r

/-- If nobody on the left of a worker that failed has failed, it starts before all others that
did. -/
theorem Laid.start_le {before after : Results} {r r' : VertexRange} {e e' : RunError}
    {ws : Workspace α} (h : Laid job (finishedTasks (before ++ (r, .failed e) :: after)) ws)
    (hbefore : ∀ x ∈ before, x.2.error? = none)
    (hfailed : (r', .failed e') ∈ before ++ (r, .failed e) :: after) : r.start ≤ r'.start := by
  rcases List.mem_append.mp hfailed with hleft | hmem
  · cases hbefore _ hleft
  · rcases List.mem_cons.mp hmem with heq | hright
    · cases heq
      exact le_rfl
    · have hr := (h.of_failed (mem_finishedTasks.mpr List.mem_append_cons_self) (by simp)).2
      have hr' := (h.of_failed (mem_finishedTasks.mpr hfailed) (by simp)).2
      exact (h.start_lt hright hr hr').le

/-- A phase whose tasks lie side by side ends as its results say: the search from the left finds the
worker that starts first. -/
theorem Laid.concludes {results : Results} {ws : Workspace α}
    (h : Laid job (finishedTasks results) ws) :
    Concludes results (StepResult.combine (results.map Prod.snd)) := by
  unfold StepResult.combine
  split
  · rename_i v hsome
    -- somebody was broken off
    obtain ⟨result, hmem, hresult⟩ := List.exists_of_findSome?_eq_some hsome
    obtain ⟨⟨r, result⟩, hr, rfl⟩ := List.mem_map.mp hmem
    cases result with
    | violated v' =>
      cases hresult
      exact .brokenOff hr
    | _ => cases hresult
  · rename_i hnone
    have hwhole : ∀ r v, (r, .violated v) ∉ results := by
      intro r v hmem
      cases List.findSome?_eq_none_iff.mp hnone _ (List.mem_map_of_mem hmem)
    -- nobody was, so the first error counts if there is one
    split
    · rename_i e hsome
      obtain ⟨before, result, after, hsplit, hresult, hbefore⟩ :=
        List.findSome?_eq_some_iff.mp hsome
      obtain ⟨before, rest, rfl, rfl, hrest⟩ := List.map_eq_append_iff.mp hsplit
      obtain ⟨⟨r, result⟩, after, rfl, rfl, rfl⟩ := List.map_eq_cons_iff.mp hrest
      cases result with
      | failed e' =>
        cases hresult
        refine .failed hwhole List.mem_append_cons_self fun r' e' => ?_
        exact h.start_le fun x hx => hbefore _ (List.mem_map_of_mem hx)
      | _ => cases hresult
    · rename_i hnone'
      refine .succeeded fun ⟨r, result⟩ hmem => ?_
      cases result with
      | completed => rfl
      | failed e => cases List.findSome?_eq_none_iff.mp hnone' _ (List.mem_map_of_mem hmem)
      | violated v => exact absurd hmem (hwhole r v)

/-- The course of a phase under a schedule: moves that finish every task, those of the schedule
first, and what is to be said of their results. -/
structure Course (job : Job α) (schedule : Schedule) (phase : Phase) (s : Nat) (ws : Workspace α)
    (moves : List Move) (results : Results) (calls : List (Call α))
    (steps : List Journal.FinishedStep) : Prop where
  scheduled : schedule phase s <+: moves
  finished : moves.foldl (move job phase s) (phaseStart job ws)
    = (finishedTasks results, (ws.runPhase job schedule phase s).2)
  concludes : Concludes results (ws.runPhase job schedule phase s).1
  laid : Laid job (finishedTasks results) (ws.runPhase job schedule phase s).2
  logged : Logged phase s ws calls steps (finishedTasks results)
    (ws.runPhase job schedule phase s).2

/-- Every phase takes some course. -/
theorem exists_course (schedule : Schedule) (ws : Workspace α) :
    ∃ moves results calls steps, Course job schedule phase s ws moves results calls steps := by
  obtain ⟨moves, results, hscheduled, hmoves, hcombine⟩ :=
    @runPhase_moves _ job phase s schedule ws
  have hlaid := @laid_moves _ job phase s ws moves
  obtain ⟨calls, steps, hlogged⟩ := @logged_moves _ job phase s ws moves
  rw [hmoves] at hlaid hlogged
  exact ⟨moves, results, calls, steps, hscheduled, hmoves, hcombine ▸ hlaid.concludes, hlaid,
    hlogged⟩

/-- A phase that nobody failed in visits every vertex once. -/
theorem Course.perm_visits {schedule : Schedule} {ws : Workspace α} {moves : List Move}
    {results : Results} {calls : List (Call α)} {steps : List Journal.FinishedStep}
    (h : Course job schedule phase s ws moves results calls steps)
    (hcompleted : ∀ x ∈ results, x.2 = .completed) :
    (visits job phase s (phaseStart job ws) moves).Perm (List.range job.graph.nodeCount) := by
  obtain ⟨dropped, hinv⟩ := @phaseInv_moves _ job phase s ws moves
  rw [h.finished] at hinv
  exact hinv.perm_of_completed hcompleted

/-! ## What may still be visited -/

/-- If every step keeps a mark and takes what it visits from what its task may visit, then all that
is visited from a marked workspace on is taken from there. -/
theorem visits_subperm {Q : Workspace α → Prop} {f : Task → List Nat}
    (hraise : ∀ ws, Q ws → Q { ws with flag := ws.flag.raise })
    (hstep : ∀ task ws moved ws', Q ws → TaskStep job phase s task ws moved ws' →
      Q ws' ∧ (task.visits?.toList ++ moved.flatMap f).Subperm (f task))
    {x : List Task × Workspace α} (h : Q x.2) (moves : List Move) :
    (visits job phase s x moves).Subperm (x.1.flatMap f) := by
  have hall : Q (moves.foldl (move job phase s) x).2 ∧
      ([] ++ visits job phase s x moves ++ (moves.foldl (move job phase s) x).1.flatMap f).Subperm
        (x.1.flatMap f) := by
    -- what was visited so far and what may still be visited stays within what could be at first
    refine moves_induction (P := fun vs y => Q y.2 ∧ (vs ++ y.1.flatMap f).Subperm (x.1.flatMap f))
      ?_ ⟨h, List.Subperm.refl _⟩ moves
    rintro vs x' v? y ⟨hmark, hvs⟩ hmove
    cases hmove with
    | @work left task right moved ws ws' htask =>
      obtain ⟨hmark', htaken⟩ := hstep task ws moved ws' hmark htask
      refine ⟨hmark', List.Subperm.trans ?_ hvs⟩
      -- the lists only differ in the task that moved, so their elements are counted
      rw [List.subperm_iff_count] at htaken ⊢
      intro v
      have hcount := htaken v
      simp only [List.flatMap_append, List.flatMap_cons, List.count_append] at hcount ⊢
      omega
    | raise => simpa using ⟨hraise _ hmark, hvs⟩
    | idle => simpa using ⟨hmark, hvs⟩
  rw [List.nil_append] at hall
  exact (List.sublist_append_left _ _).subperm.trans hall.2

/-- Once a worker has failed, every other worker at most finishes the visit that it is on. -/
theorem visits_of_aborted {x : List Task × Workspace α} (h : x.2.aborted = true)
    (moves : List Move) :
    (visits job phase s x moves).Subperm (x.1.filterMap Task.visits?) := by
  have hlists : x.1.filterMap Task.visits? = x.1.flatMap (·.visits?.toList) :=
    List.filterMap_eq_flatMap_toList _ _
  rw [hlists]
  refine visits_subperm (Q := fun ws => ws.aborted = true) (fun ws h => h) ?_ h moves
  intro task ws moved ws' haborted hstep
  refine ⟨(taskStep_mono hstep).1 haborted, ?_⟩
  cases hstep with
  -- no worker goes on to another vertex
  | enter h hnot => cases hnot.symm.trans haborted
  | _ => simp [Task.visits?]

/-! ## The phases of a run -/

/-- The run goes into a phase with the workspace `ws`. -/
inductive Enters (job : Job α) (schedule : Schedule) (ws₀ : Workspace α) :
    Phase → Nat → Workspace α → Prop
  | setUp (hflag : ws₀.flag.raised = false) : Enters job schedule ws₀ .init 0 ws₀
  | compute {s ws} (h : StandsAt job schedule ws₀ s ws) (hs : s < job.config.maxIterations)
      (hflag : ws.flag.raised = false) :
    Enters job schedule ws₀ .compute s ((ws.transition (.running s)).prepare s)

/-- Vertices are only set up in superstep 0. -/
theorem Enters.eq_zero {schedule : Schedule} {ws₀ ws : Workspace α}
    (h : Enters job schedule ws₀ phase s ws) : phase = .init → s = 0 := by
  rintro rfl
  cases h
  rfl

/-- A run ends with the phase that fails. -/
theorem Enters.iterate_of_error {schedule : Schedule} {ws₀ ws ws' : Workspace α} {stop : Stop}
    (h : Enters job schedule ws₀ phase s ws)
    (hphase : ws.runPhase job schedule phase s = (.error stop, ws')) :
    ws₀.iterate job schedule = (.error stop, ws') := by
  cases h with
  | setUp hflag => rw [iterate, hflag, if_neg (by decide), hphase]
  | @compute s ws h hs hflag =>
    -- the superstep that fails is the next one, and none comes after it
    have hleft : job.config.maxIterations - s = job.config.maxIterations - (s + 1) + 1 := by omega
    rw [h.iterate_eq, hleft, supersteps, hflag, if_neg (by decide), superstep, hphase]

end Workspace

/-- What a phase with so many calls that fails leaves of its superstep, of which neither the end of
the computing nor the figures are a part. -/
def Milestone.brokenOff (phase : Phase) (calls s : Nat) : List Milestone :=
  match phase with
  | .init => []
  | .compute => .started s :: List.replicate calls (.called s)

namespace Workspace

variable {job : Job α} {phase : Phase} {s : Nat}

/-- After the supersteps below `s` have taken their course, a phase adds its calls. -/
theorem Enters.milestones {schedule : Schedule} {ws₀ ws : Workspace α}
    (h : Enters job schedule ws₀ phase s ws) (hfresh : ws₀.journal.milestones = []) :
    ∃ (counts : Nat → Nat) (calls : Nat),
      (ws.runPhase job schedule phase s).2.journal.milestones
        = ((List.range s).flatMap fun i => Milestone.course (counts i) i)
          ++ Milestone.brokenOff phase calls s := by
  -- only visits leave milestones within a phase
  obtain ⟨vs, htraverses, -⟩ := @runPhase_traverses _ job phase s schedule ws
  obtain ⟨calls, hcalls, hinit⟩ := htraverses.milestones
  cases h with
  | setUp hflag =>
    -- setting up leaves none
    rw [hinit rfl] at hcalls
    exact ⟨fun _ => 0, 0, hcalls.trans (by simpa [Milestone.brokenOff] using hfresh)⟩
  | @compute s ws h hs hflag =>
    obtain ⟨counts, hcounts⟩ := h.milestones
    refine ⟨counts, calls, hcalls.trans ?_⟩
    have hopened := milestones_opened ws s
    rw [hfresh, List.nil_append] at hcounts
    rw [opened, hcounts] at hopened
    rw [hopened, List.append_assoc]
    rfl

end Workspace

/-- A run whose phase fails reports its error and has failed. -/
theorem Run.execute_of_failed [Scalar α] {graph : Graph α} {config : Config} {program : Program α}
    {flag : Flag} {r : Run α} (hcreate : Run.create graph config program flag = .ok r)
    {schema : Schema α} (hschema : program.schema config = .ok schema) {schedule : Schedule}
    {phase : Phase} {s : Nat} {ws : Workspace α} {stop : Stop}
    (henters : Workspace.Enters r.job schedule (r.opening schema) phase s ws)
    (hstop : (ws.runPhase r.job schedule phase s).1 = .error stop) :
    (r.execute schedule).1 = .error stop ∧ (r.execute schedule).2.state = .failed ∧
      ∃ (counts : Nat → Nat) (calls : Nat), (r.execute schedule).2.journal.milestones
        = ((List.range s).flatMap fun i => Milestone.course (counts i) i)
          ++ Milestone.brokenOff phase calls s := by
  have hiterate : (r.opening schema).iterate r.job schedule
      = (.error stop, (ws.runPhase r.job schedule phase s).2) :=
    henters.iterate_of_error (by rw [← hstop])
  obtain ⟨houtcome, -⟩ := Run.execute_of_schema hcreate hschema schedule
  obtain ⟨hmilestones, hstate⟩ := Run.milestones_execute hcreate hschema schedule
  rw [hiterate] at houtcome hmilestones hstate
  rw [hmilestones]
  exact ⟨houtcome, hstate, henters.milestones (Run.milestones_opening hcreate schema)⟩

end Superstep
