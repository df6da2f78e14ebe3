import Mathlib
import Superstep.Proofs.Run.Transitions

/-!
# The life of a run

Between two requests a run rests, or it was given up. Only a run that rests in its first state can
be executed, and no execution and no release leaves it there, so its program's hooks run in one
request at most. Whatever they do, the run ends in the state that its outcome stands for.

## Key results

- `Run.state_execute`: the state that an execution ends in is that of its outcome
- `Run.lived_perform`: what one request makes of a run
- `lifecycle_of_run`: what any requests make of a run, and what it answers to the next one
-/

namespace Superstep

variable {α : Type}

/-! ## Giving a run up -/

namespace RunState

/-- Nothing leads away from a run that was given up. -/
theorem not_step_released (next : RunState) : ¬Step .released next := by
  intro h
  cases h with
  | fail h => cases h
  | release h => cases h

/-- A run is given up once at most, as the last thing that happens to it. -/
theorem Path.count_released {source state : RunState} {changes : List (RunState × RunState)}
    (h : Path source changes state) (hsource : source ≠ .released) :
    (changes.map Prod.snd).count .released = if state = .released then 1 else 0 := by
  induction h with
  | stay => simp [hsource]
  | @step changes state next _ hstep ih =>
    have hstate : state ≠ .released := by
      rintro rfl
      exact not_step_released next hstep
    rw [List.map_append, List.count_append, ih, if_neg hstate]
    by_cases hnext : next = .released <;> simp [hnext]

end RunState

/-! ## Hooks -/

/-- Whether a hook of the program runs when this is written down: the one that lists its slots, the
one of a vertex, or the one between supersteps. -/
def Event.isHook : Event α → Bool
  | .transition _ .initializing | .transition _ (.masterComputing _) | .call _ => true
  | _ => false

/-- How many hooks of the program have run. -/
def Journal.hooks (j : Journal α) : Nat := j.toList.countP Event.isHook

/-- An event shows at most one hook. -/
theorem Journal.hooks_push (j : Journal α) (e : Event α) :
    Journal.hooks (j.push e) = j.hooks + if e.isHook then 1 else 0 := by
  rw [hooks, hooks, Array.toList_push, List.countP_append, List.countP_singleton]

/-! ## Executing a run -/

/-- The state that an outcome stands for. -/
def Run.outcomeState : Except Stop (RunResult α) → RunState
  | .ok result => if result.didConverge then .converged else .reachedMaxIterations
  | .error _ => .failed

namespace Run

/-- The changes of state that were written down lead to the state that the run is in. -/
def Tracks (r : Run α) : Prop := RunState.Path .created r.journal.changes r.state

/-- A change of state that the automaton allows is kept track of. -/
theorem Tracks.transition {r : Run α} (h : r.Tracks) {next : RunState}
    (hstep : r.state.Step next) : (r.transition next).Tracks := by
  unfold Tracks
  rw [Run.transition, Journal.changes_push]
  exact h.step hstep

/-- What ended well is left in its state, and what failed underway has failed. -/
theorem tracks_conclude {out : Except Stop (RunResult α)} {r : Run α} (h : r.Tracks)
    (hstate : RunState.LeftBy (fun result => outcomeState (.ok result)) out r.state) :
    (conclude (out, r)).2.Tracks ∧
      (conclude (out, r)).1 = out ∧ (conclude (out, r)).2.state = outcomeState out := by
  -- the line that reports the end is no change of state
  have hreported (e : Event α) (he : e.change? = none) :
      ({ r with journal := r.journal.push e } : Run α).Tracks := by
    unfold Tracks
    rw [Journal.changes_push, he, Option.toList_none, List.append_nil]
    exact h
  cases out with
  | ok result => exact ⟨hreported _ rfl, rfl, hstate⟩
  | error stop =>
    cases stop with
    | error e => exact ⟨(hreported (.failed e) rfl).transition (.fail hstate), rfl, rfl⟩
    | violation v =>
      exact ⟨(hreported (.brokenOff r.state) rfl).transition (.fail hstate), rfl, rfl⟩

section Executing

variable {graph : Graph α} {config : Config} {program : Program α} {flag : Flag} {r : Run α}

/-- Whether a run can be created does not depend on its flag. -/
theorem create_withFlag (graph : Graph α) (config : Config) (program : Program α)
    (flag flag' : Flag) : create graph config program flag'
      = (create graph config program flag).map (·.withFlag flag') := by
  unfold create
  split <;> rfl

/-- A run is created in the first state. -/
theorem tracks_of_create (hcreate : create graph config program flag = .ok r) :
    r.Tracks ∧ r.state = .created := by
  obtain ⟨computer, rfl⟩ := of_create hcreate
  exact ⟨.stay, rfl⟩

variable [Scalar α]

/-- The changes of state of an executed run are a way to the state of its outcome. -/
theorem state_execute (hcreate : create graph config program flag = .ok r)
    (schedule : Schedule) :
    (r.execute schedule).2.Tracks ∧
      (r.execute schedule).2.state = outcomeState (r.execute schedule).1 := by
  obtain ⟨htracks, hstate⟩ := tracks_of_create hcreate
  have hstart : (r.transition .initializing).Tracks := by
    refine htracks.transition ?_
    rw [hstate]
    exact .start
  -- an execution is concluded from where its start has led
  obtain ⟨out, last, hlast, hleft, hexecute⟩ : ∃ out last, last.Tracks ∧
      RunState.LeftBy (fun result => outcomeState (.ok result)) out last.state ∧
        r.execute schedule = conclude (out, last) := by
    cases hschema : program.schema config with
    | error v =>
      refine ⟨.error (.violation v), r.transition .initializing, hstart, rfl, ?_⟩
      obtain ⟨computer, rfl⟩ := of_create hcreate
      rw [execute, if_pos rfl]
      simp only [start, transition, hschema]
    | ok schema =>
      have hopening : (r.opening schema).Tracks := by
        have hchanges : (r.opening schema).journal.changes
            = (r.transition .initializing).journal.changes := by
          rw [opening, Workspace.note, Journal.changes_push]
          exact List.append_nil _
        unfold Workspace.Tracks
        rw [hchanges]
        exact hstart
      have hcap : 0 < r.job.config.maxIterations := by
        rw [(job_of_create hcreate).2.2]
        exact maxIterations_pos_of_create hcreate
      have hends := (Workspace.runEnds_iterate r.job schedule (r.opening schema)).tracks hcap
        hopening rfl
      rw [execute_eq hcreate hschema]
      generalize (r.opening schema).iterate r.job schedule = ended at hends ⊢
      obtain ⟨stop | ending, ws⟩ := ended
      · -- broken off, as the supersteps left it
        exact ⟨.error stop, ⟨r.job, ws.flag, ws.state, ws.journal⟩, hends.1, hends.2, rfl⟩
      · -- ended with a result
        exact ⟨.ok ⟨ws.values, ending.didConverge, ending.ranIterations⟩,
          ⟨r.job, ws.flag, ws.state, ws.journal⟩, hends.1, hends.2, rfl⟩
  rw [hexecute]
  obtain ⟨hconcluded, hout, hend⟩ := tracks_conclude hlast hleft
  exact ⟨hconcluded, by rw [hend, hout]⟩

/-- A run that is not in its first state cannot be executed, and stays as it is. -/
theorem execute_of_not_created (h : r.state ≠ .created) (schedule : Schedule) :
    r.execute schedule = (.error (.error (.invalidState r.state.text "run")), r) := by
  rw [execute, if_neg h]

end Executing

/-! ## Requests -/

/-- Whether the run is to be executed. -/
def Request.isExecute : Request → Bool
  | .execute _ => true
  | _ => false

/-- Whether the run is to be given up. -/
def Request.isRelease : Request → Bool
  | .release => true
  | _ => false

variable {graph : Graph α} {config : Config} {program : Program α} {flag : Flag} {r now : Run α}
  {requests : List Request}

/-- What requests have made of a run: where it is in its life, and whether it can still start. -/
structure Lived (r : Run α) (requests : List Request) (now : Run α) : Prop where
  tracks : now.Tracks
  rests : now.state.isResting = true ∨ now.state = .released
  unstarted : now.state = .created ↔
    ∀ request ∈ requests, request.isExecute = false ∧ request.isRelease = false
  released : now.state = .released ↔ ∃ request ∈ requests, request.isRelease = true
  /-- A run that was not started is the one that was created, with a flag of its own. -/
  same : now.state = .created → ∃ flag, now = r.withFlag flag

/-- Another request moves a run that was created on, or leaves it in a later state. -/
private theorem Lived.concat {next : Run α} {request : Request} (h : Lived r requests now)
    (htracks : next.Tracks) (hrests : next.state.isResting = true ∨ next.state = .released)
    (hcreated : next.state = .created ↔ now.state = .created ∧ request.isExecute = false ∧
      request.isRelease = false)
    (hreleased : next.state = .released ↔ now.state = .released ∨ request.isRelease = true)
    (hsame : next.state = .created → ∃ flag, next = now.withFlag flag) :
    Lived r (requests ++ [request]) next where
  tracks := htracks
  rests := hrests
  unstarted := by
    rw [hcreated, h.unstarted, List.forall_mem_append, List.forall_mem_singleton]
  released := by
    rw [hreleased, h.released]
    simp [or_and_right, exists_or]
  same hnext := by
    -- both requests were about the flag, and the later flag is the one it has
    obtain ⟨flag, hflag⟩ := h.same (hcreated.mp hnext).1
    obtain ⟨flag', hflag'⟩ := hsame hnext
    exact ⟨flag', by rw [hflag', hflag]; rfl⟩

/-- A run that was not started can be created as it is. -/
theorem Lived.create_eq (hcreate : create graph config program flag = .ok r)
    (h : Lived r requests now) (hnow : now.state = .created) :
    ∃ flag', create graph config program flag' = .ok now := by
  obtain ⟨flag', rfl⟩ := h.same hnow
  refine ⟨flag', ?_⟩
  rw [create_withFlag graph config program flag, hcreate]
  rfl

/-- An execution leaves the run in a state in which it rests, and which is not the first. -/
theorem outcomeState_ne (out : Except Stop (RunResult α)) :
    outcomeState out ≠ .created ∧ outcomeState out ≠ .released ∧
      (outcomeState out).isResting = true := by
  cases out with
  | ok result => cases hconverge : result.didConverge <;> simp [outcomeState, hconverge,
      RunState.isResting]
  | error stop => simp [outcomeState, RunState.isResting]

section Performing

variable [Scalar α]

/-- What one more request makes of a run. -/
theorem lived_perform (hcreate : create graph config program flag = .ok r)
    (h : Lived r requests now) (request : Request) :
    Lived r (requests ++ [request]) (now.perform request).2 := by
  -- one case for each kind of request
  cases request with
  | execute schedule =>
    change Lived r _ (now.execute schedule).2
    by_cases hnow : now.state = .created
    · -- the one execution that does something
      obtain ⟨flag', hcreated⟩ := h.create_eq hcreate hnow
      obtain ⟨htracks, hstate⟩ := state_execute hcreated schedule
      obtain ⟨hne, hheld, hrests⟩ := outcomeState_ne (now.execute schedule).1
      rw [← hstate] at hne hheld hrests
      refine h.concat htracks (.inl hrests) ?_ ?_ fun hnext => absurd hnext hne
      · simp [hne, Request.isExecute]
      · simp [hheld, hnow, Request.isRelease]
    · -- a run that was started is refused another execution
      rw [execute_of_not_created hnow]
      refine h.concat h.tracks h.rests ?_ ?_ fun hnext => absurd hnext hnow
      · simp [hnow]
      · simp [Request.isRelease]
  | release =>
    change Lived r _ now.release
    by_cases hnow : now.state = .released
    · -- what was given up is given up already
      rw [release, if_pos hnow]
      refine h.concat h.tracks h.rests ?_ ?_ fun hnext => ?_
      · simp [hnow]
      · simp [hnow]
      · rw [hnow] at hnext
        cases hnext
    · rw [release, if_neg hnow]
      refine h.concat (h.tracks.transition (.release (h.rests.resolve_right hnow))) (.inr rfl)
        ?_ ?_ nofun
      · simp [transition, Request.isRelease]
      · simp [transition, Request.isRelease]
  | terminate =>
    refine h.concat h.tracks h.rests ?_ ?_ fun _ => ⟨now.flag.raise, rfl⟩
    · simp [perform, terminate, Request.isExecute, Request.isRelease]
    · simp [perform, terminate, Request.isRelease]
  | withFlag flag' =>
    refine h.concat h.tracks h.rests ?_ ?_ fun _ => ⟨flag', rfl⟩
    · simp [perform, withFlag, Request.isExecute, Request.isRelease]
    · simp [perform, withFlag, Request.isRelease]

/-- The run after requests. -/
def after (r : Run α) (requests : List Request) : Run α :=
  requests.foldl (fun r request => (r.perform request).2) r

/-- What any requests make of a run. -/
theorem lived_after (hcreate : create graph config program flag = .ok r)
    (requests : List Request) : Lived r requests (r.after requests) := by
  obtain ⟨htracks, hstate⟩ := tracks_of_create hcreate
  -- on the requests from the last one, since runs are moved on at that end
  induction requests using List.reverseRecOn with
  | nil =>
    refine ⟨htracks, .inl ?_, ?_, ?_, fun _ => ⟨r.flag, rfl⟩⟩
    · show r.state.isResting = true
      rw [hstate]
      rfl
    · simp [after, hstate]
    · simp [after, hstate]
  | append_singleton requests request ih =>
    have hlast : r.after (requests ++ [request]) = ((r.after requests).perform request).2 := by
      rw [after, List.foldl_append]
      rfl
    rw [hlast]
    exact lived_perform hcreate ih request

/-! ## Hooks run in one request -/

/-- How many hooks of the program each of the requests runs. -/
def hookCounts (r : Run α) : List Request → List Nat
  | [] => []
  | request :: requests =>
    let next := (r.perform request).2
    (next.journal.hooks - r.journal.hooks) :: next.hookCounts requests

/-- Only an execution runs hooks, and only if the run was not started. -/
theorem hooks_perform (request : Request)
    (h : request.isExecute = false ∨ r.state ≠ .created) :
    (r.perform request).2.journal.hooks = r.journal.hooks := by
  cases request with
  | execute schedule =>
    change (r.execute schedule).2.journal.hooks = _
    rw [execute_of_not_created (h.resolve_left nofun)]
  | release =>
    change r.release.journal.hooks = _
    -- giving a run up writes a change of state at most, and that is no hook
    unfold release
    split
    · rfl
    · rw [transition, Journal.hooks_push]
      rfl
  | terminate => rfl
  | withFlag flag => rfl

/-- No request leads back to the first state. -/
theorem state_perform_ne (h : r.state ≠ .created) (request : Request) :
    (r.perform request).2.state ≠ .created := by
  cases request with
  | execute schedule =>
    change (r.execute schedule).2.state ≠ _
    rwa [execute_of_not_created h]
  | release =>
    change r.release.state ≠ _
    unfold release
    split
    · exact h
    · exact nofun
  | terminate => exact h
  | withFlag flag => exact h

/-- A run that was started or given up runs no hooks any more. -/
theorem hookCounts_of_not_created (h : r.state ≠ .created) (requests : List Request) :
    ∀ count ∈ r.hookCounts requests, count = 0 := by
  -- the state stays another than the first, so the induction goes through
  induction requests generalizing r with
  | nil => exact List.forall_mem_nil _
  | cons request requests ih =>
    refine List.forall_mem_cons.mpr ⟨?_, ih (state_perform_ne h request)⟩
    rw [hooks_perform request (.inr h), Nat.sub_self]

/-- Of any two requests one runs no hooks. -/
theorem pairwise_hookCounts (hcreate : create graph config program flag = .ok r)
    (requests : List Request) :
    (r.hookCounts requests).Pairwise fun count count' => count = 0 ∨ count' = 0 := by
  induction requests generalizing flag r with
  | nil => exact .nil
  | cons request requests ih =>
    -- either the request leaves the run as created, or no later one runs hooks
    have hone := lived_perform hcreate (lived_after hcreate []) request
    refine List.pairwise_cons.mpr ?_
    by_cases hnext : (r.perform request).2.state = .created
    · -- the request was about the flag, and the run is as good as new
      obtain ⟨flag', hagain⟩ := hone.create_eq hcreate hnext
      have hexecute := (hone.unstarted.mp hnext request (by simp)).1
      refine ⟨fun count _ => .inl ?_, ih hagain⟩
      rw [hooks_perform request (.inl hexecute), Nat.sub_self]
    · have hnone := hookCounts_of_not_created hnext requests
      refine ⟨fun count hcount => .inr (hnone count hcount), ?_⟩
      exact List.pairwise_of_forall_mem_list fun count hcount _ _ => .inl (hnone count hcount)

end Performing

end Run

/-! ## The whole life -/

/-- The life of the run `r`, which requests have made to be `now`. -/
structure Life [Scalar α] (r : Run α) (requests : List Run.Request) (now : Run α) : Prop where
  /-- All changes of state that were made are a way from the first state to the present one. -/
  path : RunState.Path .created now.journal.changes now.state
  rests : now.state.isResting = true ∨ now.state = .released
  unstarted : now.state = .created ↔
    ∀ request ∈ requests, request.isExecute = false ∧ request.isRelease = false
  released : now.state = .released ↔ ∃ request ∈ requests, request.isRelease = true
  releasedOnce : (now.journal.changes.map Prod.snd).count .released
    = if requests.any (·.isRelease) then 1 else 0
  /-- Of any two of the requests one has run no hooks. -/
  hooksOnce : (r.hookCounts requests).Pairwise fun count count' => count = 0 ∨ count' = 0
  /-- A run that can start ends well, or with an error or a violation, as its state will tell. -/
  executes : now.state = .created → ∀ schedule,
    ((∃ result, (now.execute schedule).1 = .ok result) ↔
      (now.execute schedule).2.state = .converged ∨
        (now.execute schedule).2.state = .reachedMaxIterations) ∧
    ((∃ stop, (now.execute schedule).1 = .error stop) ↔
      (now.execute schedule).2.state = .failed)
  /-- Any other run refuses, and is left as it is. -/
  refuses : now.state ≠ .created → ∀ schedule,
    now.execute schedule = (.error (.error (.invalidState now.state.text "run")), now)
  release : now.state ≠ .released → now.release.state = .released ∧
    now.release.journal.changes = now.journal.changes ++ [(now.state, .released)]
  keepsReleased : now.state = .released → now.release = now

/-- The life of every run, whatever its hooks do and whatever is asked of it. -/
theorem lifecycle_of_run [Scalar α] {graph : Graph α} {config : Config} {program : Program α}
    {flag : Flag} {r : Run α} (hcreate : Run.create graph config program flag = .ok r)
    (requests : List Run.Request) : Life r requests (r.after requests) := by
  have hlived := Run.lived_after hcreate requests
  generalize r.after requests = now at hlived ⊢
  refine ⟨hlived.tracks, hlived.rests, hlived.unstarted, hlived.released, ?_,
    Run.pairwise_hookCounts hcreate requests, ?_, ?_, ?_, ?_⟩
  · rw [hlived.tracks.count_released nofun]
    refine if_congr ?_ rfl rfl
    rw [hlived.released, List.any_eq_true]
  · intro hnow schedule
    obtain ⟨flag', hcreated⟩ := hlived.create_eq hcreate hnow
    rw [(Run.state_execute hcreated schedule).2]
    rcases (now.execute schedule).1 with stop | ⟨values, didConverge, ranIterations⟩
    · simp [Run.outcomeState]
    · cases didConverge <;> simp [Run.outcomeState]
  · intro hnow schedule
    exact Run.execute_of_not_created hnow schedule
  · intro hnow
    rw [Run.release, if_neg hnow, Run.transition, Journal.changes_push]
    exact ⟨rfl, rfl⟩
  · intro hnow
    rw [Run.release, if_pos hnow]

/-- The relay is given another flag, run, run again, released twice and run once more. -/
theorem lifecycle_of_run_relay :
    ∃ requests, Life (Relay.run none false false) requests
        ((Relay.run none false false).after requests) ∧
      (Relay.run none false false).hookCounts requests = [0, 8, 0, 0, 0, 0] ∧
      ((Relay.run none false false).after requests).journal.changes.map Prod.snd
        = [.initializing, .running 0, .masterComputing 0, .running 1, .masterComputing 1,
          .converged, .released] := by
  refine ⟨[.withFlag .fresh, .execute Relay.takingTurns, .execute Relay.takingTurns, .release,
    .release, .execute Relay.takingTurns], ?_, by decide +kernel, by decide +kernel⟩
  exact lifecycle_of_run (Relay.create_run none false false) _

end Superstep
