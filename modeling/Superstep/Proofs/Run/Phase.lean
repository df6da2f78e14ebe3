import Mathlib
import Superstep.Proofs.Partition
import Superstep.Proofs.Run.Visit
import Superstep.Run.Schedule

/-!
# What a phase does under any schedule

Whatever the schedule, a phase is a list of moves that ends when every task is finished
(`Workspace.runPhase_moves`), and a move takes one task one step on (`TaskStep`). The invariant of a
phase, `PhaseInv`, says which vertices were visited and which are still ahead. `Traverses` keeps of
a phase what matters to the vertices: the visits in the order in which they happened, and between
them changes to the flag, the abort mark and the log.

## Key results

- `Workspace.phaseInv_moves`: the invariant holds after any moves
- `Workspace.runPhase_traverses`: a phase visits no vertex twice, and every vertex if it succeeds
-/

namespace Superstep

variable {α : Type}

/-! ## Tasks -/

namespace Task

/-- The vertices of a task that are still to be visited. -/
def ahead : Task → List Nat
  | .waiting r => r.toList
  | .running r position | .visiting r position _ => r.toList.drop position
  | .finished _ _ => []

/-- The vertex that the next step of a task visits, if it visits one. -/
def visits? : Task → Option Nat
  | .visiting r position _ => some (r.start + position)
  | .waiting _ | .running _ _ | .finished _ _ => none

/-- Whether the worker of a task did not end well. -/
def hasFailed : Task → Bool
  | .finished _ result => result != .completed
  | _ => false

end Task

/-- Of the vertices from a position on the first one is at that position. -/
theorem VertexRange.drop_toList {r : VertexRange} {position : Nat} (h : position < r.length) :
    r.toList.drop position = (r.start + position) :: r.toList.drop (position + 1) := by
  have hlength : position < r.toList.length := by rw [toList, List.length_range']; exact h
  rw [List.drop_eq_getElem_cons hlength]
  congr 1
  simp [toList]

/-- Past the end of a range no vertices are left. -/
theorem VertexRange.drop_toList_of_le {r : VertexRange} {position : Nat} (h : r.length ≤ position) :
    r.toList.drop position = [] := by
  rw [List.drop_eq_nil_iff, toList, List.length_range']
  exact h

/-- The vertex that a worker is on is still ahead. -/
theorem Task.mem_ahead_visiting {r : VertexRange} {position : Nat} (h : position < r.length) :
    r.start + position ∈ (visiting r position h).ahead := by
  rw [ahead, VertexRange.drop_toList h]
  exact List.mem_cons_self

/-- How a task goes one step on. -/
inductive TaskStep (job : Job α) (phase : Phase) (s : Nat) :
    Task → Workspace α → List Task → Workspace α → Prop
  | halve {r a b ws} (h : job.computer.split? ws.aborted r = some (a, b)) :
    TaskStep job phase s (.waiting r) ws [.waiting a, .waiting b] ws
  | start {r ws} (h : job.computer.split? ws.aborted r = none) :
    TaskStep job phase s (.waiting r) ws [.running r 0] ws
  | complete {r position ws} (h : r.length ≤ position) :
    TaskStep job phase s (.running r position) ws [.finished r .completed]
      (ws.note (.stepFinished phase s r true))
  /-- Another worker has failed. -/
  | giveUp {r position ws} (h : position < r.length) (haborted : ws.aborted = true) :
    TaskStep job phase s (.running r position) ws [.finished r .completed]
      (ws.note (.stepFinished phase s r true))
  /-- The worker sees the flag raised. -/
  | observe {r position ws} (h : position < r.length) (haborted : ws.aborted = false)
      (hpoll : position % pollInterval = 0) (hflag : ws.flag.raised = true) :
    TaskStep job phase s (.running r position) ws [.finished r (.failed (.terminated s))]
      ({ ws with aborted := true }.note (.stepFinished phase s r false))
  | enter {r position ws} (h : position < r.length) (haborted : ws.aborted = false)
      (hpoll : ¬(position % pollInterval = 0 ∧ ws.flag.raised = true)) :
    TaskStep job phase s (.running r position) ws [.visiting r position h] ws
  | visit {r position ws ws'} (h : position < r.length)
      (hvisit : ws.visit job phase s (r.start + position) = (.ok (), ws')) :
    TaskStep job phase s (.visiting r position h) ws [.running r (position + 1)] ws'
  | fail {r position ws ws' source} (h : position < r.length)
      (hvisit : ws.visit job phase s (r.start + position) = (.error (.error source), ws')) :
    TaskStep job phase s (.visiting r position h) ws
      [.finished r (.failed (.computation phase s r source))]
      ({ ws' with aborted := true }.note (.stepFinished phase s r false))
  | violate {r position ws ws' v} (h : position < r.length)
      (hvisit : ws.visit job phase s (r.start + position) = (.error (.violation v), ws')) :
    TaskStep job phase s (.visiting r position h) ws [.finished r (.violated v)] ws'
  | rest {r result ws} :
    TaskStep job phase s (.finished r result) ws [.finished r result] ws

namespace Workspace

variable {job : Job α} {phase : Phase} {s : Nat}

/-- Why a worker ends before the next vertex. -/
theorem stop?_eq_some {r : VertexRange} {position : Nat} {ws : Workspace α} {result : StepResult}
    (h : ws.stop? s r position = some result) :
    r.length ≤ position ∧ result = .completed ∨
      position < r.length ∧ ws.aborted = true ∧ result = .completed ∨
      position < r.length ∧ ws.aborted = false ∧ position % pollInterval = 0 ∧
        ws.flag.raised = true ∧ result = .failed (.terminated s) := by
  unfold stop? at h
  split at h
  · rename_i hend
    exact .inl ⟨hend, (Option.some.inj h).symm⟩
  · rename_i hend
    have hlt : position < r.length := Nat.lt_of_not_le hend
    -- the order of the questions: end of the range, abort mark, flag
    split at h
    · rename_i haborted
      exact .inr (.inl ⟨hlt, haborted, (Option.some.inj h).symm⟩)
    · rename_i haborted
      split at h
      · rename_i hpoll
        exact .inr (.inr ⟨hlt, Bool.eq_false_iff.mpr haborted, hpoll.1, hpoll.2,
          (Option.some.inj h).symm⟩)
      · cases h

/-- A worker that goes on has seen neither the abort mark nor a raised flag it looked for. -/
theorem stop?_eq_none {r : VertexRange} {position : Nat} {ws : Workspace α}
    (h : ws.stop? s r position = none) :
    ws.aborted = false ∧ ¬(position % pollInterval = 0 ∧ ws.flag.raised = true) := by
  rw [stop?, if_neg (Nat.not_le_of_lt (lt_length_of_stop? h))] at h
  split at h
  · cases h
  · rename_i haborted
    split at h
    · cases h
    · rename_i hpoll
      exact ⟨Bool.eq_false_iff.mpr haborted, hpoll⟩

/-- What `workOn` does to a task is one of the steps. -/
theorem taskStep_workOn (task : Task) (ws : Workspace α) :
    TaskStep job phase s task ws (ws.workOn job phase s task).1 (ws.workOn job phase s task).2 := by
  -- each case is one branch of `workOn`, and of `stop?` or `attempt`
  cases task with
  | waiting r =>
    rw [workOn]
    split
    · rename_i a b h
      exact .halve h
    · rename_i h
      exact .start h
  | running r position =>
    rw [workOn]
    split
    · rename_i result hstop
      -- a worker that stops has one of three reasons
      obtain ⟨hend, rfl⟩ | ⟨hlt, haborted, rfl⟩ | ⟨hlt, haborted, hpoll, hflag, rfl⟩ :=
        stop?_eq_some hstop
      · exact .complete hend
      · exact .giveUp hlt haborted
      · exact .observe hlt haborted hpoll hflag
    · rename_i hstop
      obtain ⟨haborted, hpoll⟩ := stop?_eq_none hstop
      exact .enter (lt_length_of_stop? hstop) haborted hpoll
  | visiting r position h =>
    rw [workOn, attempt]
    -- a visit ends with an error, with a violation or well
    rcases hvisit : ws.visit job phase s (r.start + position) with ⟨(source | v) | _, ws'⟩
    · exact .fail h hvisit
    · exact .violate h hvisit
    · exact .visit h hvisit
  | finished r result => exact .rest

/-- No step takes the abort mark away or lowers the flag. -/
theorem taskStep_mono {task : Task} {moved : List Task} {ws ws' : Workspace α}
    (hstep : TaskStep job phase s task ws moved ws') :
    (ws.aborted = true → ws'.aborted = true) ∧
      (ws.flag.raised = true → ws'.flag.raised = true) := by
  cases hstep with
  -- only the steps that fail set the mark, and only hooks raise the flag
  | observe => exact ⟨fun _ => rfl, id⟩
  | visit _ hvisit | violate _ hvisit =>
    have hkeeps := keeps_of_visit hvisit
    exact ⟨fun h => hkeeps.aborted.trans h, hkeeps.raised⟩
  | fail _ hvisit => exact ⟨fun _ => rfl, (keeps_of_visit hvisit).raised⟩
  | _ => exact ⟨id, id⟩

/-- The vertex that a move visits, if it visits one. -/
def visited? (x : List Task × Workspace α) : Move → Option Nat
  | .raiseFlag => none
  | .work i => (x.1[i]?).bind Task.visits?

/-- What a move does, and the vertex that it visits. -/
inductive MoveStep (job : Job α) (phase : Phase) (s : Nat) :
    List Task × Workspace α → Option Nat → List Task × Workspace α → Prop
  | work {left task right moved ws ws'} (h : TaskStep job phase s task ws moved ws') :
    MoveStep job phase s (left ++ task :: right, ws) task.visits? (left ++ moved ++ right, ws')
  | raise {tasks ws} :
    MoveStep job phase s (tasks, ws) none (tasks, { ws with flag := ws.flag.raise })
  /-- There is no such task. -/
  | idle {x} : MoveStep job phase s x none x

/-- What `move` does is one of the moves, and it visits what `visited?` says. -/
theorem moveStep_move (x : List Task × Workspace α) (m : Move) :
    MoveStep job phase s x (visited? x m) (move job phase s x m) := by
  obtain ⟨tasks, ws⟩ := x
  cases m with
  | raiseFlag => exact .raise
  | work i =>
    rw [move, visited?]
    dsimp only
    cases htask : tasks[i]? with
    | none => exact .idle
    | some task =>
      obtain ⟨hi, hget⟩ := List.getElem?_eq_some_iff.mp htask
      -- the task stands between those on its left and those on its right
      have hsplit : tasks = tasks.take i ++ task :: tasks.drop (i + 1) := by
        rw [← hget, ← List.drop_eq_getElem_cons hi, List.take_append_drop]
      have hstep : MoveStep job phase s (tasks.take i ++ task :: tasks.drop (i + 1), ws)
        task.visits? _ := .work (taskStep_workOn task ws)
      rwa [← hsplit] at hstep

/-- The vertices that moves visit, in order. -/
def visits (job : Job α) (phase : Phase) (s : Nat) (x : List Task × Workspace α) :
    List Move → List Nat
  | [] => []
  | m :: moves => (visited? x m).toList ++ visits job phase s (move job phase s x m) moves

/-- What every move keeps, with the vertices that were visited so far, any moves keep. -/
theorem moves_induction {P : List Nat → List Task × Workspace α → Prop}
    (hstep : ∀ vs x v? y, P vs x → MoveStep job phase s x v? y → P (vs ++ v?.toList) y)
    {vs : List Nat} {x : List Task × Workspace α} (h : P vs x) (moves : List Move) :
    P (vs ++ visits job phase s x moves) (moves.foldl (move job phase s) x) := by
  -- the vertices of the first move are put on the account of what was visited before
  induction moves generalizing vs x with
  | nil => rwa [visits, List.append_nil]
  | cons m moves ih =>
    have hnext := ih (hstep vs x _ _ h (moveStep_move x m))
    rwa [List.append_assoc] at hnext

/-- What every move keeps, any moves keep. -/
theorem moves_keep {P : List Task × Workspace α → Prop}
    (hstep : ∀ x v? y, P x → MoveStep job phase s x v? y → P y) {x : List Task × Workspace α}
    (h : P x) (moves : List Move) : P (moves.foldl (move job phase s) x) := by
  have hall : ∀ (vs : List Nat) x v? y, P x → MoveStep job phase s x v? y → P y :=
    fun _ => hstep
  exact @moves_induction _ _ _ _ (fun _ => P) hall [] x h moves

/-! ## The invariant of a phase -/

/-- The workspace after visits in this order, and changes to the flag, the abort mark and the log in
between. -/
inductive Traverses (job : Job α) (phase : Phase) (s : Nat) (ws₀ : Workspace α) :
    List Nat → Workspace α → Prop
  | start : Traverses job phase s ws₀ [] ws₀
  | visit {vs ws v} (h : Traverses job phase s ws₀ vs ws) (hv : v < job.graph.nodeCount) :
    Traverses job phase s ws₀ (vs ++ [v]) (ws.visit job phase s v).2
  | raise {vs ws} (h : Traverses job phase s ws₀ vs ws) :
    Traverses job phase s ws₀ vs { ws with flag := ws.flag.raise }
  | abort {vs ws} (h : Traverses job phase s ws₀ vs ws) :
    Traverses job phase s ws₀ vs { ws with aborted := true }
  | note {vs ws} (h : Traverses job phase s ws₀ vs ws) (r : VertexRange) (ok : Bool) :
    Traverses job phase s ws₀ vs (ws.note (.stepFinished phase s r ok))

/-- Only vertices of the graph are visited. -/
theorem Traverses.lt_nodeCount {ws₀ ws : Workspace α} {vs : List Nat}
    (h : Traverses job phase s ws₀ vs ws) : ∀ v ∈ vs, v < job.graph.nodeCount := by
  induction h with
  | start => exact List.forall_mem_nil _
  | visit _ hv ih =>
    intro u hu
    rcases List.mem_append.mp hu with hold | hnew
    · exact ih u hold
    · rw [List.mem_singleton.mp hnew]
      exact hv
  | raise _ ih => exact ih
  | abort _ ih => exact ih
  | note _ _ _ ih => exact ih

/-- Where a phase stands: `visited` are the vertices that were visited, `dropped` those that no
worker will visit any more because a worker has failed. -/
structure PhaseInv (job : Job α) (phase : Phase) (s : Nat) (ws₀ : Workspace α)
    (visited dropped : List Nat) (tasks : List Task) (ws : Workspace α) : Prop where
  traverses : Traverses job phase s ws₀ visited ws
  covered : (visited ++ dropped ++ tasks.flatMap Task.ahead).Perm (List.range job.graph.nodeCount)
  dropped : dropped ≠ [] → ∃ task ∈ tasks, task.hasFailed = true
  aborted : ws.aborted = true → ∃ task ∈ tasks, task.hasFailed = true
  terminated : ∀ r s', .finished r (.failed (.terminated s')) ∈ tasks → ws.flag.raised = true

/-- A finished task stays as it is. -/
theorem finished_mem_taskStep {left right moved : List Task} {task : Task} {ws ws' : Workspace α}
    {r : VertexRange} {result : StepResult} (hstep : TaskStep job phase s task ws moved ws')
    (h : .finished r result ∈ left ++ task :: right) :
    .finished r result ∈ left ++ moved ++ right := by
  -- the only step of a finished task is to rest
  have hmoved : .finished r result = task → .finished r result ∈ moved := by
    rintro rfl
    cases hstep
    exact List.mem_singleton_self _
  simp only [List.mem_append, List.mem_cons] at h ⊢
  tauto

/-- A task that is finished is finished after any moves, with the same result. -/
theorem finished_mem_moves {x : List Task × Workspace α} {r : VertexRange} {result : StepResult}
    (h : .finished r result ∈ x.1) (moves : List Move) :
    .finished r result ∈ (moves.foldl (move job phase s) x).1 := by
  -- one move at a time
  refine moves_keep (P := fun y => .finished r result ∈ y.1) ?_ h moves
  intro y v? z hy hstep
  cases hstep with
  | work hstep => exact finished_mem_taskStep hstep hy
  | raise => exact hy
  | idle => exact hy

/-- A task that has failed is not lost by a step, of itself or of another task. -/
private theorem hasFailed_step {left right moved : List Task} {task : Task} {ws ws' : Workspace α}
    (hstep : TaskStep job phase s task ws moved ws')
    (h : ∃ t ∈ left ++ task :: right, t.hasFailed = true) :
    ∃ t ∈ left ++ moved ++ right, t.hasFailed = true := by
  obtain ⟨t, ht, hfailed⟩ := h
  -- only a finished task has failed
  cases t with
  | finished r result => exact ⟨_, finished_mem_taskStep hstep ht, hfailed⟩
  | _ => cases hfailed

/-- If a step accounts for what its task had ahead, all vertices stay accounted for. -/
private theorem covered_step {visited visited' dropped dropped' all : List Nat}
    {left right moved : List Task} {task : Task}
    (h : (visited ++ dropped ++ (left ++ task :: right).flatMap Task.ahead).Perm all)
    (hstep : (visited' ++ dropped' ++ moved.flatMap Task.ahead).Perm
      (visited ++ dropped ++ task.ahead)) :
    (visited' ++ dropped' ++ (left ++ moved ++ right).flatMap Task.ahead).Perm all := by
  refine List.Perm.trans ?_ h
  -- the lists only differ in the task that moved, so their elements are counted
  rw [List.perm_iff_count] at hstep ⊢
  intro v
  have hcount := hstep v
  simp only [List.flatMap_append, List.flatMap_cons, List.count_append] at hcount ⊢
  omega

/-- What one step of a task does to the workspace: besides the visit that it makes, it gives `lost`
up because a worker has failed. -/
structure StepSpec (job : Job α) (phase : Phase) (s : Nat) (task : Task) (ws : Workspace α)
    (moved : List Task) (ws' : Workspace α) (lost : List Nat) : Prop where
  traverses : ∀ ws₀ vs, Traverses job phase s ws₀ vs ws →
    Traverses job phase s ws₀ (vs ++ task.visits?.toList) ws'
  covered : task.ahead = task.visits?.toList ++ lost ++ moved.flatMap Task.ahead
  lost : lost ≠ [] → ws.aborted = true ∨ ∃ t ∈ moved, t.hasFailed = true
  aborted : ws'.aborted = true → ws.aborted = true ∨ ∃ t ∈ moved, t.hasFailed = true
  terminated : ∀ r s', .finished r (.failed (.terminated s')) ∈ moved →
    .finished r (.failed (.terminated s')) = task ∨ ws'.flag.raised = true

/-- A step that visits nothing and gives nothing up only hands on what the task has ahead. -/
theorem StepSpec.of_silent {task : Task} {moved : List Task} {ws ws' : Workspace α}
    (hvisits : task.visits? = none)
    (htraverses : ∀ ws₀ vs, Traverses job phase s ws₀ vs ws → Traverses job phase s ws₀ vs ws')
    (hahead : task.ahead = moved.flatMap Task.ahead) (haborted : ws'.aborted = ws.aborted)
    (hterminated : ∀ r s', .finished r (.failed (.terminated s')) ∈ moved →
      .finished r (.failed (.terminated s')) = task) :
    StepSpec job phase s task ws moved ws' [] where
  traverses ws₀ vs h := by
    rw [hvisits, Option.toList_none, List.append_nil]
    exact htraverses ws₀ vs h
  covered := by rw [hvisits, hahead]; rfl
  lost h := absurd rfl h
  aborted h := .inl (haborted ▸ h)
  terminated r s' hmem := .inl (hterminated r s' hmem)

/-- A worker that stops early, without a visit, gives up all that it has ahead. -/
theorem StepSpec.of_stop {r : VertexRange} {position : Nat} {result : StepResult}
    {ws ws' : Workspace α}
    (htraverses : ∀ ws₀ vs, Traverses job phase s ws₀ vs ws → Traverses job phase s ws₀ vs ws')
    (hreason : ws.aborted = true ∨ (Task.finished r result).hasFailed = true)
    (hraised : ∀ s', result = .failed (.terminated s') → ws'.flag.raised = true) :
    StepSpec job phase s (.running r position) ws [.finished r result] ws'
      (r.toList.drop position) where
  traverses ws₀ vs h := by
    rw [Task.visits?, Option.toList_none, List.append_nil]
    exact htraverses ws₀ vs h
  covered := by simp [Task.ahead, Task.visits?]
  lost _ := hreason.imp_right fun hfailed => ⟨_, List.mem_singleton_self _, hfailed⟩
  aborted _ := hreason.imp_right fun hfailed => ⟨_, List.mem_singleton_self _, hfailed⟩
  terminated r' s' hmem := by
    obtain ⟨rfl, rfl⟩ := Task.finished.inj (List.mem_singleton.mp hmem)
    exact .inr (hraised s' rfl)

/-- A worker that makes its visit has the rest of its range ahead, or gives it up by failing. -/
theorem StepSpec.of_visit {r : VertexRange} {position : Nat} (h : position < r.length)
    {outcome : Except Fault Unit} {moved : List Task} {lost : List Nat} {ws ws₁ ws' : Workspace α}
    (hv : r.start + position < job.graph.nodeCount)
    (hvisit : ws.visit job phase s (r.start + position) = (outcome, ws₁))
    (htraverses : ∀ ws₀ vs, Traverses job phase s ws₀ vs ws₁ → Traverses job phase s ws₀ vs ws')
    (hrest : r.toList.drop (position + 1) = lost ++ moved.flatMap Task.ahead)
    (hlost : lost = [] ∧ ws'.aborted = ws₁.aborted ∨ ∃ t ∈ moved, t.hasFailed = true)
    (hterminated : ∀ r s', Task.finished r (.failed (.terminated s')) ∉ moved) :
    StepSpec job phase s (.visiting r position h) ws moved ws' lost where
  traverses ws₀ vs h := by
    have hnext := h.visit hv
    rw [hvisit] at hnext
    exact htraverses ws₀ _ hnext
  covered := by
    rw [Task.ahead, VertexRange.drop_toList h, hrest]
    rfl
  lost hne := by
    rcases hlost with ⟨rfl, -⟩ | hfailed
    · exact absurd rfl hne
    · exact .inr hfailed
  aborted haborted := by
    -- the visit itself leaves the abort mark alone
    rcases hlost with ⟨-, hsame⟩ | hfailed
    · rw [hsame, (keeps_of_visit hvisit).aborted] at haborted
      exact .inl haborted
    · exact .inr hfailed
  terminated r s' hmem := absurd hmem (hterminated r s')

/-- Every step of a task does one of three things: it is silent, it stops the worker early, or it
makes the visit that the worker was about to make. -/
theorem stepSpec_of_taskStep {task : Task} {moved : List Task} {ws ws' : Workspace α}
    (hstep : TaskStep job phase s task ws moved ws')
    (hahead : ∀ v ∈ task.ahead, v < job.graph.nodeCount) :
    ∃ lost, StepSpec job phase s task ws moved ws' lost := by
  cases hstep with
  | @halve r a b _ h =>
    have hhalves : job.computer.halves? r = some (a, b) := by
      unfold Computer.split? at h
      split at h
      · cases h
      · exact h
    exact ⟨[], .of_silent rfl (fun _ _ => id)
      (by simp [Task.ahead, Computer.toList_of_halves? hhalves]) rfl (by simp)⟩
  | start | enter =>
    exact ⟨[], .of_silent rfl (fun _ _ => id) (by simp [Task.ahead]) rfl (by simp)⟩
  | @complete r position _ h =>
    exact ⟨[], .of_silent rfl (fun _ _ h => h.note r true)
      (by simp [Task.ahead, VertexRange.drop_toList_of_le h]) rfl (by simp)⟩
  | rest =>
    exact ⟨[], .of_silent rfl (fun _ _ => id) rfl rfl fun _ _ => List.mem_singleton.mp⟩
  | @giveUp r position _ h haborted =>
    exact ⟨_, .of_stop (fun _ _ h => h.note r true) (.inl haborted) fun _ => (nomatch ·)⟩
  | @observe r position _ h haborted hpoll hflag =>
    exact ⟨_, .of_stop (fun _ _ h => h.abort.note r false) (.inr rfl) fun _ _ => hflag⟩
  -- in the cases that are left the worker is on a vertex, which it still has ahead
  | @visit r position _ _ h hvisit =>
    have hv := hahead _ (Task.mem_ahead_visiting h)
    exact ⟨[], .of_visit h hv hvisit (fun _ _ => id) (by simp [Task.ahead]) (.inl ⟨rfl, rfl⟩)
      (by simp)⟩
  | @fail r position _ ws' source h hvisit =>
    have hv := hahead _ (Task.mem_ahead_visiting h)
    exact ⟨r.toList.drop (position + 1), .of_visit h hv hvisit (fun _ _ h => h.abort.note r false)
      (by simp [Task.ahead]) (.inr ⟨_, List.mem_singleton_self _, rfl⟩) (by simp)⟩
  | @violate r position _ _ v h hvisit =>
    have hv := hahead _ (Task.mem_ahead_visiting h)
    exact ⟨r.toList.drop (position + 1), .of_visit h hv hvisit (fun _ _ => id)
      (by simp [Task.ahead]) (.inr ⟨_, List.mem_singleton_self _, rfl⟩) (by simp)⟩

/-- The invariant of a phase holds after a step of one of its tasks. -/
theorem PhaseInv.step {ws₀ ws ws' : Workspace α} {visited dropped : List Nat}
    {left right moved : List Task} {task : Task}
    (h : PhaseInv job phase s ws₀ visited dropped (left ++ task :: right) ws)
    (hstep : TaskStep job phase s task ws moved ws') :
    ∃ dropped', PhaseInv job phase s ws₀ (visited ++ task.visits?.toList) dropped'
      (left ++ moved ++ right) ws' := by
  -- what is ahead is among the vertices of the graph
  have hahead : ∀ v ∈ task.ahead, v < job.graph.nodeCount := by
    intro v hv
    rw [← List.mem_range, ← h.covered.mem_iff]
    simp [hv]
  obtain ⟨lost, hspec⟩ := stepSpec_of_taskStep hstep hahead
  -- a failure is noticed on both sides of the step
  have hkept := @hasFailed_step _ _ _ _ left right _ _ _ _ hstep
  have hraise := (taskStep_mono hstep).2
  have hnew : (∃ t ∈ moved, t.hasFailed = true) →
      ∃ t ∈ left ++ moved ++ right, t.hasFailed = true := by
    rintro ⟨t, ht, hfailed⟩
    exact ⟨t, by simp [ht], hfailed⟩
  refine ⟨dropped ++ lost, hspec.traverses _ _ h.traverses, ?_, ?_, ?_, ?_⟩
  · -- what the task had ahead is visited, given up or still ahead
    refine covered_step h.covered ?_
    rw [hspec.covered, List.perm_iff_count]
    intro v
    simp only [List.count_append]
    omega
  · intro hne
    -- if something is given up for the first time, the step itself says why
    by_cases hdropped : dropped = []
    · have hlost : lost ≠ [] := by
        rintro rfl
        exact hne (by rw [hdropped]; rfl)
      rcases hspec.lost hlost with haborted | hfailed
      · exact hkept (h.aborted haborted)
      · exact hnew hfailed
    · exact hkept (h.dropped hdropped)
  · intro haborted
    -- whoever set the abort mark has failed, now or before
    rcases hspec.aborted haborted with haborted | hfailed
    · exact hkept (h.aborted haborted)
    · exact hnew hfailed
  · intro r s' hmem
    -- a worker saw the flag before this step, and it stays up, or in this step
    rw [List.mem_append, List.mem_append] at hmem
    rcases hmem with (hleft | hmoved) | hright
    · exact hraise (h.terminated r s' (by simp [hleft]))
    · rcases hspec.terminated r s' hmoved with htask | hraised
      · exact hraise (h.terminated r s' (by simp [htask]))
      · exact hraised
    · exact hraise (h.terminated r s' (by simp [hright]))

/-- The invariant of a phase holds after a move. -/
theorem PhaseInv.move {ws₀ : Workspace α} {visited dropped : List Nat}
    {x y : List Task × Workspace α} {v? : Option Nat}
    (h : PhaseInv job phase s ws₀ visited dropped x.1 x.2) (hmove : MoveStep job phase s x v? y) :
    ∃ dropped', PhaseInv job phase s ws₀ (visited ++ v?.toList) dropped' y.1 y.2 := by
  cases hmove with
  | work hstep => exact h.step hstep
  | raise =>
    refine ⟨dropped, ?_⟩
    rw [Option.toList_none, List.append_nil]
    exact {
      traverses := h.traverses.raise
      covered := h.covered
      dropped := h.dropped
      aborted := h.aborted
      terminated := fun _ _ _ => rfl }
  | idle =>
    rw [Option.toList_none, List.append_nil]
    exact ⟨dropped, h⟩

/-- The tasks and the workspace of a phase before its first move. -/
def phaseStart (job : Job α) (ws : Workspace α) : List Task × Workspace α :=
  ((job.computer.ranges job.graph.nodeCount).map Task.waiting,
    { ws with aborted := false, stats := .zero })

/-- The invariant of a phase holds before its first move: everything is ahead. -/
theorem phaseInv_start (ws : Workspace α) :
    PhaseInv job phase s (phaseStart job ws).2 [] [] (phaseStart job ws).1
      (phaseStart job ws).2 where
  traverses := .start
  covered := by
    have hahead : (phaseStart job ws).1.flatMap Task.ahead = List.range job.graph.nodeCount := by
      rw [phaseStart, List.flatMap_map]
      exact job.computer.flatMap_toList_ranges job.graph.nodeCount
    rw [hahead]
    rfl
  dropped h := absurd rfl h
  aborted h := by cases h
  terminated r s' hmem := by simp [phaseStart] at hmem

/-- The invariant of a phase holds after any moves. -/
theorem phaseInv_moves (ws : Workspace α) (moves : List Move) :
    ∃ dropped, PhaseInv job phase s (phaseStart job ws).2
      (visits job phase s (phaseStart job ws) moves) dropped
      (moves.foldl (move job phase s) (phaseStart job ws)).1
      (moves.foldl (move job phase s) (phaseStart job ws)).2 :=
  moves_induction (P := fun visited x =>
      ∃ dropped, PhaseInv job phase s (phaseStart job ws).2 visited dropped x.1 x.2)
    (fun _ _ _ _ ⟨_, h⟩ hmove => h.move hmove) ⟨[], phaseInv_start ws⟩ moves

/-! ## A phase is a list of moves -/

/-- Some moves lead from one state of a phase to another. -/
def Leads (job : Job α) (phase : Phase) (s : Nat) (x y : List Task × Workspace α) : Prop :=
  ∃ moves : List Move, moves.foldl (move job phase s) x = y

/-- Moves of the workers alone lead from one state of a phase to another. -/
def Works (job : Job α) (phase : Phase) (s : Nat) (x y : List Task × Workspace α) : Prop :=
  ∃ moves : List Move, .raiseFlag ∉ moves ∧ moves.foldl (move job phase s) x = y

/-- What workers do alone they do as well when the owner may interfere. -/
theorem Works.leads {x y : List Task × Workspace α} (h : Works job phase s x y) :
    Leads job phase s x y :=
  let ⟨moves, _, hmoves⟩ := h
  ⟨moves, hmoves⟩

/-- Workers that do nothing stay where they are. -/
theorem Works.refl (x : List Task × Workspace α) : Works job phase s x x :=
  ⟨[], List.not_mem_nil, rfl⟩

/-- Two stretches of work are one. -/
theorem Works.trans {x y z : List Task × Workspace α} (h : Works job phase s x y)
    (h' : Works job phase s y z) : Works job phase s x z := by
  obtain ⟨moves, hwork, rfl⟩ := h
  obtain ⟨moves', hwork', rfl⟩ := h'
  exact ⟨moves ++ moves', by simp [hwork, hwork'], List.foldl_append⟩

/-- One step of a task, wherever it stands among the tasks, is work. -/
theorem works_workOn (left right : List Task) (task : Task) (ws : Workspace α) :
    Works job phase s (left ++ task :: right, ws)
      (left ++ (ws.workOn job phase s task).1 ++ right, (ws.workOn job phase s task).2) := by
  refine ⟨[.work left.length], by simp, ?_⟩
  -- the task stands right after those on its left
  have htask : (left ++ task :: right)[left.length]? = some task := by simp
  rw [List.foldl_cons, List.foldl_nil, Workspace.move, htask]
  simp

/-- How finished tasks ended. -/
abbrev Results := List (VertexRange × StepResult)

/-- The finished tasks with these results. -/
def finishedTasks (results : Results) : List Task := results.map fun r => .finished r.1 r.2

/-- A worker that finds a reason to stop ends in one move. -/
theorem works_stop {r : VertexRange} {position : Nat} {ws : Workspace α} {result : StepResult}
    (left right : List Task) (h : ws.stop? s r position = some result) :
    Works job phase s (left ++ .running r position :: right, ws)
      (left ++ .finished r result :: right, ws.endStep phase s r result) := by
  have hwork := @works_workOn _ job phase s left right (.running r position) ws
  rw [workOn] at hwork
  split at hwork
  · rename_i heq
    cases heq.symm.trans h
    simpa using hwork
  · rename_i heq
    cases heq.symm.trans h

/-- A worker that finds none is on its next vertex after one move. -/
theorem works_enter {r : VertexRange} {position : Nat} {ws : Workspace α}
    (left right : List Task) (h : ws.stop? s r position = none) :
    Works job phase s (left ++ .running r position :: right, ws)
      (left ++ .visiting r position (lt_length_of_stop? h) :: right, ws) := by
  have hwork := @works_workOn _ job phase s left right (.running r position) ws
  rw [workOn] at hwork
  split at hwork
  · rename_i heq
    cases heq.symm.trans h
  · simpa using hwork

/-- A worker ends, or goes over one vertex and on to the end of its range. -/
theorem finishStep_eq (r : VertexRange) (position : Nat) (ws : Workspace α) :
    ws.finishStep job phase s r position =
      match ws.stop? s r position with
      | some result => (result, ws.endStep phase s r result)
      | none =>
        match ws.attempt job phase s r position with
        | (some result, ws) => (result, ws.endStep phase s r result)
        | (none, ws) => ws.finishStep job phase s r (position + 1) := by
  rw [finishStep]
  -- the steps are counted by the vertices that are left
  cases hcount : r.length - position with
  | zero =>
    have hstop : ws.stop? s r position = some .completed := by rw [stop?, if_pos (by omega)]
    rw [hstop]
    rfl
  | succ count =>
    have hleft : r.length - (position + 1) = count := by omega
    rw [advanceBy]
    cases ws.stop? s r position with
    | some result => rfl
    | none =>
      dsimp only
      rcases ws.attempt job phase s r position with ⟨_ | result, ws'⟩
      · dsimp only
        rw [finishStep, hleft]
      · rfl

/-- Finishing a range from some position on is work: two moves for each vertex, and one to end. -/
theorem works_finishStep (left right : List Task) (r : VertexRange) (position : Nat)
    (ws : Workspace α) :
    Works job phase s (left ++ .running r position :: right, ws)
      (left ++ .finished r (ws.finishStep job phase s r position).1 :: right,
        (ws.finishStep job phase s r position).2) := by
  generalize hcount : r.length - position = count
  -- the induction is on the number of vertices that are left, each of which takes two moves
  induction count generalizing position ws with
  | zero =>
    have hstop : ws.stop? s r position = some .completed := by rw [stop?, if_pos (by omega)]
    rw [finishStep_eq, hstop]
    exact works_stop left right hstop
  | succ count ih =>
    rw [finishStep_eq]
    cases hstop : ws.stop? s r position with
    | some result => exact works_stop left right hstop
    | none =>
      -- on to the vertex, then over it, and then the rest of the range
      refine (works_enter left right hstop).trans ?_
      have hwork := @works_workOn _ job phase s left right
        (.visiting r position (lt_length_of_stop? hstop)) ws
      rw [workOn] at hwork
      dsimp only
      rcases hattempt : ws.attempt job phase s r position with ⟨_ | result, ws'⟩
      · simp only [hattempt, List.append_assoc] at hwork
        exact hwork.trans (ih (position + 1) ws' (by omega))
      · simp only [hattempt, List.append_assoc] at hwork
        exact hwork

/-- A range that is halved is finished half by half. -/
theorem finishRange_of_some {r a b : VertexRange} {ws : Workspace α}
    (h : job.computer.split? ws.aborted r = some (a, b)) :
    ws.finishRange job phase s r =
      ((ws.finishRange job phase s a).1
          ++ ((ws.finishRange job phase s a).2.finishRange job phase s b).1,
        ((ws.finishRange job phase s a).2.finishRange job phase s b).2) := by
  rw [finishRange]
  split
  · rename_i h'
    obtain ⟨rfl, rfl⟩ := Prod.mk.inj (Option.some.inj (h'.symm.trans h))
    rfl
  · rename_i h'
    rw [h] at h'
    cases h'

/-- A range that is not halved is finished by one worker. -/
theorem finishRange_of_none {r : VertexRange} {ws : Workspace α}
    (h : job.computer.split? ws.aborted r = none) :
    ws.finishRange job phase s r
      = ([(ws.finishStep job phase s r 0).1], (ws.finishStep job phase s r 0).2) := by
  rw [finishRange]
  split
  · rename_i h'
    rw [h] at h'
    cases h'
  · rfl

/-- Finishing a waiting range is work that leaves its pieces finished in its place. -/
theorem works_finishRange (r : VertexRange) (ws : Workspace α) (left right : List Task) :
    ∃ results : Results, (ws.finishRange job phase s r).1 = results.map Prod.snd ∧
      Works job phase s (left ++ .waiting r :: right, ws)
        (left ++ finishedTasks results ++ right, (ws.finishRange job phase s r).2) := by
  -- the induction is on the length of the range, which every halving shortens
  generalize hlength : r.length = length
  induction length using Nat.strongRecOn generalizing r ws left right with
  | ind length ih =>
    have hwork := @works_workOn _ job phase s left right (.waiting r) ws
    cases hsplit : job.computer.split? ws.aborted r with
    | none =>
      simp only [workOn, hsplit, List.append_assoc] at hwork
      rw [finishRange_of_none hsplit]
      refine ⟨[(r, _)], rfl, hwork.trans ?_⟩
      simpa [finishedTasks] using works_finishStep left right r 0 ws
    | some halves =>
      obtain ⟨a, b⟩ := halves
      obtain ⟨ha, hb⟩ := Computer.split?_shorter hsplit
      simp only [workOn, hsplit, List.append_assoc] at hwork
      rw [finishRange_of_some hsplit]
      -- the left half is finished while the right one still waits
      obtain ⟨results, hresults, hfirst⟩ :=
        ih a.length (by omega) a ws left (.waiting b :: right) rfl
      obtain ⟨results', hresults', hsecond⟩ :=
        ih b.length (by omega) b _ (left ++ finishedTasks results) right rfl
      refine ⟨results ++ results', by rw [hresults, hresults', List.map_append], ?_⟩
      have hboth := hwork.trans (hfirst.trans hsecond)
      simpa [finishedTasks, List.append_assoc] using hboth

/-- Finishing any task is work. -/
theorem works_finishTask (task : Task) (ws : Workspace α) (left right : List Task) :
    ∃ results : Results, (ws.finishTask job phase s task).1 = results.map Prod.snd ∧
      Works job phase s (left ++ task :: right, ws)
        (left ++ finishedTasks results ++ right, (ws.finishTask job phase s task).2) := by
  -- a waiting range may still be halved, a running one goes on to its end
  cases task with
  | waiting r => exact works_finishRange r ws left right
  | running r position =>
    refine ⟨[(r, (ws.finishStep job phase s r position).1)], rfl, ?_⟩
    simpa [finishTask, finishedTasks] using works_finishStep left right r position ws
  | visiting r position h =>
    have hwork := @works_workOn _ job phase s left right (.visiting r position h) ws
    rw [workOn] at hwork
    rw [finishTask]
    rcases hattempt : ws.attempt job phase s r position with ⟨_ | result, ws'⟩
    · simp only [hattempt, List.append_assoc] at hwork
      refine ⟨[(r, (ws'.finishStep job phase s r (position + 1)).1)], rfl, hwork.trans ?_⟩
      simpa [finishedTasks] using works_finishStep left right r (position + 1) ws'
    · simp only [hattempt, List.append_assoc] at hwork
      exact ⟨[(r, result)], rfl, by simpa [finishedTasks] using hwork⟩
  | finished r result =>
    refine ⟨[(r, result)], rfl, ?_⟩
    simpa [finishTask, finishedTasks] using Works.refl _

/-- Finishing all tasks from left to right is work. -/
theorem works_finishTasks (tasks : List Task) (ws : Workspace α) (left : List Task) :
    ∃ results : Results, (ws.finishTasks job phase s tasks).1 = results.map Prod.snd ∧
      Works job phase s (left ++ tasks, ws)
        (left ++ finishedTasks results, (ws.finishTasks job phase s tasks).2) := by
  induction tasks generalizing ws left with
  | nil => exact ⟨[], rfl, Works.refl _⟩
  | cons task tasks ih =>
    obtain ⟨results, hresults, hfirst⟩ := @works_finishTask _ job phase s task ws left tasks
    -- what is finished joins the tasks on the left
    obtain ⟨results', hresults', hrest⟩ :=
      ih (ws.finishTask job phase s task).2 (left ++ finishedTasks results)
    refine ⟨results ++ results', ?_, ?_⟩
    · rw [List.map_append, ← hresults, ← hresults']
      rfl
    · have hboth := hfirst.trans hrest
      rw [List.append_assoc, finishedTasks, finishedTasks, ← List.map_append] at hboth
      exact hboth

/-- After the moves of the schedule the tasks that it left are worked through. -/
theorem runPhase_eq {schedule : Schedule} {ws ws₁ : Workspace α} {tasks : List Task}
    (hmoved : (schedule phase s).foldl (move job phase s) (phaseStart job ws) = (tasks, ws₁)) :
    ws.runPhase job schedule phase s
      = (StepResult.combine (ws₁.finishTasks job phase s tasks).1,
        (ws₁.finishTasks job phase s tasks).2) := by
  rw [phaseStart] at hmoved
  rw [runPhase, hmoved]

/-- A phase is the moves of the schedule, and then moves of the workers that finish every task. -/
theorem runPhase_works (schedule : Schedule) (ws : Workspace α) :
    ∃ (moves : List Move) (results : Results), .raiseFlag ∉ moves ∧
      (schedule phase s ++ moves).foldl (move job phase s) (phaseStart job ws)
          = (finishedTasks results, (ws.runPhase job schedule phase s).2) ∧
        (ws.runPhase job schedule phase s).1 = StepResult.combine (results.map Prod.snd) := by
  rcases hmoved : (schedule phase s).foldl (move job phase s) (phaseStart job ws) with ⟨tasks, ws₁⟩
  obtain ⟨results, hresults, moves, hwork, hmoves⟩ :=
    @works_finishTasks _ job phase s tasks ws₁ []
  -- the moves of the schedule come first
  have hrun := runPhase_eq hmoved
  refine ⟨moves, results, hwork, ?_, ?_⟩
  · rw [List.foldl_append, hmoved, hrun]
    exact hmoves
  · rw [hrun, hresults]

/-- A phase is a list of moves that finishes every task, the moves of the schedule first. -/
theorem runPhase_moves (schedule : Schedule) (ws : Workspace α) :
    ∃ (moves : List Move) (results : Results), schedule phase s <+: moves ∧
      moves.foldl (move job phase s) (phaseStart job ws)
          = (finishedTasks results, (ws.runPhase job schedule phase s).2) ∧
        (ws.runPhase job schedule phase s).1 = StepResult.combine (results.map Prod.snd) := by
  obtain ⟨moves, results, -, hmoves, hcombine⟩ := @runPhase_works _ job phase s schedule ws
  exact ⟨schedule phase s ++ moves, results, List.prefix_append _ _, hmoves, hcombine⟩

/-! ## How a phase ends -/

/-- A phase ends well exactly if every worker has gone through its range. -/
theorem combine_eq_ok_iff (results : List StepResult) :
    StepResult.combine results = .ok () ↔ ∀ result ∈ results, result = .completed := by
  unfold StepResult.combine
  constructor
  · intro h result hmem
    split at h
    · cases h
    · rename_i hviolation
      split at h
      · cases h
      · rename_i herror
        -- nobody reported a violation or an error, so what is left is success
        have hno := List.findSome?_eq_none_iff.mp hviolation result hmem
        have hno' := List.findSome?_eq_none_iff.mp herror result hmem
        cases result with
        | completed => rfl
        | failed e => cases hno'
        | violated v => cases hno
  · intro h
    have hno : results.findSome? StepResult.violation? = none :=
      List.findSome?_eq_none_iff.mpr fun result hmem => by rw [h result hmem]; rfl
    have hno' : results.findSome? StepResult.error? = none :=
      List.findSome?_eq_none_iff.mpr fun result hmem => by rw [h result hmem]; rfl
    rw [hno, hno']

/-- A phase that a worker was broken off in ends with a violation. -/
theorem combine_of_violated {results : List StepResult} {v : Violation}
    (h : .violated v ∈ results) : ∃ v', StepResult.combine results = .error (.violation v') := by
  have hsome : (results.findSome? StepResult.violation?).isSome = true :=
    List.findSome?_isSome_iff.mpr ⟨_, h, rfl⟩
  obtain ⟨v', hv'⟩ := Option.isSome_iff_exists.mp hsome
  exact ⟨v', by rw [StepResult.combine, hv']⟩

/-- The error that a phase ends with is that of a worker. -/
theorem failed_of_combine_eq_error {results : List StepResult} {e : RunError}
    (h : StepResult.combine results = .error (.error e)) : .failed e ∈ results := by
  unfold StepResult.combine at h
  split at h
  · cases h
  · split at h
    · rename_i hsome
      -- nobody was broken off, so the first error counts
      obtain ⟨result, hmem, hresult⟩ := List.exists_of_findSome?_eq_some hsome
      cases result with
      | failed e' =>
        cases h
        cases hresult
        exact hmem
      | completed => cases hresult
      | violated v => cases hresult
    · cases h

/-- When every worker has gone through its range, every vertex was visited. -/
theorem PhaseInv.perm_of_completed {ws₀ ws : Workspace α} {visited dropped : List Nat}
    {results : Results} (h : PhaseInv job phase s ws₀ visited dropped (finishedTasks results) ws)
    (hcompleted : ∀ r ∈ results, r.2 = .completed) :
    visited.Perm (List.range job.graph.nodeCount) := by
  have hnone : ∀ task ∈ finishedTasks results, task.hasFailed = false := by
    intro task htask
    obtain ⟨r, hr, rfl⟩ := List.mem_map.mp htask
    rw [Task.hasFailed, hcompleted r hr]
    rfl
  -- vertices are given up only if a worker has failed
  have hdropped : dropped = [] := by
    by_contra hne
    obtain ⟨task, htask, hfailed⟩ := h.dropped hne
    rw [hnone task htask] at hfailed
    cases hfailed
  -- and a finished task has nothing ahead
  have hahead : (finishedTasks results).flatMap Task.ahead = [] := by
    rw [finishedTasks, List.flatMap_map]
    simp [Task.ahead]
  have hcovered := h.covered
  rwa [hdropped, hahead, List.append_nil, List.append_nil] at hcovered

/-- A phase visits no vertex twice, and every vertex if it succeeds. If it ends because of the flag,
the flag is raised. -/
theorem runPhase_traverses (schedule : Schedule) (ws : Workspace α) :
    ∃ vs : List Nat,
      Traverses job phase s { ws with aborted := false, stats := .zero } vs
          (ws.runPhase job schedule phase s).2 ∧
        vs.Nodup ∧
        ((ws.runPhase job schedule phase s).1 = .ok () →
          vs.Perm (List.range job.graph.nodeCount)) ∧
        ∀ s', (ws.runPhase job schedule phase s).1 = .error (.error (.terminated s')) →
          (ws.runPhase job schedule phase s).2.flag.raised = true := by
  obtain ⟨moves, results, -, hmoves, hcombine⟩ := @runPhase_moves _ job phase s schedule ws
  obtain ⟨dropped, hinv⟩ := @phaseInv_moves _ job phase s ws moves
  rw [hmoves] at hinv
  refine ⟨_, hinv.traverses, ?_, ?_, ?_⟩
  · -- the vertices of the graph are different, and the visited ones are some of them
    have hall := hinv.covered.nodup_iff.mpr List.nodup_range
    rw [List.append_assoc] at hall
    exact (List.nodup_append.mp hall).1
  · intro hok
    rw [hcombine, combine_eq_ok_iff] at hok
    exact hinv.perm_of_completed fun r hr => hok r.2 (List.mem_map_of_mem hr)
  · intro s' herror
    rw [hcombine] at herror
    -- the worker that ended with the flag has seen it raised
    obtain ⟨r, hr, hresult⟩ := List.mem_map.mp (failed_of_combine_eq_error herror)
    refine hinv.terminated r.1 s' ?_
    rw [← hresult]
    exact List.mem_map_of_mem hr

/-- The same of a phase whose outcome and workspace are known. -/
theorem traverses_of_runPhase {schedule : Schedule} {ws ws' : Workspace α} {out : Except Stop Unit}
    (h : ws.runPhase job schedule phase s = (out, ws')) :
    ∃ vs : List Nat,
      Traverses job phase s { ws with aborted := false, stats := .zero } vs ws' ∧ vs.Nodup ∧
        (out = .ok () → vs.Perm (List.range job.graph.nodeCount)) ∧
        ∀ s', out = .error (.error (.terminated s')) → ws'.flag.raised = true := by
  have htraverses := @runPhase_traverses _ job phase s schedule ws
  rw [h] at htraverses
  exact htraverses

end Workspace

end Superstep
