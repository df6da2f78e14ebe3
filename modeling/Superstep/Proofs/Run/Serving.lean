import Mathlib
import Superstep.Proofs.Run.Boundary

/-!
# What every run keeps

`Serves` is the part of a run's invariant that holds for every program and every messenger: the bit
sets and the messenger are made for the vertices of the graph, and the messenger is the one that was
chosen at the start. With the roles of the messenger's buffers it holds at every boundary.

## Key results

- `Workspace.prepare_spec`: who is awake when a superstep begins
- `Workspace.StandsAt.serves`: the invariant holds at every boundary of a run
-/

namespace Superstep

variable {α : Type}

namespace Workspace

variable {job : Job α} {schedule : Schedule} {s : Nat}

/-! ## The start of a superstep -/

/-- What waking the vertices `vs` changes. -/
structure Woken (vs : List Nat) (ws ws' : Workspace α) : Prop where
  frame : ws' = { ws with halted := ws'.halted, frontier := ws'.frontier }
  haltedSize : ws'.halted.size = ws.halted.size
  frontierSize : ws'.frontier.size = ws.frontier.size
  halted : ∀ v, ws'.halted.contains v
    = (ws.halted.contains v && !(decide (v ∈ vs) && ws.messenger.hasMail v))
  frontier : ∀ v, v < ws.frontier.size → ws'.frontier.contains v
    = (ws.frontier.contains v || decide (v ∈ vs)
        && (ws.messenger.hasMail v || !ws.halted.contains v))

/-- What one vertex's turn changes when a superstep begins. -/
theorem woken_wake (ws : Workspace α) (u : Nat) : Woken [u] ws (ws.wake u) := by
  unfold wake
  -- messages wake a vertex and take its vote back, else only a missing vote does
  cases hmail : ws.messenger.hasMail u with
  | true =>
    rw [if_pos rfl]
    refine ⟨rfl, by simp, by simp, fun v => ?_, fun v hv => ?_⟩
    · rw [BitSet.contains_erase]
      -- the vertex `u` itself, and any other
      by_cases huv : u = v
      · simp [← huv, hmail]
      · simp [huv, Ne.symm huv]
    · rw [BitSet.contains_insert]
      by_cases huv : u = v
      · subst huv
        simp [hmail, hv]
      · simp [huv, Ne.symm huv]
  | false =>
    rw [if_neg (by decide)]
    cases hhalted : ws.halted.contains u with
    | true =>
      rw [if_pos rfl]
      refine ⟨rfl, rfl, rfl, fun v => ?_, fun v hv => ?_⟩ <;> by_cases huv : v = u
      · simp [huv, hmail]
      · simp [huv]
      · simp [huv, hmail, hhalted]
      · simp [huv]
    | false =>
      rw [if_neg (by decide)]
      refine ⟨rfl, rfl, by simp, fun v => ?_, fun v hv => ?_⟩
      · by_cases huv : v = u
        · simp [huv, hmail]
        · simp [huv]
      · rw [BitSet.contains_insert]
        by_cases huv : u = v
        · subst huv
          simp [hhalted, hv]
        · simp [huv, Ne.symm huv]

/-- The vertices take their turn one after the other, and none changes another's. -/
theorem woken_foldl (vs : List Nat) (ws : Workspace α) : Woken vs ws (vs.foldl wake ws) := by
  -- on the vertices; the first one is woken, and then the others
  induction vs generalizing ws with
  | nil => exact ⟨rfl, rfl, rfl, by simp, by simp⟩
  | cons u vs ih =>
    have hfirst := woken_wake ws u
    have hrest := ih (ws.wake u)
    have hmessenger : (ws.wake u).messenger = ws.messenger :=
      (congrArg Workspace.messenger hfirst.frame :)
    rw [List.foldl_cons]
    refine ⟨?_, hrest.haltedSize.trans hfirst.haltedSize,
      hrest.frontierSize.trans hfirst.frontierSize, fun v => ?_, fun v hv => ?_⟩
    · -- both frames are substituted, so that the updates fall together
      have hframe := hfirst.frame
      have hframe' := hrest.frame
      generalize vs.foldl wake (ws.wake u) = ws₂ at hframe' ⊢
      generalize ws.wake u = ws₁ at hframe hframe'
      generalize ws₁.halted = halted, ws₁.frontier = frontier at hframe
      generalize ws₂.halted = halted', ws₂.frontier = frontier' at hframe'
      subst hframe hframe'
      rfl
    · -- waking `u` again changes nothing, should it come once more
      rw [hrest.halted, hfirst.halted, hmessenger]
      by_cases huv : v = u
      · subst huv
        cases ws.messenger.hasMail v <;> simp
      · simp [huv]
    · rw [hrest.frontier v (by rw [hfirst.frontierSize]; exact hv), hfirst.frontier v hv,
        hfirst.halted, hmessenger]
      by_cases huv : v = u
      · subst huv
        cases ws.messenger.hasMail v <;> cases ws.halted.contains v <;> simp
      · simp [huv]

/-- Getting ready for a superstep changes the bit sets and the messenger only. -/
theorem prepare_frame (ws : Workspace α) (s : Nat) :
    ws.prepare s = { ws with halted := (ws.prepare s).halted, frontier := (ws.prepare s).frontier
                             messenger := ws.messenger.prepare s } :=
  (woken_foldl (List.range ws.frontier.clear.size)
    { ws with messenger := ws.messenger.prepare s, frontier := ws.frontier.clear }).frame

/-- Who is awake when a superstep begins: whoever has not voted to halt or has messages. Messages
take the vote back. -/
theorem prepare_spec {n : Nat} {ws : Workspace α} (h : ws.Fits n) (s : Nat) :
    (ws.prepare s).Fits n ∧
      ws.prepare s = { ws with halted := (ws.prepare s).halted, frontier := (ws.prepare s).frontier
                               messenger := ws.messenger.prepare s } ∧
      (∀ v, (ws.prepare s).halted.contains v
        = (ws.halted.contains v && !(ws.messenger.prepare s).hasMail v)) ∧
      ∀ v, v < n → (ws.prepare s).frontier.contains v
        = ((ws.messenger.prepare s).hasMail v || !ws.halted.contains v) := by
  have hwoken := woken_foldl (List.range ws.frontier.clear.size)
    { ws with messenger := ws.messenger.prepare s, frontier := ws.frontier.clear }
  change Woken _ _ (ws.prepare s) at hwoken
  rw [BitSet.size_clear, h.frontier] at hwoken
  have hmessenger : (ws.prepare s).messenger = ws.messenger.prepare s :=
    (congrArg Workspace.messenger hwoken.frame :)
  refine ⟨⟨?_, ?_, ?_⟩, prepare_frame ws s, fun v => ?_, fun v hv => ?_⟩
  · rw [hwoken.haltedSize, h.halted]
  · rw [hwoken.frontierSize, BitSet.size_clear, h.frontier]
  · rw [hmessenger]
    exact h.messenger.prepare s
  · rw [hwoken.halted]
    -- every vertex takes its turn
    by_cases hv : v < n
    · simp [hv]
    · rw [BitSet.contains_eq_false_of_le _ (by rw [h.halted]; omega)]
      rfl
  · -- the frontier was cleared, so only those woken now are in it
    rw [hwoken.frontier v (by rw [BitSet.size_clear, h.frontier]; exact hv)]
    simp [hv]

/-! ## The invariant of every run -/

/-- The workspace is made for the job. -/
structure Serves (job : Job α) (ws : Workspace α) : Prop where
  fits : ws.Fits job.graph.nodeCount
  reducer? : ws.messenger.reducer? = job.program.reducer
  isDoubleBuffered : ws.messenger.isDoubleBuffered
    = (job.program.reducer.isSome || !job.config.isAsynchronous)

/-- The invariant is about the bit sets and the messenger only. -/
theorem Serves.congr {ws ws' : Workspace α} (h : ws.Serves job) (hhalted : ws'.halted = ws.halted)
    (hfrontier : ws'.frontier = ws.frontier) (hmessenger : ws'.messenger = ws.messenger) :
    ws'.Serves job where
  fits := ⟨hhalted ▸ h.fits.halted, hfrontier ▸ h.fits.frontier, hmessenger ▸ h.fits.messenger⟩
  reducer? := hmessenger ▸ h.reducer?
  isDoubleBuffered := hmessenger ▸ h.isDoubleBuffered

/-- Neither a set-up nor a visit changes what the invariant is about. -/
theorem Serves.visit {ws : Workspace α} (h : ws.Serves job) (phase : Phase) {v : Nat}
    (hv : v < job.graph.nodeCount) :
    (ws.visit job phase s v).2.Serves job ∧
      ∀ s', ws.messenger.Faces s' → (ws.visit job phase s v).2.messenger.Faces s' := by
  -- setting up touches values and the journal only
  cases phase with
  | init => exact ⟨h.congr rfl rfl rfl, fun _ => id⟩
  | compute =>
    cases hawake : ws.isAwake v with
    | false =>
      -- a sleeping vertex is passed over
      rw [Workspace.visit, visitCompute_of_asleep hawake]
      exact ⟨h, fun _ => id⟩
    | true =>
      obtain ⟨hcalled, -⟩ := @called_visitCompute _ _ job s v ws h.fits hv hawake
      exact ⟨⟨hcalled.fits, hcalled.reducer?.trans h.reducer?,
        hcalled.isDoubleBuffered.trans h.isDoubleBuffered⟩, hcalled.faces⟩

/-- The visits of a phase keep the invariant and the roles of the buffers. -/
theorem Traverses.serves {phase : Phase} {ws₀ ws : Workspace α} {vs : List Nat}
    (h : Traverses job phase s ws₀ vs ws) (h₀ : ws₀.Serves job) :
    ws.Serves job ∧ ∀ s', ws₀.messenger.Faces s' → ws.messenger.Faces s' := by
  -- only visits touch what the invariant is about
  induction h with
  | start => exact ⟨h₀, fun _ => id⟩
  | visit _ hv ih =>
    obtain ⟨hserves, hfaces⟩ := ih
    obtain ⟨hnext, hfaces'⟩ := @Serves.visit _ job s _ hserves phase _ hv
    exact ⟨hnext, fun s' hs => hfaces' s' (hfaces s' hs)⟩
  | raise _ ih => exact ⟨ih.1.congr rfl rfl rfl, ih.2⟩
  | abort _ ih => exact ⟨ih.1.congr rfl rfl rfl, ih.2⟩
  | note _ _ _ ih => exact ⟨ih.1.congr rfl rfl rfl, ih.2⟩

/-- Setting vertices up sends nothing, wakes nobody and puts nobody to sleep. -/
theorem Traverses.set_up {ws₀ ws : Workspace α} {vs : List Nat}
    (h : Traverses job .init s ws₀ vs ws) :
    ws.messenger = ws₀.messenger ∧ ws.halted = ws₀.halted ∧ ws.frontier = ws₀.frontier := by
  induction h with
  | start => exact ⟨rfl, rfl, rfl⟩
  | visit _ _ ih => exact ih
  | raise _ ih => exact ih
  | abort _ ih => exact ih
  | note _ _ _ ih => exact ih

/-- Getting ready for a superstep is not logged, entering it is. -/
theorem journal_opened (ws : Workspace α) (s : Nat) :
    (∀ phase, (ws.opened s).journal.calls phase = ws.journal.calls phase) ∧
      (ws.opened s).journal.computed = ws.journal.computed ∧
      (ws.opened s).journal.figures = ws.journal.figures := by
  have hjournal : (ws.opened s).journal = ws.journal.push (.transition ws.state (.running s)) :=
    (congrArg Workspace.journal (prepare_frame (ws.transition (.running s)) s) :)
  rw [hjournal]
  refine ⟨fun phase => ?_, ?_, ?_⟩
  · simp [Journal.calls_push, Event.call?]
  · simp [Journal.computed_push, Event.computed?]
  · simp [Journal.figures_push, Event.figures?]

/-- Entering a superstep keeps the invariant and makes the buffers face the superstep. -/
theorem Serves.opened {ws : Workspace α} (h : ws.Serves job) (s : Nat) :
    (ws.opened s).Serves job ∧ (ws.opened s).messenger.Faces s := by
  have hfits : (ws.transition (.running s)).Fits job.graph.nodeCount :=
    ⟨h.fits.halted, h.fits.frontier, h.fits.messenger⟩
  obtain ⟨hprepared, hframe, -, -⟩ := prepare_spec hfits s
  have hmessenger : (ws.opened s).messenger = ws.messenger.prepare s :=
    (congrArg Workspace.messenger hframe :)
  refine ⟨⟨⟨hprepared.halted, hprepared.frontier, hprepared.messenger⟩, ?_, ?_⟩, ?_⟩
  · rw [hmessenger, Messenger.reducer?_prepare]
    exact h.reducer?
  · rw [hmessenger, Messenger.isDoubleBuffered_prepare]
    exact h.isDoubleBuffered
  · rw [hmessenger]
    exact Messenger.faces_prepare h.fits.messenger s

/-- What a superstep that ended without failure made of the workspace `ws₁` of its workers. -/
structure Finishes (job : Job α) (s : Nat) (control : Control) (ws₁ ws' : Workspace α) : Prop where
  halted : ws'.halted = ws₁.halted
  frontier : ws'.frontier = ws₁.frontier
  messenger : ws'.messenger = ws₁.messenger
  raised : ws₁.flag.raised = true → ws'.flag.raised = true
  calls : ∀ phase, ws'.journal.calls phase = ws₁.journal.calls phase
  computed : ws'.journal.computed = ws₁.journal.computed ++ [s]
  figures : ws'.journal.figures = ws₁.journal.figures
    ++ [⟨s, ws₁.frontier.cardinality, ws₁.stats, ws₁.halted.cardinality, ws₁.messenger.pending⟩]
  outcome : (job.program.master ⟨job.graph, job.config, s, ws₁.flag⟩ ws₁.values).outcome
    = .ok control
  values : ws'.values = (job.program.master ⟨job.graph, job.config, s, ws₁.flag⟩ ws₁.values).values

/-- A superstep whose master went through is finished with the vertices as the workers left them. -/
theorem finishes_of_masterCompute {control : Control} {ws₁ ws₂ : Workspace α}
    (h : masterCompute job s (ws₁.transition (.masterComputing s)) = (.ok control, ws₂)) :
    Finishes job s control ws₁ (ws₂.note (.superstepFinished (ws₂.superstepStats s))) := by
  have hframe := masterCompute_frame job s (ws₁.transition (.masterComputing s))
  have hraised := @raised_masterCompute _ job s (ws₁.transition (.masterComputing s))
  have hvalues : ws₂.values
      = (job.program.master ⟨job.graph, job.config, s, ws₁.flag⟩ ws₁.values).values := by
    rw [← (congrArg (fun out => out.2.values) h :)]
    rfl
  have houtcome := congrArg Prod.fst h
  rw [h] at hframe hraised
  simp only at hframe hraised
  generalize ws₂.flag = flag, ws₂.values = values at hframe hraised hvalues
  -- after this only flag and values can differ from `ws₁`
  subst hframe
  refine ⟨rfl, rfl, rfl, hraised, fun phase => ?_, ?_, ?_, ?_, hvalues⟩
  · simp [note, transition, Journal.calls_push, Event.call?]
  · simp [note, transition, Journal.computed_push, Event.computed?]
  · simp [note, transition, Journal.figures_push, Event.figures?, superstepStats]
  · rw [masterCompute] at houtcome
    simp only [transition] at houtcome
    -- of the three answers of the program's step one lets the superstep end
    split at houtcome
    · rename_i heq
      rw [heq]
      cases houtcome
      rfl
    · cases houtcome
    · cases houtcome

/-- A superstep that ended without failure visited every vertex. -/
theorem SuperstepEnds.of_ok {ws ws' : Workspace α} {control : Control}
    (h : SuperstepEnds job s ws (.ok control) ws') :
    ∃ vs ws₁, Traverses job .compute s (ws.opened s) vs ws₁ ∧
      vs.Perm (List.range job.graph.nodeCount) ∧ Finishes job s control ws₁ ws' := by
  cases h with
  | @finished vs ws₁ ws₂ _ htraverses hperm hmaster =>
    exact ⟨vs, ws₁, htraverses, hperm, finishes_of_masterCompute hmaster⟩

/-- What the journal shows of a superstep, however it ended. -/
theorem SuperstepEnds.journal {ws ws' : Workspace α} {out : Except Stop Control}
    (h : SuperstepEnds job s ws out ws') :
    ∃ vs ws₁, Traverses job .compute s (ws.opened s) vs ws₁ ∧ vs.Nodup ∧
      (∀ phase, ws'.journal.calls phase = ws₁.journal.calls phase) ∧
      (ws'.journal.computed = ws.journal.computed ∨
        vs.Perm (List.range job.graph.nodeCount) ∧
          ws'.journal.computed = ws.journal.computed ++ [s]) := by
  have hopened := (journal_opened ws s).2.1
  -- broken off by a worker, by the program's step, or not at all
  cases h with
  | @broken vs _ stop htraverses hnodup hflag =>
    exact ⟨vs, ws', htraverses, hnodup, fun _ => rfl,
      .inl (htraverses.journal.1.trans hopened)⟩
  | @masterFailed vs ws₁ _ stop htraverses hperm hmaster =>
    -- the workers visited everybody, and the master's failure left no trace
    have hframe := masterCompute_frame job s (ws₁.transition (.masterComputing s))
    rw [hmaster] at hframe
    have hjournal : ws'.journal = ws₁.journal.push (.transition ws₁.state (.masterComputing s)) :=
      (congrArg Workspace.journal hframe :)
    refine ⟨vs, ws₁, htraverses, hperm.nodup_iff.mpr List.nodup_range, fun phase => ?_,
      .inr ⟨hperm, ?_⟩⟩
    · rw [hjournal, Journal.calls_push]
      exact List.append_nil _
    · rw [hjournal, Journal.computed_push, htraverses.journal.1, hopened]
      rfl
  | @finished vs ws₁ ws₂ control htraverses hperm hmaster =>
    have hfinishes := finishes_of_masterCompute hmaster
    refine ⟨vs, ws₁, htraverses, hperm.nodup_iff.mpr List.nodup_range, hfinishes.calls,
      .inr ⟨hperm, ?_⟩⟩
    rw [hfinishes.computed, htraverses.journal.1, hopened]

/-- A superstep that ended without failure keeps the invariant. -/
theorem SuperstepEnds.serves {ws ws' : Workspace α} {control : Control}
    (h : SuperstepEnds job s ws (.ok control) ws') (hserves : ws.Serves job) :
    ws'.Serves job ∧ ws'.messenger.Faces s := by
  obtain ⟨vs, ws₁, htraverses, -, hfinishes⟩ := h.of_ok
  obtain ⟨hopened, hfaces⟩ := hserves.opened s
  obtain ⟨hlast, hfaces'⟩ := htraverses.serves hopened
  refine ⟨hlast.congr hfinishes.halted hfinishes.frontier hfinishes.messenger, ?_⟩
  rw [hfinishes.messenger]
  exact hfaces' s hfaces

/-- The invariant holds at every boundary, and the buffers are ready for the superstep. -/
theorem StandsAt.serves {ws₀ ws : Workspace α} (h : StandsAt job schedule ws₀ s ws)
    (h₀ : ws₀.Serves job) (hready : ws₀.messenger.ReadyFor 0) :
    ws.Serves job ∧ ws.messenger.ReadyFor s := by
  refine @invariant _ _ _ _ (fun s ws => ws.Serves job ∧ ws.messenger.ReadyFor s) _ _ h ?_ ?_
  · -- setting up leaves the messenger alone
    intro vs ws _ htraverses
    obtain ⟨hserves, -⟩ := htraverses.serves (h₀.congr rfl rfl rfl)
    refine ⟨hserves, ?_⟩
    rw [htraverses.set_up.1]
    exact hready
  · intro s ws ws' hinv hends
    obtain ⟨hserves, hfaces⟩ := hends.serves hinv.1
    exact ⟨hserves, .of_faces hfaces⟩

/-- After the superstep the buffers are ready for the next one. -/
theorem Computes.serves {ws₀ ws : Workspace α} {control : Control}
    (h : Computes job schedule ws₀ s (.ok control) ws) (h₀ : ws₀.Serves job)
    (hready : ws₀.messenger.ReadyFor 0) : ws.Serves job ∧ ws.messenger.ReadyFor (s + 1) := by
  obtain ⟨ws', hstands, -, -, hsuperstep⟩ := h
  have hends := SuperstepEnds.of_superstep hsuperstep
  obtain ⟨hserves, hfaces⟩ := hends.serves (hstands.serves h₀ hready).1
  exact ⟨hserves, .of_faces hfaces⟩

/-- At the boundary before superstep `s` the supersteps below `s` have been computed. -/
theorem StandsAt.log {ws₀ ws : Workspace α} (h : StandsAt job schedule ws₀ s ws)
    (h₀ : ws₀.journal.computed = [] ∧ ws₀.journal.figures = []) :
    ws.journal.computed = List.range s ∧
      ws.journal.figures.map (·.superstep) = List.range s := by
  refine @invariant _ _ _ _ (fun s ws => ws.journal.computed = List.range s ∧
    ws.journal.figures.map (·.superstep) = List.range s) _ _ h ?_ ?_
  · -- setting up logs no superstep
    intro vs ws _ htraverses
    obtain ⟨hcomputed, hfigures, -⟩ := htraverses.journal
    rw [hcomputed, hfigures]
    exact ⟨h₀.1, congrArg (List.map (·.superstep)) h₀.2⟩
  · -- a superstep adds itself to both
    intro s ws ws' hlog hends
    obtain ⟨vs, ws₁, htraverses, -, hfinishes⟩ := hends.of_ok
    obtain ⟨hcomputed, hfigures, -⟩ := htraverses.journal
    obtain ⟨-, hcomputed', hfigures'⟩ := journal_opened ws s
    rw [hfinishes.computed, hcomputed, hcomputed', hlog.1, hfinishes.figures, hfigures, hfigures',
      List.map_append, hlog.2, List.range_succ]
    exact ⟨rfl, rfl⟩

/-- The journal of a run was left by its set-up, at a boundary or by its last superstep. -/
theorem RunEnds.journal_cases {ws₀ ws : Workspace α} {out : Except Stop Ending}
    (h : RunEnds job schedule ws₀ out ws) :
    ∃ last : Workspace α, (∀ phase, ws.journal.calls phase = last.journal.calls phase) ∧
      ws.journal.computed = last.journal.computed ∧ ws.journal.figures = last.journal.figures ∧
      (last = ws₀ ∨
        (∃ vs, Traverses job .init 0 { ws₀ with aborted := false, stats := .zero } vs last) ∨
        (∃ s, StandsAt job schedule ws₀ s last) ∨
        ∃ s before stepOut, StandsAt job schedule ws₀ s before ∧
          SuperstepEnds job s before stepOut last) := by
  -- the last change of state shows in none of the three
  have hentered (last : Workspace α) (state : RunState) (hstate : ∀ s, state ≠ .masterComputing s) :
      (∀ phase, (last.transition state).journal.calls phase = last.journal.calls phase) ∧
        (last.transition state).journal.computed = last.journal.computed ∧
        (last.transition state).journal.figures = last.journal.figures := by
    refine ⟨fun phase => ?_, ?_, ?_⟩
    · simp [transition, Journal.calls_push, Event.call?]
    · cases state <;> simp_all [transition, Journal.computed_push, Event.computed?]
    · simp [transition, Journal.figures_push, Event.figures?]
  have hcomputes {s : Nat} {stepOut : Except Stop Control} {last : Workspace α}
      (hc : Computes job schedule ws₀ s stepOut last) :
      ∃ s before stepOut, StandsAt job schedule ws₀ s before ∧
        SuperstepEnds job s before stepOut last := by
    obtain ⟨before, hstands, -, -, hsuperstep⟩ := hc
    have hends := SuperstepEnds.of_superstep hsuperstep
    exact ⟨s, before, stepOut, hstands, hends⟩
  -- the ends of a run, by what was there last
  cases h with
  | neverStarted hflag => exact ⟨ws₀, fun _ => rfl, rfl, rfl, .inl rfl⟩
  | setUpFailed hflag hinit =>
    obtain ⟨vs, htraverses, -⟩ := traverses_of_runPhase hinit
    exact ⟨ws, fun _ => rfl, rfl, rfl, .inr (.inl ⟨vs, htraverses⟩)⟩
  | @capped last h =>
    obtain ⟨hcalls, hcomputed, hfigures⟩ := hentered last .reachedMaxIterations (by simp)
    exact ⟨last, hcalls, hcomputed, hfigures, .inr (.inr (.inl ⟨_, h⟩))⟩
  | terminated h hs hflag => exact ⟨ws, fun _ => rfl, rfl, rfl, .inr (.inr (.inl ⟨_, h⟩))⟩
  | failed h => exact ⟨ws, fun _ => rfl, rfl, rfl, .inr (.inr (.inr (hcomputes h)))⟩
  | @halted s last h =>
    obtain ⟨hcalls, hcomputed, hfigures⟩ := hentered last .converged (by simp)
    exact ⟨last, hcalls, hcomputed, hfigures, .inr (.inr (.inr (hcomputes h)))⟩
  | @converged s last h hquiet =>
    obtain ⟨hcalls, hcomputed, hfigures⟩ := hentered last .converged (by simp)
    exact ⟨last, hcalls, hcomputed, hfigures, .inr (.inr (.inr (hcomputes h)))⟩

/-- The supersteps whose figures were taken are among those that were computed. -/
theorem SuperstepEnds.superstep_mem_computed {ws ws' : Workspace α} {out : Except Stop Control}
    (h : SuperstepEnds job s ws out ws')
    (hlog : ∀ stats ∈ ws.journal.figures, stats.superstep ∈ ws.journal.computed) :
    ∀ stats ∈ ws'.journal.figures, stats.superstep ∈ ws'.journal.computed := by
  obtain ⟨-, hcomputed, hfigures⟩ := journal_opened ws s
  intro stats hstats
  -- only a superstep that ended without failure takes figures
  cases h with
  | @broken vs _ stop htraverses =>
    rw [htraverses.journal.2.1, hfigures] at hstats
    rw [htraverses.journal.1, hcomputed]
    exact hlog stats hstats
  | @masterFailed vs ws₁ _ stop htraverses hperm hmaster =>
    have hframe := masterCompute_frame job s (ws₁.transition (.masterComputing s))
    rw [hmaster] at hframe
    have hjournal : ws'.journal = ws₁.journal.push (.transition ws₁.state (.masterComputing s)) :=
      (congrArg Workspace.journal hframe :)
    rw [hjournal, Journal.figures_push, htraverses.journal.2.1, hfigures] at hstats
    rw [hjournal, Journal.computed_push, htraverses.journal.1, hcomputed]
    exact List.mem_append_left _ (hlog stats (by simpa [Event.figures?] using hstats))
  | @finished vs ws₁ ws₂ control htraverses hperm hmaster =>
    have hfinishes := finishes_of_masterCompute hmaster
    rw [hfinishes.figures, htraverses.journal.2.1, hfigures] at hstats
    rw [hfinishes.computed, htraverses.journal.1, hcomputed]
    -- the last figures are those of `s`, which was computed just now
    rcases List.mem_append.mp hstats with hold | hnew
    · exact List.mem_append_left _ (hlog stats hold)
    · rw [List.mem_singleton.mp hnew]
      exact List.mem_append_right _ (List.mem_singleton_self s)

/-- The figures of a whole run are of supersteps that were computed. -/
theorem RunEnds.superstep_mem_computed {ws₀ ws : Workspace α} {out : Except Stop Ending}
    (h : RunEnds job schedule ws₀ out ws)
    (h₀ : ws₀.journal.computed = [] ∧ ws₀.journal.figures = []) :
    ∀ stats ∈ ws.journal.figures, stats.superstep ∈ ws.journal.computed := by
  have hboundary {s : Nat} {ws : Workspace α} (h : StandsAt job schedule ws₀ s ws) :
      ∀ stats ∈ ws.journal.figures, stats.superstep ∈ ws.journal.computed := by
    intro stats hstats
    obtain ⟨hcomputed, hfigures⟩ := h.log h₀
    rw [hcomputed, ← hfigures]
    exact List.mem_map_of_mem hstats
  obtain ⟨last, -, hcomputed, hfigures, hlast⟩ := h.journal_cases
  rw [hcomputed, hfigures]
  -- no figure was taken before the first superstep
  rcases hlast with rfl | ⟨vs, htraverses⟩ | ⟨s, hstands⟩ | ⟨s, before, stepOut, hstands, hends⟩
  · rw [h₀.2]
    exact List.forall_mem_nil _
  · obtain ⟨-, hnone, -⟩ := htraverses.journal
    rw [hnone]
    change ∀ stats ∈ ws₀.journal.figures, _
    rw [h₀.2]
    exact List.forall_mem_nil _
  · exact hboundary hstands
  · exact hends.superstep_mem_computed (hboundary hstands)

end Workspace

/-! ## The workspace that a run starts with -/

namespace Run

variable {graph : Graph α} {config : Config} {program : Program α} {flag : Flag} {r : Run α}

/-- A created run has written down its computer and nothing else. -/
theorem of_create (h : create graph config program flag = .ok r) :
    ∃ computer, r = ⟨⟨graph, program, config, computer⟩, flag, .created,
      #[.created computer graph.nodeCount]⟩ := by
  unfold create at h
  split at h
  · cases h
  · exact ⟨_, (Except.ok.inj h).symm⟩

/-- A created run serves what it was created for. -/
theorem job_of_create (h : create graph config program flag = .ok r) :
    r.job.graph = graph ∧ r.job.program = program ∧ r.job.config = config := by
  obtain ⟨computer, rfl⟩ := of_create h
  exact ⟨rfl, rfl, rfl⟩

/-- No run is created that has no superstep to compute. -/
theorem maxIterations_pos_of_create (h : create graph config program flag = .ok r) :
    0 < config.maxIterations := by
  unfold create at h
  split at h
  · cases h
  · rename_i hvalid
    rw [Config.invalidField?] at hvalid
    split at hvalid
    · cases hvalid
    · omega

variable [Scalar α]

/-- The workspace that a run starts with. -/
def opening (r : Run α) (schema : Schema α) : Workspace α :=
  let journal := (r.transition .initializing).journal
  let ws := Workspace.allocate r.job schema .initializing r.flag journal
  ws.note (.starting r.job.graph.nodeCount r.job.graph.relationshipCount
    ws.messenger.strategy? r.job.computer r.job.config.maxIterations)

/-- The allocated workspace has a messenger of its own that is ready for superstep 0. -/
theorem serves_opening (r : Run α) (schema : Schema α) :
    (r.opening schema).Serves r.job ∧ (r.opening schema).messenger.ReadyFor 0 := by
  refine ⟨⟨⟨rfl, rfl, ?_⟩, ?_, ?_⟩, ?_⟩
  · exact Messenger.valid_create _ _ _
  · exact Messenger.reducer?_create _ _ _
  · exact Messenger.isDoubleBuffered_create _ _ _
  · exact Messenger.readyFor_create _ _ _ 0

/-- What a run is after its supersteps. -/
def afterIterate (job : Job α) :
    Except Stop Ending × Workspace α → Except Stop (RunResult α) × Run α
  | (.error stop, ws) => (.error stop, ⟨job, ws.flag, ws.state, ws.journal⟩)
  | (.ok ending, ws) => (.ok ⟨ws.values, ending.didConverge, ending.ranIterations⟩,
      ⟨job, ws.flag, ws.state, ws.journal⟩)

/-- A run that was not started before does its supersteps and writes down how they ended. -/
theorem execute_eq {schema : Schema α} (hcreate : create graph config program flag = .ok r)
    (hschema : program.schema config = .ok schema) (schedule : Schedule) :
    r.execute schedule
      = conclude (afterIterate r.job ((r.opening schema).iterate r.job schedule)) := by
  -- the state allows the start, and the schema is there
  have hstart : r.start schedule
      = afterIterate r.job ((r.opening schema).iterate r.job schedule) := by
    obtain ⟨computer, rfl⟩ := of_create hcreate
    simp only [start, transition, hschema]
    rfl
  have hstate : r.state = .created := by
    obtain ⟨computer, rfl⟩ := of_create hcreate
    rfl
  rw [execute, if_pos hstate, hstart]

/-- What the journal of a whole run shows of the supersteps is what the supersteps wrote. -/
theorem execute_of_schema {schema : Schema α} (hcreate : create graph config program flag = .ok r)
    (hschema : program.schema config = .ok schema) (schedule : Schedule) :
    let last := ((r.opening schema).iterate r.job schedule).2
    (r.execute schedule).1 = ((r.opening schema).iterate r.job schedule).1.map
        (fun ending => ⟨last.values, ending.didConverge, ending.ranIterations⟩) ∧
      (r.execute schedule).2.flag = last.flag ∧
      (∀ phase, (r.execute schedule).2.journal.calls phase = last.journal.calls phase) ∧
      (r.execute schedule).2.journal.computed = last.journal.computed ∧
      (r.execute schedule).2.journal.figures = last.journal.figures := by
  rw [execute_eq hcreate hschema]
  -- whatever the outcome, the end of a run is neither a call nor a superstep
  rcases (r.opening schema).iterate r.job schedule with ⟨(e | v) | ending, ws⟩
  · refine ⟨rfl, rfl, fun phase => ?_, ?_, ?_⟩
    · simp [afterIterate, conclude, transition, Journal.calls_push, Event.call?]
    · simp [afterIterate, conclude, transition, Journal.computed_push, Event.computed?]
    · simp [afterIterate, conclude, transition, Journal.figures_push, Event.figures?]
  · refine ⟨rfl, rfl, fun phase => ?_, ?_, ?_⟩
    · simp [afterIterate, conclude, transition, Journal.calls_push, Event.call?]
    · simp [afterIterate, conclude, transition, Journal.computed_push, Event.computed?]
    · simp [afterIterate, conclude, transition, Journal.figures_push, Event.figures?]
  · refine ⟨rfl, rfl, fun phase => ?_, ?_, ?_⟩
    · simp [afterIterate, conclude, Journal.calls_push, Event.call?]
    · simp [afterIterate, conclude, Journal.computed_push, Event.computed?]
    · simp [afterIterate, conclude, Journal.figures_push, Event.figures?]

/-- A run whose program has no schema calls nothing. -/
theorem execute_of_schema_error {v : Violation}
    (hcreate : create graph config program flag = .ok r)
    (hschema : program.schema config = .error v) (schedule : Schedule) :
    (r.execute schedule).1 = .error (.violation v) ∧
      (∀ phase, (r.execute schedule).2.journal.calls phase = []) ∧
      (r.execute schedule).2.journal.computed = [] ∧
      (r.execute schedule).2.journal.figures = [] := by
  obtain ⟨computer, rfl⟩ := of_create hcreate
  rw [execute, if_pos rfl]
  simp only [start, transition, hschema, conclude]
  exact ⟨trivial, fun phase => rfl, rfl, rfl⟩

/-- Nothing was called before the first superstep. -/
theorem journal_opening (hcreate : create graph config program flag = .ok r) (schema : Schema α) :
    (∀ phase, (r.opening schema).journal.calls phase = []) ∧
      (r.opening schema).journal.computed = [] ∧ (r.opening schema).journal.figures = [] := by
  obtain ⟨computer, rfl⟩ := of_create hcreate
  exact ⟨fun phase => rfl, rfl, rfl⟩

/-- A superstep that ended without failure was computed. -/
theorem superstep_mem_computed (hcreate : create graph config program flag = .ok r)
    (schedule : Schedule) {stats : SuperstepStats}
    (h : stats ∈ (r.execute schedule).2.journal.figures) :
    stats.superstep ∈ (r.execute schedule).2.journal.computed := by
  cases hschema : program.schema config with
  | error v =>
    obtain ⟨-, -, -, hfigures⟩ := execute_of_schema_error hcreate hschema schedule
    rw [hfigures] at h
    cases h
  | ok schema =>
    obtain ⟨-, -, -, hcomputed, hfigures⟩ := execute_of_schema hcreate hschema schedule
    obtain ⟨-, hzero, hnone⟩ := journal_opening hcreate schema
    rw [hfigures] at h
    rw [hcomputed]
    exact (Workspace.runEnds_iterate r.job schedule (r.opening schema)).superstep_mem_computed
      ⟨hzero, hnone⟩ stats h

end Run

/-! ## A small run -/

namespace Relay

/-- In superstep 0 vertex 0 hands a message to vertex 1. Everyone votes to halt. -/
def program [Scalar α] (reducer : Option (Reducer α)) : Program α where
  schema _ := .ok .empty
  reducer := reducer
  init := Program.keep
  compute view :=
    let sent := if view.superstep = 0 ∧ view.vertex = 0 then [.send 1 Scalar.one] else []
    ⟨view.row, sent ++ [.voteToHalt], .ok ()⟩
  master := Program.proceed

/-- Two workers, or pieces of one vertex. -/
def config (isAsynchronous useForkJoin : Bool) : Config := ⟨4, 2, isAsynchronous, useForkJoin, 1⟩

/-- The program on two vertices. -/
def run (reducer : Option (Reducer Float)) (isAsynchronous useForkJoin : Bool) : Run Float :=
  let computer := if useForkJoin then .forkJoin 1 (by decide) else .partitioned 2 (by decide)
  ⟨⟨.complete 2, program reducer, config isAsynchronous useForkJoin, computer⟩, .fresh, .created,
    #[.created computer 2]⟩

/-- The two workers take turns. -/
def takingTurns : Schedule := fun _ _ => [.work 0, .work 1, .work 0, .work 1, .work 0, .work 1]

/-- The range is halved, and the second half is done first. -/
def secondFirst : Schedule := fun _ _ =>
  [.work 0, .work 1, .work 1, .work 1, .work 0, .work 0, .work 0]

theorem create_run (reducer : Option (Reducer Float)) (isAsynchronous useForkJoin : Bool) :
    Run.create (.complete 2) (config isAsynchronous useForkJoin) (program reducer) .fresh
      = .ok (run reducer isAsynchronous useForkJoin) := by
  cases useForkJoin <;> rfl

end Relay

end Superstep
