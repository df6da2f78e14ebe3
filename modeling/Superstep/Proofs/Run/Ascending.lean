import Mathlib
import Superstep.Proofs.Run.Course

/-!
# Working through a phase in ascending order

Without moves of a schedule, one worker after the other goes through its range. `Sweeps` follows
the visits one by one, and no visit comes after one that answered with an error. So the vertices
that are visited are those below some `k`, and which of them are called can be said in advance.

## Key results

- `Workspace.sweeps_runPhase`: the vertices below some `k` are visited, and all if no worker fails
- `Workspace.Sweeps.calls`: who of them is called, and that only the last call may fail
-/

namespace Superstep

variable {α : Type}

namespace Workspace

variable {job : Job α} {phase : Phase} {s : Nat}

/-! ## Visits one after the other -/

/-- The workspace after visits of `vs`, one after the other, none of which was broken off. The abort
mark is only set by the last of them, or by a worker that saw the flag raised after it. -/
inductive Sweeps (job : Job α) (phase : Phase) (s : Nat) (ws₀ : Workspace α) :
    List Nat → Workspace α → Prop
  | start : Sweeps job phase s ws₀ [] ws₀
  | visit {vs ws ws' v} (h : Sweeps job phase s ws₀ vs ws) (haborted : ws.aborted = false)
      (hvisit : ws.visit job phase s v = (.ok (), ws')) : Sweeps job phase s ws₀ (vs ++ [v]) ws'
  | fail {vs ws ws' v source} (h : Sweeps job phase s ws₀ vs ws) (haborted : ws.aborted = false)
      (hvisit : ws.visit job phase s v = (.error (.error source), ws')) :
    Sweeps job phase s ws₀ (vs ++ [v]) { ws' with aborted := true }
  | observe {vs ws} (h : Sweeps job phase s ws₀ vs ws) (haborted : ws.aborted = false)
      (hflag : ws.flag.raised = true) : Sweeps job phase s ws₀ vs { ws with aborted := true }
  | note {vs ws} (h : Sweeps job phase s ws₀ vs ws) (r : VertexRange) (ok : Bool) :
    Sweeps job phase s ws₀ vs (ws.note (.stepFinished phase s r ok))

/-- One sweep may follow another. -/
theorem Sweeps.trans {ws ws' ws'' : Workspace α} {vs vs' : List Nat}
    (h : Sweeps job phase s ws vs ws') (h' : Sweeps job phase s ws' vs' ws'') :
    Sweeps job phase s ws (vs ++ vs') ws'' := by
  induction h' with
  | start => rwa [List.append_nil]
  | visit _ haborted hvisit ih =>
    rw [← List.append_assoc]
    exact ih.visit haborted hvisit
  | fail _ haborted hvisit ih =>
    rw [← List.append_assoc]
    exact ih.fail haborted hvisit
  | observe _ haborted hflag ih => exact ih.observe haborted hflag
  | note _ r ok ih => exact ih.note r ok

/-- Nobody visits anything after a failure. -/
theorem Sweeps.of_aborted {ws ws' : Workspace α} {vs : List Nat}
    (h : Sweeps job phase s ws vs ws') (haborted : ws.aborted = true) :
    vs = [] ∧ ws'.aborted = true := by
  induction h with
  | start => exact ⟨rfl, haborted⟩
  -- the mark is set already, so there is no further visit
  | visit _ hnot _ ih | fail _ hnot _ ih => cases hnot.symm.trans ih.2
  | observe _ _ _ ih => exact ⟨ih.1, rfl⟩
  | note _ _ _ ih => exact ih

/-- A sweep is a traversal in a particular order. -/
theorem Sweeps.traverses {ws ws' : Workspace α} {vs : List Nat} (h : Sweeps job phase s ws vs ws')
    (hvs : ∀ v ∈ vs, v < job.graph.nodeCount) : Traverses job phase s ws vs ws' := by
  induction h with
  | start => exact .start
  | @visit vs _ _ v _ _ hvisit ih =>
    obtain ⟨hold, hv⟩ := List.forall_mem_append.mp hvs
    have hnext := (ih hold).visit (hv v (List.mem_singleton_self v))
    rwa [hvisit] at hnext
  | @fail vs _ _ v _ _ _ hvisit ih =>
    obtain ⟨hold, hv⟩ := List.forall_mem_append.mp hvs
    have hnext := (ih hold).visit (hv v (List.mem_singleton_self v))
    rw [hvisit] at hnext
    exact hnext.abort
  | observe _ _ _ ih => exact (ih hvs).abort
  | note _ r ok ih => exact (ih hvs).note r ok

/-! ## Going through ranges -/

/-- The vertices `todo` are gone through, from the first on and up to the first failure. -/
def Swept (job : Job α) (phase : Phase) (s : Nat) (todo : List Nat) (ws ws' : Workspace α) : Prop :=
  ∃ vs, Sweeps job phase s ws vs ws' ∧ vs <+: todo ∧ (ws'.aborted = false → vs = todo)

/-- Vertices may be gone through in two parts. -/
theorem Swept.trans {todo todo' : List Nat} {ws ws' ws'' : Workspace α}
    (h : Swept job phase s todo ws ws') (h' : Swept job phase s todo' ws' ws'') :
    Swept job phase s (todo ++ todo') ws ws'' := by
  obtain ⟨vs, hsweeps, hprefix, hall⟩ := h
  obtain ⟨vs', hsweeps', hprefix', hall'⟩ := h'
  refine ⟨vs ++ vs', hsweeps.trans hsweeps', ?_, fun hdone => ?_⟩
  · -- after a failure on the left nothing is visited on the right
    cases haborted : ws'.aborted with
    | true =>
      rw [(hsweeps'.of_aborted haborted).1, List.append_nil]
      exact hprefix.trans (List.prefix_append _ _)
    | false =>
      rw [hall haborted]
      exact List.prefix_append_right_inj _ |>.mpr hprefix'
  · have haborted : ws'.aborted = false := by
      rw [← Bool.not_eq_true]
      intro habort
      rw [(hsweeps'.of_aborted habort).2] at hdone
      cases hdone
    rw [hall haborted, hall' hdone]

/-- A step that is finished at once goes through what is left of its range. -/
theorem swept_finishStep (r : VertexRange) (position : Nat) (ws : Workspace α)
    (hwhole : ∀ v, (ws.finishStep job phase s r position).1 ≠ .violated v) :
    Swept job phase s (r.toList.drop position) ws (ws.finishStep job phase s r position).2 := by
  rw [finishStep] at hwhole ⊢
  generalize hcount : r.length - position = count at hwhole ⊢
  -- the induction is on the number of vertices that are left
  induction count generalizing position ws with
  | zero =>
    rw [VertexRange.drop_toList_of_le (by omega)]
    exact ⟨[], Sweeps.start.note r true, List.prefix_rfl, fun _ => rfl⟩
  | succ count ih =>
    have hdrop := @VertexRange.drop_toList r position (by omega)
    rw [advanceBy] at hwhole ⊢
    cases hstop : ws.stop? s r position with
    | some result =>
      -- nothing is visited, since somebody has failed or the flag is raised
      obtain ⟨hend, -⟩ | ⟨-, haborted, rfl⟩ | ⟨-, haborted, -, hflag, rfl⟩ := stop?_eq_some hstop
      · omega
      · refine ⟨[], Sweeps.start.note r true, List.nil_prefix, fun hdone => ?_⟩
        cases haborted.symm.trans hdone
      · refine ⟨[], (Sweeps.start.observe haborted hflag).note r false, List.nil_prefix, ?_⟩
        intro hdone
        cases hdone
    | none =>
      obtain ⟨haborted, -⟩ := stop?_eq_none hstop
      rw [hstop] at hwhole
      dsimp only at hwhole ⊢
      rw [hdrop]
      rcases hvisit : ws.visit job phase s (r.start + position) with ⟨(source | v) | _, ws'⟩
      · rw [attempt, hvisit]
        refine ⟨[r.start + position], (Sweeps.start.fail haborted hvisit).note r false,
          List.prefix_append [_] _, ?_⟩
        intro hdone
        cases hdone
      · rw [attempt, hvisit] at hwhole
        exact absurd rfl (hwhole v)
      · rw [attempt, hvisit] at hwhole ⊢
        have hfirst : Swept job phase s [r.start + position] ws ws' :=
          ⟨_, Sweeps.start.visit haborted hvisit, List.prefix_rfl, fun _ => rfl⟩
        exact hfirst.trans (ih (position + 1) ws' (by omega) hwhole)

/-- So does a range, whether it is halved or not. -/
theorem swept_finishRange (r : VertexRange) (ws : Workspace α)
    (hwhole : ∀ v, .violated v ∉ (ws.finishRange job phase s r).1) :
    Swept job phase s r.toList ws (ws.finishRange job phase s r).2 := by
  -- the induction is on the length of the range, which every halving shortens
  generalize hlength : r.length = length
  induction length using Nat.strongRecOn generalizing r ws with
  | ind length ih =>
    cases hsplit : job.computer.split? ws.aborted r with
    | none =>
      rw [finishRange_of_none hsplit] at hwhole ⊢
      have hstep := @swept_finishStep _ job phase s r 0 ws fun v hv => hwhole v (by simp [hv])
      rwa [List.drop_zero] at hstep
    | some halves =>
      obtain ⟨a, b⟩ := halves
      obtain ⟨ha, hb⟩ := Computer.split?_shorter hsplit
      rw [finishRange_of_some hsplit] at hwhole ⊢
      rw [← Computer.toList_of_halves? (Computer.halves?_of_split? hsplit)]
      -- the left half first, then the right one with what it has left
      have hleft := ih a.length (by omega) a ws
        (fun v hv => hwhole v (List.mem_append_left _ hv)) rfl
      exact hleft.trans (ih b.length (by omega) b _
        (fun v hv => hwhole v (List.mem_append_right _ hv)) rfl)

/-- Ranges that are finished one after the other are gone through in their order. -/
theorem swept_finishTasks (rs : List VertexRange) (ws : Workspace α)
    (hwhole : ∀ v, .violated v ∉ (ws.finishTasks job phase s (rs.map Task.waiting)).1) :
    Swept job phase s (rs.flatMap (·.toList)) ws
      (ws.finishTasks job phase s (rs.map Task.waiting)).2 := by
  induction rs generalizing ws with
  | nil => exact ⟨[], .start, List.prefix_rfl, fun _ => rfl⟩
  | cons r rs ih =>
    rw [List.map_cons, finishTasks] at hwhole ⊢
    have hfirst := swept_finishRange r ws fun v hv => hwhole v (List.mem_append_left _ hv)
    exact hfirst.trans (ih _ fun v hv => hwhole v (List.mem_append_right _ hv))

/-- Without moves the vertices below some `k` are visited in ascending order, and all of them if no
worker fails. -/
theorem sweeps_runPhase {schedule : Schedule} (hschedule : schedule phase s = [])
    (ws : Workspace α)
    (hwhole : ∀ v, (ws.runPhase job schedule phase s).1 ≠ .error (.violation v)) :
    ∃ k, k ≤ job.graph.nodeCount ∧
      Sweeps job phase s (phaseStart job ws).2 (List.range k)
        (ws.runPhase job schedule phase s).2 ∧
      ((ws.runPhase job schedule phase s).2.aborted = false → k = job.graph.nodeCount) := by
  have hmoved : (schedule phase s).foldl (move job phase s) (phaseStart job ws)
      = ((phaseStart job ws).1, (phaseStart job ws).2) := by
    rw [hschedule]
    rfl
  rw [runPhase_eq hmoved] at hwhole ⊢
  obtain ⟨vs, hsweeps, hprefix, hall⟩ := @swept_finishTasks _ job phase s
    (job.computer.ranges job.graph.nodeCount) (phaseStart job ws).2 fun v hv => by
      obtain ⟨v', hv'⟩ := combine_of_violated hv
      exact hwhole v' hv'
  rw [job.computer.flatMap_toList_ranges] at hprefix hall
  have hlength := hprefix.length_le
  rw [List.length_range] at hlength
  -- a prefix of an ascending list is one itself
  have hvs : vs = List.range vs.length := by
    have htake := List.prefix_iff_eq_take.mp hprefix
    rwa [List.take_range, Nat.min_eq_left hlength] at htake
  refine ⟨vs.length, hlength, ?_, fun hdone => ?_⟩
  · rw [← hvs]
    exact hsweeps
  · rw [hall hdone, List.length_range]

/-! ## Who is called -/

/-- A call wakes those vertices at once that it sends something to, if nothing is kept for the next
superstep. -/
theorem Called.hasMail {n : Nat} {c : Call α} {ws ws' : Workspace α} (h : Called n c ws ws')
    (hfits : ws.Fits n)
    (hnone : ws.messenger.isDoubleBuffered = false → ws.messenger.reducer? = none) {w : Nat}
    (hw : c.vertex ≠ w) :
    ws'.messenger.hasMail w = (ws.messenger.hasMail w
      || (!ws.messenger.isDoubleBuffered && !(c.sentTo n w).isEmpty)) := by
  rw [Bool.eq_iff_iff, Bool.or_eq_true, Messenger.hasMail_iff h.fits.messenger,
    Messenger.hasMail_iff hfits.messenger]
  -- a second buffer keeps what is sent now for later
  cases hd : ws.messenger.isDoubleBuffered with
  | true => simp [h.inbox hd w]
  | false =>
    rw [Messenger.inbox_eq_outbox (h.isDoubleBuffered.trans hd), Messenger.inbox_eq_outbox hd,
      h.outbox, hnone hd, Messenger.gatherAll_none, Messenger.outbox_afterReceiving hd, if_neg hw]
    by_cases hsent : c.sentTo n w = [] <;> simp [hsent]

end Workspace

/-- Whether messages arrive in the superstep that they are sent in. -/
def Job.deliversAtOnce (job : Job α) : Bool :=
  !(job.program.reducer.isSome || !job.config.isAsynchronous)

/-- Whether the vertex `v` is called in a phase that starts with `ws` and goes through the vertices
in ascending order. When vertices are computed it has to be awake at the start, or to be woken by
one of the calls before. -/
def Job.callsInTurn (job : Job α) (phase : Phase) (ws : Workspace α) (calls : List (Call α))
    (v : Nat) : Bool :=
  match phase with
  | .init => true
  | .compute => ws.frontier.contains v || job.deliversAtOnce &&
      calls.any fun c => decide (c.vertex < v) && !(c.sentTo job.graph.nodeCount v).isEmpty

/-- A call only wakes vertices above its own. -/
theorem Job.callsInTurn_concat {job : Job α} {phase : Phase} {ws : Workspace α}
    {calls : List (Call α)} {c : Call α} {v : Nat} (h : ¬c.vertex < v) :
    job.callsInTurn phase ws (calls ++ [c]) v = job.callsInTurn phase ws calls v := by
  cases phase with
  | init => rfl
  | compute => simp [callsInTurn, h]

namespace Workspace

variable {job : Job α} {phase : Phase} {s : Nat}

/-- Where the calls stand after visits of `vs` in ascending order. -/
structure InTurn (job : Job α) (phase : Phase) (ws₀ : Workspace α) (vs : List Nat)
    (calls : List (Call α)) (ws : Workspace α) : Prop where
  callsEq : ws.journal.calls phase = ws₀.journal.calls phase ++ calls
  sublist : (calls.map (·.vertex)).Sublist vs
  mem_iff : ∀ v ∈ vs, v ∈ calls.map (·.vertex) ↔ job.callsInTurn phase ws₀ calls v = true
  frontier : ws.frontier = ws₀.frontier
  /-- A vertex that is still to be visited has got what the calls have sent it. -/
  hasMail : phase = .compute → ∀ v, v ∉ vs → ws.messenger.hasMail v
    = (ws₀.messenger.hasMail v || job.deliversAtOnce &&
        calls.any fun c => !(c.sentTo job.graph.nodeCount v).isEmpty)

/-- The invariant is about the journal, the frontier and the messenger only. -/
theorem InTurn.congr {ws₀ ws ws' : Workspace α} {vs : List Nat} {calls : List (Call α)}
    (h : InTurn job phase ws₀ vs calls ws)
    (hcalls : ws'.journal.calls phase = ws.journal.calls phase)
    (hfrontier : ws'.frontier = ws.frontier) (hmessenger : ws'.messenger = ws.messenger) :
    InTurn job phase ws₀ vs calls ws' where
  callsEq := hcalls.trans h.callsEq
  sublist := h.sublist
  mem_iff := h.mem_iff
  frontier := hfrontier.trans h.frontier
  hasMail hphase v hv := hmessenger ▸ h.hasMail hphase v hv

namespace InTurn

variable {ws₀ ws : Workspace α} {vs : List Nat} {calls : List (Call α)} {v : Nat}

/-- The calls so far are of vertices below the next one. -/
theorem vertex_lt (h : InTurn job phase ws₀ vs calls ws) (hlt : ∀ u ∈ vs, u < v) :
    ∀ c ∈ calls, c.vertex < v :=
  fun _ hc => hlt _ (h.sublist.subset (List.mem_map_of_mem hc))

/-- The workspace shows whether it is the turn of the next vertex. -/
theorem isCalled_eq (h : InTurn job phase ws₀ vs calls ws) (hlt : ∀ u ∈ vs, u < v)
    (hasleep : phase = .compute → ws₀.frontier.contains v = false →
      ws₀.messenger.hasMail v = false) :
    ws.isCalled phase v = job.callsInTurn phase ws₀ calls v := by
  cases phase with
  | init => rfl
  | compute =>
    have hunseen : v ∉ vs := fun hmem => Nat.lt_irrefl v (hlt v hmem)
    -- every call so far came before the turn of `v`
    have hany : (calls.any fun c => decide (c.vertex < v)
        && !(c.sentTo job.graph.nodeCount v).isEmpty)
          = calls.any fun c => !(c.sentTo job.graph.nodeCount v).isEmpty := by
      rw [Bool.eq_iff_iff, List.any_eq_true, List.any_eq_true]
      refine exists_congr fun c => and_congr_right fun hc => ?_
      rw [decide_eq_true (h.vertex_lt hlt c hc), Bool.true_and]
    rw [Job.callsInTurn, isCalled, isAwake, hany, h.frontier, h.hasMail rfl v hunseen]
    cases hfrontier : ws₀.frontier.contains v with
    | true => rfl
    | false => rw [hasleep rfl hfrontier, Bool.false_or, Bool.false_or]

/-- A vertex is passed over if it is not its turn. -/
theorem pass (h : InTurn job phase ws₀ vs calls ws) (hlt : ∀ u ∈ vs, u < v)
    (hturn : job.callsInTurn phase ws₀ calls v = false) :
    InTurn job phase ws₀ (vs ++ [v]) calls ws where
  callsEq := h.callsEq
  sublist := h.sublist.trans (List.sublist_append_left _ _)
  mem_iff u hu := by
    rcases List.mem_append.mp hu with hold | hnew
    · exact h.mem_iff u hold
    · rw [List.mem_singleton.mp hnew, hturn]
      refine iff_of_false (fun hmem => ?_) Bool.false_ne_true
      obtain ⟨c, hc, hvertex⟩ := List.mem_map.mp hmem
      exact (h.vertex_lt hlt c hc).ne hvertex
  frontier := h.frontier
  hasMail hphase u hu := h.hasMail hphase u fun hold => hu (List.mem_append_left _ hold)

/-- A vertex makes its call if it is its turn. -/
theorem call {c : Call α} (h : InTurn job phase ws₀ vs calls ws) (hserves : ws.Serves job)
    (hv : v < job.graph.nodeCount) (hlt : ∀ u ∈ vs, u < v)
    (hturn : job.callsInTurn phase ws₀ calls v = true) (hcalled : ws.isCalled phase v = true)
    (hlogs : Logs phase s v c ws (ws.visit job phase s v)) :
    InTurn job phase ws₀ (vs ++ [v]) (calls ++ [c]) (ws.visit job phase s v).2 where
  callsEq := by rw [hlogs.journal_calls.1, h.callsEq, List.append_assoc]
  sublist := by
    rw [List.map_append, List.map_singleton, hlogs.vertex]
    exact h.sublist.append_right _
  mem_iff u hu := by
    -- the new call comes too late for its own vertex and those below
    have hlate : ¬c.vertex < u := by
      rw [hlogs.vertex]
      rcases List.mem_append.mp hu with hold | hnew
      · exact Nat.not_lt_of_lt (hlt u hold)
      · exact List.mem_singleton.mp hnew ▸ Nat.lt_irrefl u
    rw [Job.callsInTurn_concat hlate]
    rcases List.mem_append.mp hu with hold | hnew
    · rw [← h.mem_iff u hold]
      simp [hlogs.vertex, (hlt u hold).ne]
    · rw [List.mem_singleton.mp hnew, hturn]
      simp [hlogs.vertex]
  frontier := by
    cases phase with
    | init => exact h.frontier
    | compute =>
      obtain ⟨hcall, -⟩ := @called_visitCompute _ _ job s v ws hserves.fits hv hcalled
      exact hcall.frontier.trans h.frontier
  -- what the new call sends may wake those that are still to be visited
  hasMail := by
    rintro rfl u hu
    obtain ⟨hcall, -⟩ := @called_visitCompute _ _ job s v ws hserves.fits hv hcalled
    have hc : ws.nextCall job s v = c := by
      have hpush := hcall.journal.symm.trans hlogs.journal
      exact Event.call.inj (Array.push_eq_push.mp hpush).1
    rw [hc] at hcall
    have hd : (!ws.messenger.isDoubleBuffered) = job.deliversAtOnce :=
      congrArg not hserves.isDoubleBuffered
    have hreducer : ws.messenger.isDoubleBuffered = false → ws.messenger.reducer? = none := by
      rw [hserves.isDoubleBuffered, hserves.reducer?]
      cases job.program.reducer <;> simp
    simp only [List.mem_append, List.mem_singleton, not_or] at hu
    rw [Workspace.visit, hcall.hasMail hserves.fits hreducer (hlogs.vertex ▸ Ne.symm hu.2),
      h.hasMail rfl u hu.1, hd, List.any_append, Bool.and_or_distrib_left, Bool.or_assoc]
    simp

/-- The next vertex is called if it is its turn. -/
theorem visit (h : InTurn job phase ws₀ vs calls ws) (hserves : ws.Serves job)
    (hv : v < job.graph.nodeCount) (hlt : ∀ u ∈ vs, u < v)
    (hasleep : phase = .compute → ws₀.frontier.contains v = false →
      ws₀.messenger.hasMail v = false) :
    ∃ new, InTurn job phase ws₀ (vs ++ [v]) (calls ++ new) (ws.visit job phase s v).2 ∧
      (new = [] ∧ (ws.visit job phase s v).1 = .ok () ∨ ∃ c, new = [c] ∧ c.vertex = v ∧
        Logs phase s v c ws (ws.visit job phase s v)) := by
  have hturn := h.isCalled_eq hlt hasleep
  rcases (keeps_visit job phase s v ws).2 with ⟨hcalled, hvisit⟩ | ⟨hcalled, c, hlogs⟩
  · refine ⟨[], ?_, .inl ⟨rfl, by rw [hvisit]⟩⟩
    rw [hvisit, List.append_nil]
    exact h.pass hlt (hturn.symm.trans hcalled)
  · exact ⟨[c], h.call hserves hv hlt (hturn.symm.trans hcalled) hcalled hlogs,
      .inr ⟨c, rfl, hlogs.vertex, hlogs⟩⟩

end InTurn

/-- The calls of visits in ascending order: whoever's turn it is is called, and no call but the last
one answers with an error. -/
theorem Sweeps.calls {ws₀ ws : Workspace α} {vs : List Nat} (h : Sweeps job phase s ws₀ vs ws)
    (hserves : ws₀.Serves job) (hfresh : ws₀.aborted = false)
    (hasleep : phase = .compute → ∀ v, v < job.graph.nodeCount →
      ws₀.frontier.contains v = false → ws₀.messenger.hasMail v = false)
    (hvs : ∀ v ∈ vs, v < job.graph.nodeCount) (hsorted : vs.Pairwise (· < ·)) :
    ∃ calls, InTurn job phase ws₀ vs calls ws ∧
      (ws.aborted = false → ∀ c ∈ calls, c.error? = none) ∧
      (ws.aborted = true → ws.flag.raised = false → ∃ before c, calls = before ++ [c] ∧
        vs.getLast? = some c.vertex ∧ c.error? ≠ none ∧ ∀ b ∈ before, b.error? = none) := by
  induction h with
  | start =>
    refine ⟨[], ⟨(List.append_nil _).symm, List.Sublist.refl _, by simp, rfl, by simp⟩, by simp, ?_⟩
    intro haborted
    cases hfresh.symm.trans haborted
  | @visit vs ws ws' v hsweeps haborted hvisit ih =>
    obtain ⟨hold, hv⟩ := List.forall_mem_append.mp hvs
    obtain ⟨hpairs, -, hlt⟩ := List.pairwise_append.mp hsorted
    obtain ⟨calls, hturn, hnone, -⟩ := ih hold hpairs
    have hv := hv v (List.mem_singleton_self v)
    obtain ⟨new, hnext, hnew⟩ := @InTurn.visit _ job phase s _ _ _ _ v hturn
      ((hsweeps.traverses hold).serves hserves).1 hv
      (fun u hu => hlt u hu v (List.mem_singleton_self v)) fun hphase => hasleep hphase v hv
    rw [hvisit] at hnext hnew
    refine ⟨calls ++ new, hnext, fun _ c hc => ?_, fun habort => ?_⟩
    · rcases List.mem_append.mp hc with hc | hc
      · exact hnone haborted c hc
      · rcases hnew with ⟨rfl, -⟩ | ⟨c', rfl, -, hlogs⟩
        · cases hc
        · rw [List.mem_singleton.mp hc]
          exact hlogs.error?_eq_none
    · -- a visit that goes through sets no mark
      cases ((keeps_of_visit hvisit).aborted.trans haborted).symm.trans habort
  | @fail vs ws ws' v source hsweeps haborted hvisit ih =>
    obtain ⟨hold, hv⟩ := List.forall_mem_append.mp hvs
    obtain ⟨hpairs, -, hlt⟩ := List.pairwise_append.mp hsorted
    obtain ⟨calls, hturn, hnone, -⟩ := ih hold hpairs
    have hv := hv v (List.mem_singleton_self v)
    obtain ⟨new, hnext, hnew⟩ := @InTurn.visit _ job phase s _ _ _ _ v hturn
      ((hsweeps.traverses hold).serves hserves).1 hv
      (fun u hu => hlt u hu v (List.mem_singleton_self v)) fun hphase => hasleep hphase v hv
    rw [hvisit] at hnext hnew
    refine ⟨calls ++ new, hnext.congr rfl rfl rfl, nofun, fun _ _ => ?_⟩
    rcases hnew with ⟨-, hok⟩ | ⟨c, rfl, hvertex, hlogs⟩
    · cases hok
    · refine ⟨calls, c, rfl, by simp [hvertex], ?_, hnone haborted⟩
      rw [hlogs.error?_eq_some]
      simp
  | observe _ haborted hflag ih =>
    obtain ⟨calls, hturn, -⟩ := ih hvs hsorted
    refine ⟨calls, hturn.congr rfl rfl rfl, nofun, fun _ hdown => ?_⟩
    -- a worker that stopped saw the flag raised
    cases hflag.symm.trans hdown
  | note _ r ok ih =>
    obtain ⟨calls, hturn, hrest⟩ := ih hvs hsorted
    exact ⟨calls, hturn.congr (calls_note _ r ok phase) rfl rfl, hrest⟩

/-- A vertex that is not awake when its phase starts has no messages. -/
theorem Enters.serves {schedule : Schedule} {ws₀ ws : Workspace α}
    (h : Enters job schedule ws₀ phase s ws) (h₀ : ws₀.Serves job)
    (hready : ws₀.messenger.ReadyFor 0) :
    ws.Serves job ∧ (phase = .compute → ∀ v, v < job.graph.nodeCount →
      ws.frontier.contains v = false → ws.messenger.hasMail v = false) := by
  cases h with
  | setUp hflag => exact ⟨h₀, nofun⟩
  | @compute s ws h hs hflag =>
    have hserves := (h.serves h₀ hready).1
    have hfits : (ws.transition (.running s)).Fits job.graph.nodeCount :=
      ⟨hserves.fits.halted, hserves.fits.frontier, hserves.fits.messenger⟩
    obtain ⟨-, hframe, -, hfrontier⟩ := prepare_spec hfits s
    refine ⟨(hserves.opened s).1.congr rfl rfl rfl, fun _ v hv hasleep => ?_⟩
    rw [hfrontier v hv, Bool.or_eq_false_iff] at hasleep
    rw [hframe]
    exact hasleep.1

end Workspace

end Superstep
