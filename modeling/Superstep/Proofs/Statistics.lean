import Mathlib
import Superstep.Proofs.BulkSynchronous
import Superstep.Proofs.Run.Lockstep
import Superstep.Proofs.Run.Success
import Superstep.Proofs.Storage.BitSet

/-!
# The figures of a superstep add up

Workers count their calls, the messages that they sent and the votes that were new, while the number
of sleeping vertices is counted in a bit set that all of them change. The two fit together because
every vertex that was not called sleeps, and every vertex that is called has no vote when the call
begins, whether it was woken at the start of the superstep or by a message sent in it.

## Key results

- `Workspace.Tally.visit`: what one more visit does to the counters and to the votes
- `Workspace.Tally.halted_add`: the vertices that sleep after a superstep, counted
- `Workspace.figures_iterate`: which supersteps have figures
- `superstep_statistics`: the figures of every superstep of every run
-/

namespace Superstep

variable {α : Type}

/-- In a call that did all it set out to do every effect was carried out. -/
theorem Call.performed_of_succeeded {n : Nat} {c : Call α} (h : c.succeeded n = true) :
    c.performed n = c.reply.effects := by
  rw [Call.succeeded, Bool.and_eq_true, List.all_eq_true] at h
  exact List.takeWhile_eq_self_iff.mpr h.1

/-- A call sends something to some vertex if it sends anything. -/
theorem Call.sendCount_pos_iff {n : Nat} {c : Call α} :
    0 < c.sendCount n ↔ ∃ v, c.sentTo n v ≠ [] := by
  rw [Call.sendCount, List.countP_pos_iff]
  constructor
  · rintro ⟨e, he, hsend⟩
    cases e with
    | send target value =>
      have hvalue : Effect.valueFor? target (.send target value) = some value := if_pos rfl
      exact ⟨target, List.ne_nil_of_mem (List.mem_filterMap.mpr ⟨_, he, hvalue⟩)⟩
    | voteToHalt | terminate => cases hsend
  · -- conversely a message to `v` comes from an effect that sends it
    rintro ⟨v, hsent⟩
    obtain ⟨m, hm⟩ := List.exists_mem_of_ne_nil _ hsent
    obtain ⟨e, he, hvalue⟩ := List.mem_filterMap.mp hm
    refine ⟨e, he, ?_⟩
    cases e with
    | send target value => rfl
    | voteToHalt | terminate => cases hvalue

namespace Workspace

variable {job : Job α} {s : Nat} {ws₀ ws : Workspace α} {vs : List Nat} {cs : List (Call α)}

/-! ## Counting inside a superstep -/

/-- When a superstep begins, exactly the vertices that are not awake have a vote that stands. -/
theorem halted_opened (h : ws.Serves job) (s : Nat) {v : Nat} (hv : v < job.graph.nodeCount) :
    (ws.opened s).halted.contains v = !(ws.opened s).frontier.contains v := by
  have hentered : (ws.transition (.running s)).Serves job := h.congr rfl rfl rfl
  obtain ⟨-, -, hhalted, hfrontier⟩ := prepare_spec hentered.fits s
  have hvote := hhalted v
  have hbit := hfrontier v hv
  change (ws.opened s).halted.contains v = _ at hvote
  change (ws.opened s).frontier.contains v = _ at hbit
  -- a vote is taken back exactly from those that mail puts into the frontier
  rw [hvote, hbit, Bool.not_or, Bool.not_not, Bool.and_comm]

/-- What the counters and the votes are after the vertices `vs` were visited and made the calls
`cs`. -/
structure Tally (job : Job α) (s : Nat) (ws₀ : Workspace α) (vs : List Nat) (cs : List (Call α))
    (ws : Workspace α) : Prop where
  serves : ws.Serves job
  isDoubleBuffered : ws.messenger.isDoubleBuffered = ws₀.messenger.isDoubleBuffered
  frontier : ws.frontier = ws₀.frontier
  calls : ws.journal.calls .compute = ws₀.journal.calls .compute ++ cs
  superstep : ∀ c ∈ cs, c.superstep = s
  vertices : (cs.map (·.vertex)).Sublist vs
  awake : ∀ v ∈ vs, ws₀.frontier.contains v = true → v ∈ cs.map (·.vertex)
  /-- The vote of a vertex that was called is that of its call. -/
  halted : ∀ v, ws.halted.contains v = if v ∈ cs.map (·.vertex)
    then cs.any fun c => decide (v = c.vertex) && c.voted job.graph.nodeCount
    else ws₀.halted.contains v
  stats : ws.stats = ⟨cs.length, (cs.map (·.sendCount job.graph.nodeCount)).sum,
    cs.countP (·.voted job.graph.nodeCount)⟩
  /-- What waits was sent by one of the calls, or waited before and was not taken away. -/
  waiting : ∀ v, ws.messenger.outbox v ≠ [] → (∃ c ∈ cs, c.sentTo job.graph.nodeCount v ≠ []) ∨
    ws₀.messenger.outbox v ≠ [] ∧ (v ∈ vs → ws₀.messenger.isDoubleBuffered = true)

/-- Flag, abort mark, values and finished ranges in the journal do not matter. -/
theorem Tally.congr {ws' : Workspace α} (h : Tally job s ws₀ vs cs ws)
    (hhalted : ws'.halted = ws.halted) (hfrontier : ws'.frontier = ws.frontier)
    (hmessenger : ws'.messenger = ws.messenger) (hstats : ws'.stats = ws.stats)
    (hcalls : ws'.journal.calls .compute = ws.journal.calls .compute) :
    Tally job s ws₀ vs cs ws' where
  serves := h.serves.congr hhalted hfrontier hmessenger
  isDoubleBuffered := hmessenger ▸ h.isDoubleBuffered
  frontier := hfrontier.trans h.frontier
  calls := hcalls.trans h.calls
  superstep := h.superstep
  vertices := h.vertices
  awake := h.awake
  halted v := (congrArg (·.contains v) hhalted).trans (h.halted v)
  stats := hstats.trans h.stats
  waiting := hmessenger ▸ h.waiting

/-- A vertex that is passed over has nothing waiting that a visit would have taken away. -/
theorem Tally.passOver (h : Tally job s ws₀ vs cs ws) {v : Nat} (hasleep : ws.isAwake v = false) :
    Tally job s ws₀ (vs ++ [v]) cs ws := by
  obtain ⟨hfrontier, hmail⟩ := Bool.or_eq_false_iff.mp hasleep
  refine { h with
    vertices := h.vertices.trans (List.sublist_append_left _ _)
    awake := ?_
    waiting := ?_ }
  · intro w hw hbit
    rcases List.mem_append.mp hw with hold | hlast
    · exact h.awake w hold hbit
    · rw [List.mem_singleton.mp hlast, ← h.frontier, hfrontier] at hbit
      cases hbit
  · intro w hwaits
    refine (h.waiting w hwaits).imp_right fun hbefore => ⟨hbefore.1, fun hw => ?_⟩
    rcases List.mem_append.mp hw with hold | hlast
    · exact hbefore.2 hold
    · -- with one buffer it would have been woken by what waits
      by_contra hsingle
      rw [Bool.not_eq_true, ← h.isDoubleBuffered] at hsingle
      rw [List.mem_singleton.mp hlast, ← Messenger.inbox_eq_outbox hsingle] at hwaits
      have hmust := (Messenger.hasMail_iff h.serves.fits.messenger v).mpr hwaits
      rw [hmail] at hmust
      cases hmust

section Call

variable {c : Call α} {ws' : Workspace α}

/-- Whether a vertex sleeps after a call depends on the call if it was that vertex's own. -/
theorem Tally.halted_call (h : Tally job s ws₀ vs cs ws)
    (hcalled : Called job.graph.nodeCount c ws ws') (huncalled : c.vertex ∉ cs.map (·.vertex))
    (hlate : c.late = ws.halted.contains c.vertex) (w : Nat) :
    ws'.halted.contains w = if w ∈ (cs ++ [c]).map (·.vertex)
      then (cs ++ [c]).any fun d => decide (w = d.vertex) && d.voted job.graph.nodeCount
      else ws₀.halted.contains w := by
  rw [hcalled.halted, List.map_append, List.map_singleton, List.any_append, List.any_cons,
    List.any_nil, Bool.or_false]
  by_cases hw : w = c.vertex
  · -- the vote before the call does not count, and no earlier call was of this vertex
    subst hw
    have hnone : (cs.any fun d => decide (c.vertex = d.vertex) && d.voted job.graph.nodeCount)
        = false := by
      rw [List.any_eq_false]
      intro d hd
      have hne : c.vertex ≠ d.vertex := fun heq => huncalled (heq ▸ List.mem_map_of_mem hd)
      simp [hne]
    rw [hlate, hnone, if_pos (by simp)]
    simp
  · rw [h.halted]
    simp [hw]

/-- What waits after a call was sent by it, or waited before and was not taken by it. -/
theorem Tally.waiting_call (h : Tally job s ws₀ vs cs ws)
    (hcalled : Called job.graph.nodeCount c ws ws') {w : Nat}
    (hwaits : ws'.messenger.outbox w ≠ []) :
    (∃ d ∈ cs ++ [c], d.sentTo job.graph.nodeCount w ≠ []) ∨ ws₀.messenger.outbox w ≠ [] ∧
      (w ∈ vs ++ [c.vertex] → ws₀.messenger.isDoubleBuffered = true) := by
  -- either the call itself sent to `w`, or what waits was there before
  by_cases hsent : c.sentTo job.graph.nodeCount w = []
  · rw [hcalled.outbox, hsent] at hwaits
    change (ws.messenger.afterReceiving c.vertex).outbox w ≠ [] at hwaits
    -- the calls before are still among the calls
    have hearlier (hwaits : ws.messenger.outbox w ≠ []) :
        (∃ d ∈ cs ++ [c], d.sentTo job.graph.nodeCount w ≠ []) ∨ ws₀.messenger.outbox w ≠ [] ∧
          (w ∈ vs → ws₀.messenger.isDoubleBuffered = true) :=
      (h.waiting w hwaits).imp_left fun hsent =>
        hsent.imp fun d hd => ⟨List.mem_append_left _ hd.1, hd.2⟩
    cases hdouble : ws.messenger.isDoubleBuffered with
    | true =>
      rw [Messenger.afterReceiving_of_isDoubleBuffered hdouble] at hwaits
      exact (hearlier hwaits).imp_right fun hbefore =>
        ⟨hbefore.1, fun _ => h.isDoubleBuffered.symm.trans hdouble⟩
    | false =>
      rw [Messenger.outbox_afterReceiving hdouble] at hwaits
      -- with one buffer the call takes what waited for its own vertex only
      by_cases hvw : c.vertex = w
      · rw [if_pos hvw] at hwaits
        exact absurd rfl hwaits
      · rw [if_neg hvw] at hwaits
        refine (hearlier hwaits).imp_right fun hbefore => ⟨hbefore.1, fun hw => ?_⟩
        rcases List.mem_append.mp hw with hold | hlast
        · exact hbefore.2 hold
        · exact absurd (List.mem_singleton.mp hlast).symm hvw
  · exact .inl ⟨c, by simp, hsent⟩

/-- A call that is made before its vertex sleeps, or after it was woken, is counted. -/
theorem Tally.call (h : Tally job s ws₀ vs cs ws) (hcalled : Called job.graph.nodeCount c ws ws')
    (huncalled : c.vertex ∉ cs.map (·.vertex)) (hlate : c.late = ws.halted.contains c.vertex)
    (hhalted : c.halted = false) (hsuperstep : c.superstep = s) (hphase : c.phase = .compute) :
    Tally job s ws₀ (vs ++ [c.vertex]) (cs ++ [c]) ws' where
  serves := ⟨hcalled.fits, hcalled.reducer?.trans h.serves.reducer?,
    hcalled.isDoubleBuffered.trans h.serves.isDoubleBuffered⟩
  isDoubleBuffered := hcalled.isDoubleBuffered.trans h.isDoubleBuffered
  frontier := hcalled.frontier.trans h.frontier
  calls := by
    rw [hcalled.journal, Journal.calls_push, h.calls, Event.call?, if_pos hphase, List.append_assoc]
    rfl
  superstep d hd := by
    rcases List.mem_append.mp hd with hold | hlast
    · exact h.superstep d hold
    · rw [List.mem_singleton.mp hlast, hsuperstep]
  vertices := by
    rw [List.map_append, List.map_singleton]
    exact h.vertices.append (List.Sublist.refl _)
  awake w hw hbit := by
    rw [List.map_append, List.map_singleton, List.mem_append]
    exact (List.mem_append.mp hw).imp_left fun hold => h.awake w hold hbit
  halted := h.halted_call hcalled huncalled hlate
  stats := hcalled.stats_concat hhalted h.stats
  waiting _ := h.waiting_call hcalled

end Call

/-- A visit is counted. -/
theorem Tally.visit (h₀ : ∀ v, v < job.graph.nodeCount →
      ws₀.halted.contains v = !ws₀.frontier.contains v)
    (h : Tally job s ws₀ vs cs ws) {v : Nat} (hv : v < job.graph.nodeCount) (hnew : v ∉ vs) :
    ∃ cs', Tally job s ws₀ (vs ++ [v]) cs' (ws.visit job .compute s v).2 := by
  -- it has not been visited, so its vote is still that of the beginning
  have huncalled : v ∉ cs.map (·.vertex) := fun hmem => hnew (h.vertices.subset hmem)
  have hvote : ws.halted.contains v = !ws.frontier.contains v := by
    rw [h.halted, if_neg huncalled, h₀ v hv, h.frontier]
  rw [Workspace.visit]
  cases hawake : ws.isAwake v with
  | false =>
    rw [visitCompute_of_asleep hawake]
    exact ⟨cs, h.passOver hawake⟩
  | true =>
    obtain ⟨hcalled, -⟩ := @called_visitCompute _ _ job s v ws h.serves.fits hv hawake
    -- in the frontier it has no vote, otherwise the late wake-up takes it back
    have hhalted : (ws.nextCall job s v).halted = false := by
      rw [nextCall, hvote]
      exact Bool.and_not_self _
    exact ⟨_, h.call hcalled huncalled hvote.symm hhalted rfl rfl⟩

/-- Whatever the schedule and the messenger, the counters are those of the calls that were made. -/
theorem Traverses.tally (hserves : ws₀.Serves job) (hstats : ws₀.stats = .zero)
    (h₀ : ∀ v, v < job.graph.nodeCount → ws₀.halted.contains v = !ws₀.frontier.contains v)
    (h : Traverses job .compute s ws₀ vs ws) (hnodup : vs.Nodup) :
    ∃ cs, Tally job s ws₀ vs cs ws := by
  -- on the visits; what a worker does between two of them leaves the tally alone
  induction h with
  | start =>
    exact ⟨[], {
      serves := hserves
      isDoubleBuffered := rfl
      frontier := rfl
      calls := (List.append_nil _).symm
      superstep := List.forall_mem_nil _
      vertices := List.Sublist.refl _
      awake := List.forall_mem_nil _
      halted := fun v => by simp
      stats := hstats
      waiting := fun v hwaits => .inr ⟨hwaits, nofun⟩ }⟩
  | visit _ hv ih =>
    rw [List.nodup_append] at hnodup
    obtain ⟨hvs, -, hdisjoint⟩ := hnodup
    obtain ⟨cs, htally⟩ := ih hvs
    exact htally.visit h₀ hv fun hmem => hdisjoint _ hmem _ (List.mem_singleton_self _) rfl
  | raise _ ih | abort _ ih =>
    obtain ⟨cs, htally⟩ := ih hnodup
    exact ⟨cs, htally.congr rfl rfl rfl rfl rfl⟩
  | note _ r ok ih =>
    obtain ⟨cs, htally⟩ := ih hnodup
    exact ⟨cs, htally.congr rfl rfl rfl rfl (calls_note _ r ok .compute)⟩

/-- Nobody is called twice. -/
theorem Tally.nodup (h : Tally job s ws₀ vs cs ws)
    (hperm : vs.Perm (List.range job.graph.nodeCount)) : (cs.map (·.vertex)).Nodup :=
  h.vertices.nodup (hperm.nodup_iff.mpr List.nodup_range)

/-- Every vertex that was awake was called. -/
theorem Tally.active_le (h : Tally job s ws₀ vs cs ws)
    (hperm : vs.Perm (List.range job.graph.nodeCount))
    (hfits : ws₀.frontier.size = job.graph.nodeCount) : ws.frontier.cardinality ≤ cs.length := by
  -- the frontier is a set of called vertices, and nobody was called twice
  have hsubset : (List.range job.graph.nodeCount).filter ws₀.frontier.contains
      ⊆ cs.map (·.vertex) := by
    intro v hv
    obtain ⟨hmem, hbit⟩ := List.mem_filter.mp hv
    exact h.awake v (hperm.mem_iff.mpr hmem) hbit
  have hlength := ((List.nodup_range.filter _).subperm hsubset).length_le
  rwa [List.length_map, ← List.countP_eq_length_filter, ← hfits, ← BitSet.cardinality_eq_countP,
    ← h.frontier] at hlength

/-- What waits after a superstep was sent in it. -/
theorem Tally.sent_of_pending (h : Tally job s ws₀ vs cs ws)
    (hperm : vs.Perm (List.range job.graph.nodeCount))
    (hfresh : ws₀.messenger.isDoubleBuffered = true → ∀ v, ws₀.messenger.outbox v = [])
    (hpending : ws.messenger.pending = true) :
    0 < (cs.map (·.sendCount job.graph.nodeCount)).sum := by
  obtain ⟨v, hwaits⟩ := (Messenger.pending_iff h.serves.fits.messenger).mp hpending
  rcases h.waiting v hwaits with ⟨c, hc, hsent⟩ | ⟨hbefore, hkept⟩
  · exact List.sum_pos_iff_exists_pos_nat.mpr
      ⟨_, List.mem_map_of_mem hc, Call.sendCount_pos_iff.mpr ⟨v, hsent⟩⟩
  · -- what waited before was taken away, or there was nothing
    have hv : v < job.graph.nodeCount := by
      by_contra hout
      exact hwaits (Messenger.outbox_of_le h.serves.fits.messenger (by omega))
    have hdouble := hkept (hperm.mem_iff.mpr (List.mem_range.mpr hv))
    exact absurd (hfresh hdouble v) hbefore

/-- Who was not called sleeps, so the votes after a superstep are those of the calls that voted and
those of the vertices that made no call. -/
theorem Tally.halted_add (h₀ : ∀ v, v < job.graph.nodeCount →
      ws₀.halted.contains v = !ws₀.frontier.contains v)
    (h : Tally job s ws₀ vs cs ws) (hperm : vs.Perm (List.range job.graph.nodeCount)) :
    cs.length ≤ job.graph.nodeCount ∧ ws.halted.cardinality
      = job.graph.nodeCount - cs.length + cs.countP (·.voted job.graph.nodeCount) := by
  have hnodup := h.nodup hperm
  -- the vertices are split into those that were called and the rest
  obtain ⟨rest, hrest⟩ := h.vertices.exists_perm_append
  have hall : (cs.map (·.vertex) ++ rest).Perm (List.range job.graph.nodeCount) :=
    hrest.symm.trans hperm
  have hlength : cs.length + rest.length = job.graph.nodeCount := by
    have hsame := hall.length_eq
    rwa [List.length_append, List.length_map, List.length_range] at hsame
  have hdisjoint : (cs.map (·.vertex)).Disjoint rest :=
    List.disjoint_of_nodup_append (hall.nodup_iff.mpr List.nodup_range)
  have hcalled : (cs.map (·.vertex)).countP ws.halted.contains
      = cs.countP (·.voted job.graph.nodeCount) := by
    rw [List.countP_map]
    apply List.countP_congr
    intro c hc
    -- no other call of the superstep is of the same vertex
    rw [Function.comp_apply, h.halted, if_pos (List.mem_map_of_mem hc),
      Call.any_voted_of_mem hnodup hc]
  -- of the rest nobody was awake, so all of them sleep
  have hpassed : rest.countP ws.halted.contains = rest.length := by
    rw [List.countP_eq_length]
    intro v hv
    have hmem : v ∈ vs := hrest.mem_iff.mpr (List.mem_append_right _ hv)
    have hlt : v < job.graph.nodeCount := List.mem_range.mp (hperm.mem_iff.mp hmem)
    have huncalled : v ∉ cs.map (·.vertex) := fun hcall => hdisjoint hcall hv
    rw [h.halted, if_neg huncalled, h₀ v hlt, Bool.not_eq_true']
    exact Bool.eq_false_iff.mpr fun hbit => huncalled (h.awake v hmem hbit)
  refine ⟨by omega, ?_⟩
  rw [BitSet.cardinality_eq_countP, h.serves.fits.halted, ← hall.countP_eq, List.countP_append,
    hcalled, hpassed]
  omega

end Workspace

/-! ## The figures -/

/-- What the figures of a superstep over `n` vertices say of the calls that it made. -/
structure SuperstepStats.Accounts (stats : SuperstepStats) (n : Nat) (calls : List (Call α)) :
    Prop where
  once : (calls.map (·.vertex)).Nodup
  /-- Every call did all it set out to do, so that its reply tells what was sent and voted. -/
  succeeded : ∀ c ∈ calls, c.succeeded n = true
  invocations : stats.work.invocations = calls.length
  messagesSent : stats.work.messagesSent
    = (calls.map fun c => c.reply.effects.countP Effect.isSend).sum
  newlyHalted : stats.work.newlyHalted
    = ((calls.filter (·.reply.effects.any Effect.isVote)).map (·.vertex)).toFinset.card
  invocations_le : stats.work.invocations ≤ n
  halted : stats.halted = n - stats.work.invocations + stats.work.newlyHalted
  active_le : stats.active ≤ stats.work.invocations
  sent_of_pending : stats.pending = true → 0 < stats.work.messagesSent

/-- What the figures of a superstep say besides, if no message reaches a vertex before the next. -/
structure SuperstepStats.KeepsApart (stats : SuperstepStats) : Prop where
  invocations : stats.work.invocations = stats.active
  pending_iff : stats.pending = true ↔ 0 < stats.work.messagesSent

namespace Workspace

variable {job : Job α} {schedule : Schedule} {s : Nat} {ws ws' ws₀ : Workspace α} {vs : List Nat}
  {cs : List (Call α)}

/-- The figures that are taken from a tally of all vertices. -/
theorem Tally.accounts (h₀ : ∀ v, v < job.graph.nodeCount →
      ws₀.halted.contains v = !ws₀.frontier.contains v)
    (hfresh : ws₀.messenger.isDoubleBuffered = true → ∀ v, ws₀.messenger.outbox v = [])
    (hfits : ws₀.frontier.size = job.graph.nodeCount) (h : Tally job s ws₀ vs cs ws)
    (hperm : vs.Perm (List.range job.graph.nodeCount))
    (hsucceeded : ∀ c ∈ cs, c.succeeded job.graph.nodeCount = true) :
    SuperstepStats.Accounts ⟨s, ws.frontier.cardinality, ws.stats, ws.halted.cardinality,
      ws.messenger.pending⟩ job.graph.nodeCount cs := by
  have hnodup := h.nodup hperm
  obtain ⟨hle, hhalted⟩ := h.halted_add h₀ hperm
  have heffects : ∀ c ∈ cs, c.performed job.graph.nodeCount = c.reply.effects :=
    fun c hc => Call.performed_of_succeeded (hsucceeded c hc)
  have hvoted : ∀ c ∈ cs, c.voted job.graph.nodeCount = c.reply.effects.any Effect.isVote :=
    fun c hc => by rw [Call.voted, heffects c hc]
  have hsent : cs.map (·.sendCount job.graph.nodeCount)
      = cs.map fun c => c.reply.effects.countP Effect.isSend :=
    List.map_congr_left fun c hc => by rw [Call.sendCount, heffects c hc]
  -- a vertex makes one call at most, so votes are counted by vertices
  have hcount : cs.countP (·.voted job.graph.nodeCount)
      = ((cs.filter (·.reply.effects.any Effect.isVote)).map (·.vertex)).toFinset.card := by
    have hsublist := (List.filter_sublist (l := cs)
      (p := (·.reply.effects.any Effect.isVote))).map (·.vertex)
    rw [List.toFinset_card_of_nodup (hnodup.sublist hsublist), List.length_map,
      ← List.countP_eq_length_filter]
    exact List.countP_congr fun c hc => by rw [hvoted c hc]
  exact {
    once := hnodup
    succeeded := hsucceeded
    invocations := by rw [h.stats]
    messagesSent := by rw [h.stats, ← hsent]
    newlyHalted := by rw [h.stats, ← hcount]
    invocations_le := by rw [h.stats]; exact hle
    halted := by rw [h.stats, hhalted]
    active_le := by rw [h.stats]; exact h.active_le hperm hfits
    sent_of_pending := by rw [h.stats]; exact h.sent_of_pending hperm hfresh }

/-- With two buffers the calls are those of the vertices that were awake, and what they sent waits.
-/
theorem Bulk.keepsApart (h : Bulk job s ws₀ vs cs ws)
    (hperm : vs.Perm (List.range job.graph.nodeCount)) :
    SuperstepStats.KeepsApart ⟨s, ws.frontier.cardinality, ws.stats, ws.halted.cardinality,
      ws.messenger.pending⟩ where
  invocations := by
    have hlength : cs.length = (vs.filter ws₀.frontier.contains).length := by
      rw [← h.vertices, List.length_map]
    rw [h.stats, BitSet.cardinality_eq_countP, h.serves.fits.frontier, h.frontier,
      ← hperm.countP_eq, List.countP_eq_length_filter]
    exact hlength
  pending_iff := by
    rw [h.stats, List.sum_pos_iff_exists_pos_nat]
    rw [Messenger.pending_iff h.serves.fits.messenger]
    -- what waits is what the calls sent, so it is empty if they sent nothing
    simp only [h.outbox, ne_eq, Messenger.collected_eq_nil_iff, List.flatMap_eq_nil_iff,
      List.mem_map, exists_exists_and_eq_and, Call.sendCount_pos_iff, not_forall, exists_prop]
    exact ⟨fun ⟨v, c, hc, hsent⟩ => ⟨c, hc, v, hsent⟩, fun ⟨c, hc, v, hsent⟩ => ⟨v, c, hc, hsent⟩⟩

/-! ## Supersteps and runs -/

/-- The figures that a superstep without failure adds to the journal, and the calls that it made. -/
theorem accounts_of_superstep {control : Control} (h : ws.Serves job)
    (hready : ws.messenger.ReadyFor s)
    (hsuperstep : ws.superstep job schedule s = (.ok control, ws')) :
    ∃ cs stats, ws'.journal.calls .compute = ws.journal.calls .compute ++ cs ∧
      (∀ c ∈ cs, c.superstep = s) ∧ ws'.journal.figures = ws.journal.figures ++ [stats] ∧
      stats.superstep = s ∧ stats.Accounts job.graph.nodeCount cs ∧
      (ws.messenger.isDoubleBuffered = true → stats.KeepsApart) := by
  obtain ⟨cs', hcalls', hsucceeded⟩ := succeeded_of_superstep h hsuperstep
  have hends := SuperstepEnds.of_superstep hsuperstep
  obtain ⟨vs, ws₁, htraverses, hperm, hfinishes⟩ := hends.of_ok
  have hnodup : vs.Nodup := hperm.nodup_iff.mpr List.nodup_range
  have hopened := (h.opened s).1
  obtain ⟨hjournal, -, hfigures⟩ := journal_opened ws s
  obtain ⟨cs, htally⟩ := htraverses.tally hopened rfl (fun v => halted_opened h s) hnodup
  have hcalls : ws'.journal.calls .compute = ws.journal.calls .compute ++ cs := by
    rw [hfinishes.calls, htally.calls, hjournal]
  -- the calls of the tally are the ones known to have succeeded
  obtain rfl : cs' = cs := List.append_cancel_left (hcalls'.symm.trans hcalls)
  have hdouble : (ws.opened s).messenger.isDoubleBuffered = ws.messenger.isDoubleBuffered :=
    hopened.isDoubleBuffered.trans h.isDoubleBuffered.symm
  refine ⟨cs', _, hcalls, htally.superstep, ?_, rfl, htally.accounts (fun v => halted_opened h s)
    ?_ hopened.fits.frontier hperm hsucceeded, ?_⟩
  · rw [hfinishes.figures, htraverses.journal.2.1, hfigures]
  · intro hd
    exact (Poised.opened h hready (hdouble.symm.trans hd)).1.outbox
  · intro hd
    -- the superstep in bulk is the same one, told for a messenger with two buffers
    obtain ⟨ds, hbulk⟩ := (Poised.opened h hready hd).1.bulk htraverses hnodup
    exact hbulk.keepsApart hperm

/-- A superstep without failure adds its figures to those of the supersteps before. -/
theorem StandsAt.figures_of_superstep {control : Control} (h : StandsAt job schedule ws₀ s ws)
    (h₀ : ws₀.Serves job) (hready : ws₀.messenger.ReadyFor 0)
    (hnone : ws₀.journal.computed = [] ∧ ws₀.journal.figures = [])
    (hsuperstep : ws.superstep job schedule s = (.ok control, ws')) :
    ws'.journal.figures.map (·.superstep) = List.range (s + 1) := by
  obtain ⟨hserves, hready'⟩ := h.serves h₀ hready
  obtain ⟨-, stats, -, -, hfigures, hs, -, -⟩ := accounts_of_superstep hserves hready' hsuperstep
  rw [hfigures, List.map_append, (h.log hnone).2, List.range_succ, List.map_singleton, hs]

/-- A superstep that failed adds calls of its own and no figures. -/
theorem SuperstepEnds.calls_of_error {stop : Stop} (h : ws.Serves job)
    (hends : SuperstepEnds job s ws (.error stop) ws') :
    ws'.journal.figures = ws.journal.figures ∧
      ∃ cs, ws'.journal.calls .compute = ws.journal.calls .compute ++ cs ∧
        ∀ c ∈ cs, c.superstep = s := by
  obtain ⟨vs, ws₁, htraverses, hnodup, hcalls, -⟩ := hends.journal
  obtain ⟨hjournal, -, hfigures⟩ := journal_opened ws s
  obtain ⟨cs, htally⟩ :=
    htraverses.tally (h.opened s).1 rfl (fun v => halted_opened h s) hnodup
  refine ⟨?_, cs, by rw [hcalls, htally.calls, hjournal], htally.superstep⟩
  -- a phase that failed took no figures, nor did the step of the program after it
  cases hends with
  | broken htraverses _ _ => rw [htraverses.journal.2.1, hfigures]
  | @masterFailed vs ws₂ _ _ htraverses _ hmaster =>
    have hframe := masterCompute_frame job s (ws₂.transition (.masterComputing s))
    rw [hmaster] at hframe
    have hpush : ws'.journal = ws₂.journal.push (.transition ws₂.state (.masterComputing s)) :=
      (congrArg Workspace.journal hframe :)
    rw [hpush, Journal.figures_push, htraverses.journal.2.1, hfigures]
    exact List.append_nil _

/-- All figures in the journal account for the calls of their superstep. -/
def Booked (job : Job α) (ws : Workspace α) : Prop :=
  ∀ stats ∈ ws.journal.figures,
    stats.Accounts job.graph.nodeCount ((ws.journal.calls .compute).filter
      fun c => decide (c.superstep = stats.superstep)) ∧
    ((job.program.reducer.isSome || !job.config.isAsynchronous) = true → stats.KeepsApart)

/-- A change of state adds no figures to the journal. -/
theorem figures_transition (ws : Workspace α) (state : RunState) :
    (ws.transition state).journal.figures = ws.journal.figures := by
  simp [transition, Journal.figures_push, Event.figures?]

/-- A change of state is in no book. -/
theorem Booked.transition (h : Booked job ws) (state : RunState) :
    Booked job (ws.transition state) := by
  have hcalls : (ws.transition state).journal.calls .compute = ws.journal.calls .compute := by
    simp [Workspace.transition, Journal.calls_push, Event.call?]
  rw [Booked, hcalls, figures_transition]
  exact h

/-- Calls of a later superstep do not matter to the figures so far. -/
theorem Booked.append (h : Booked job ws)
    (hfigures : ∀ stats ∈ ws.journal.figures, stats.superstep < s)
    (hcs : ∀ c ∈ cs, c.superstep = s) {stats : SuperstepStats}
    (hstats : stats ∈ ws.journal.figures) :
    stats.Accounts job.graph.nodeCount ((ws.journal.calls .compute ++ cs).filter
      fun c => decide (c.superstep = stats.superstep)) ∧
    ((job.program.reducer.isSome || !job.config.isAsynchronous) = true → stats.KeepsApart) := by
  -- none of the new calls is of a superstep that has figures
  have hnone : cs.filter (fun c => decide (c.superstep = stats.superstep)) = [] := by
    rw [List.filter_eq_nil_iff]
    intro c hc
    have hlt := hfigures stats hstats
    rw [decide_eq_true_eq, hcs c hc]
    omega
  rw [List.filter_append, hnone, List.append_nil]
  exact h stats hstats

/-- At a boundary the books are in order, and they are about the supersteps below. -/
structure BookedAt (job : Job α) (s : Nat) (ws : Workspace α) : Prop where
  booked : ws.Booked job
  early : ∀ c ∈ ws.journal.calls .compute, c.superstep < s
  below : ∀ stats ∈ ws.journal.figures, stats.superstep < s

/-- A superstep without failure keeps the books in order. -/
theorem BookedAt.step {control : Control} (h : BookedAt job s ws) (hserves : ws.Serves job)
    (hready : ws.messenger.ReadyFor s)
    (hsuperstep : ws.superstep job schedule s = (.ok control, ws')) : BookedAt job (s + 1) ws' := by
  obtain ⟨cs, stats, hcalls, hcs, hfigures, hs, haccounts, hapart⟩ :=
    accounts_of_superstep hserves hready hsuperstep
  refine ⟨fun stats' hstats' => ?_, fun c hc => ?_, fun stats' hstats' => ?_⟩
  · rw [hfigures] at hstats'
    rw [hcalls]
    rcases List.mem_append.mp hstats' with hold | hnew
    · exact h.booked.append h.below hcs hold
    · rw [List.mem_singleton.mp hnew]
      refine ⟨?_, fun hkind => hapart (hserves.isDoubleBuffered.trans hkind)⟩
      -- the calls of this superstep are the new ones
      have hnone : (ws.journal.calls .compute).filter
          (fun c => decide (c.superstep = stats.superstep)) = [] := by
        rw [List.filter_eq_nil_iff]
        intro c hc
        have hlt := h.early c hc
        rw [decide_eq_true_eq, hs]
        omega
      have hall : cs.filter (fun c => decide (c.superstep = stats.superstep)) = cs := by
        rw [List.filter_eq_self]
        intro c hc
        rw [decide_eq_true_eq, hcs c hc, hs]
      rwa [List.filter_append, hnone, hall, List.nil_append]
  · rw [hcalls] at hc
    rcases List.mem_append.mp hc with hold | hnew
    · exact Nat.lt_succ_of_lt (h.early c hold)
    · rw [hcs c hnew]
      exact Nat.lt_succ_self s
  · rw [hfigures] at hstats'
    rcases List.mem_append.mp hstats' with hold | hnew
    · exact Nat.lt_succ_of_lt (h.below stats' hold)
    · rw [List.mem_singleton.mp hnew, hs]
      exact Nat.lt_succ_self s

/-- The books are in order at every boundary, by induction on the supersteps. -/
theorem StandsAt.bookedAt (h : StandsAt job schedule ws₀ s ws) (h₀ : ws₀.Serves job)
    (hready : ws₀.messenger.ReadyFor 0)
    (hnone : ws₀.journal.calls .compute = [] ∧ ws₀.journal.figures = []) : BookedAt job s ws := by
  induction h with
  | @first ws hflag hinit =>
    -- setting vertices up makes no call that computes
    obtain ⟨vs, htraverses, -⟩ := traverses_of_runPhase hinit
    obtain ⟨-, hfigures, hcalls⟩ := htraverses.journal
    have hempty : ws.journal.figures = [] := hfigures.trans hnone.2
    have hsilent : ws.journal.calls .compute = [] := (hcalls .compute (by decide)).trans hnone.1
    refine ⟨fun stats hstats => ?_, ?_, ?_⟩
    · rw [hempty] at hstats
      cases hstats
    · rw [hsilent]
      exact List.forall_mem_nil _
    · rw [hempty]
      exact List.forall_mem_nil _
  | next hstands _ _ hsuperstep _ ih =>
    obtain ⟨hserves, hready'⟩ := hstands.serves h₀ hready
    exact ih.step hserves hready' hsuperstep

/-- However the supersteps of a run end, the books are in order. -/
theorem RunEnds.booked {out : Except Stop Ending} (h : RunEnds job schedule ws₀ out ws)
    (h₀ : ws₀.Serves job) (hready : ws₀.messenger.ReadyFor 0)
    (hnone : ws₀.journal.calls .compute = [] ∧ ws₀.journal.figures = []) : ws.Booked job := by
  have hstands {s : Nat} {ws : Workspace α} (h : StandsAt job schedule ws₀ s ws) : ws.Booked job :=
    (h.bookedAt h₀ hready hnone).booked
  have hcomputes {s : Nat} {ws : Workspace α} {control : Control}
      (h : Computes job schedule ws₀ s (.ok control) ws) : ws.Booked job := by
    obtain ⟨before, hstands, -, -, hsuperstep⟩ := h
    obtain ⟨hserves, hready'⟩ := hstands.serves h₀ hready
    exact ((hstands.bookedAt h₀ hready hnone).step hserves hready' hsuperstep).booked
  -- one case for each place at which the supersteps can end
  cases h with
  | neverStarted =>
    intro stats hstats
    rw [hnone.2] at hstats
    cases hstats
  | setUpFailed hflag hinit =>
    obtain ⟨vs, htraverses, -⟩ := traverses_of_runPhase hinit
    intro stats hstats
    rw [htraverses.journal.2.1] at hstats
    change stats ∈ ws₀.journal.figures at hstats
    rw [hnone.2] at hstats
    cases hstats
  | capped h => exact .transition (hstands h) _
  | terminated h _ _ => exact hstands h
  | @failed s stop _ h =>
    -- the superstep that failed has calls but no figures of its own
    obtain ⟨before, hbefore, -, -, hsuperstep⟩ := h
    obtain ⟨hserves, -⟩ := hbefore.serves h₀ hready
    have hat := hbefore.bookedAt h₀ hready hnone
    have hends := SuperstepEnds.of_superstep hsuperstep
    obtain ⟨hfigures, cs, hcalls, hcs⟩ := hends.calls_of_error hserves
    intro stats hstats
    rw [hfigures] at hstats
    rw [hcalls]
    exact hat.booked.append hat.below hcs hstats
  | halted h => exact .transition (hcomputes h) _
  | converged h _ => exact .transition (hcomputes h) _

/-! ## Which supersteps have figures -/

/-- The journal of a run has one entry of figures for each superstep below some bound, and all of
these supersteps ended without failure. -/
theorem RunEnds.exists_figures {out : Except Stop Ending} (h : RunEnds job schedule ws₀ out ws)
    (h₀ : ws₀.Serves job) (hready : ws₀.messenger.ReadyFor 0)
    (hnone : ws₀.journal.computed = [] ∧ ws₀.journal.figures = []) :
    ∃ k, ws.journal.figures.map (·.superstep) = List.range k ∧
      ∀ i, i < k → ∃ control after, Computes job schedule ws₀ i (.ok control) after := by
  have hbelow {s : Nat} {ws : Workspace α} (h : StandsAt job schedule ws₀ s ws) (i : Nat)
      (hi : i < s) : ∃ control after, Computes job schedule ws₀ i (.ok control) after :=
    ⟨_, h.computes_of_lt i hi⟩
  have hcomputes {s : Nat} {control : Control} {ws : Workspace α}
      (h : Computes job schedule ws₀ s (.ok control) ws) :
      ws.journal.figures.map (·.superstep) = List.range (s + 1) ∧
        ∀ i, i < s + 1 → ∃ control after, Computes job schedule ws₀ i (.ok control) after := by
    obtain ⟨before, hstands, hs, hflag, hsuperstep⟩ := h
    refine ⟨hstands.figures_of_superstep h₀ hready hnone hsuperstep, fun i hi => ?_⟩
    rcases Nat.lt_succ_iff_lt_or_eq.mp hi with hlt | rfl
    · exact hbelow hstands i hlt
    · exact ⟨control, ws, before, hstands, hs, hflag, hsuperstep⟩
  -- the bound is the superstep in which the run ended, or the one after it
  cases h with
  | neverStarted => exact ⟨0, by rw [hnone.2]; rfl, fun i hi => absurd hi (Nat.not_lt_zero i)⟩
  | setUpFailed hflag hinit =>
    obtain ⟨vs, htraverses, -⟩ := traverses_of_runPhase hinit
    refine ⟨0, ?_, fun i hi => absurd hi (Nat.not_lt_zero i)⟩
    rw [htraverses.journal.2.1]
    exact congrArg (List.map (·.superstep)) hnone.2
  | capped h =>
    rw [figures_transition]
    exact ⟨_, (h.log hnone).2, hbelow h⟩
  | terminated h _ _ => exact ⟨_, (h.log hnone).2, hbelow h⟩
  | @failed s stop _ h =>
    obtain ⟨before, hstands, -, -, hsuperstep⟩ := h
    have hends := SuperstepEnds.of_superstep hsuperstep
    rw [(hends.calls_of_error (hstands.serves h₀ hready).1).1]
    exact ⟨_, (hstands.log hnone).2, hbelow hstands⟩
  | halted h =>
    rw [figures_transition]
    exact ⟨_, hcomputes h⟩
  | converged h _ =>
    rw [figures_transition]
    exact ⟨_, hcomputes h⟩

/-- Exactly the supersteps that ended without failure have figures, in their order. -/
theorem figures_iterate (h₀ : ws₀.Serves job) (hready : ws₀.messenger.ReadyFor 0)
    (hnone : ws₀.journal.computed = [] ∧ ws₀.journal.figures = []) :
    ∃ k, (ws₀.iterate job schedule).2.journal.figures.map (·.superstep) = List.range k ∧
      ∀ i, i < k ↔ ∃ control after, Computes job schedule ws₀ i (.ok control) after := by
  obtain ⟨k, hfigures, hcomputed⟩ :=
    (runEnds_iterate job schedule ws₀).exists_figures h₀ hready hnone
  refine ⟨k, hfigures, fun i => ⟨hcomputed i, fun ⟨control, after, h⟩ => ?_⟩⟩
  obtain ⟨before, hstands, hi, hflag, hsuperstep⟩ := h
  -- no part of the run takes back what this superstep wrote
  have hcontinues := hstands.continues hi hflag
  rw [hsuperstep] at hcontinues
  have hprefix := hcontinues.figures.map (·.superstep)
  rw [hstands.figures_of_superstep h₀ hready hnone hsuperstep, hfigures] at hprefix
  have hlength := hprefix.length_le
  rwa [List.length_range, List.length_range] at hlength

end Workspace

open Workspace in
/-- The figures of every superstep that ended without failure, in every run with any program, graph,
messenger, computer and schedule. The journal has them one after the other. They count the calls
that the journal has of the superstep, none of which was cut short: their number, the messages that
they sent, and the vertices whose call voted to halt, however often. The vertices that sleep
afterwards are those that were not called and those that voted. Every vertex that was awake was
called, and only what was sent in the superstep waits. With a messenger that keeps supersteps apart
no other vertex was called, and something waits if anything was sent. -/
theorem superstep_statistics [Scalar α] {graph : Graph α} {config : Config} {program : Program α}
    {flag : Flag} {r : Run α} (hcreate : Run.create graph config program flag = .ok r)
    (schedule : Schedule) :
    (∀ schema, program.schema config = .ok schema →
      ∃ k, (r.execute schedule).2.journal.figures.map (·.superstep) = List.range k ∧
        ∀ s, s < k ↔ ∃ control ws,
          Computes r.job schedule (r.opening schema) s (.ok control) ws) ∧
    ∀ stats ∈ (r.execute schedule).2.journal.figures,
      stats.Accounts graph.nodeCount (((r.execute schedule).2.journal.calls .compute).filter
        fun c => decide (c.superstep = stats.superstep)) ∧
      (program.reducer.isSome = true ∨ config.isAsynchronous = false → stats.KeepsApart) := by
  refine ⟨fun schema hschema => ?_, fun stats hstats => ?_⟩
  · obtain ⟨-, -, -, -, hfigures⟩ := Run.execute_of_schema hcreate hschema schedule
    obtain ⟨hserves, hready⟩ := r.serves_opening schema
    rw [hfigures]
    exact figures_iterate hserves hready (Run.journal_opening hcreate schema).2
  -- a run whose schema is refused takes no figures
  cases hschema : program.schema config with
  | error v =>
    obtain ⟨-, -, -, hfigures⟩ := Run.execute_of_schema_error hcreate hschema schedule
    rw [hfigures] at hstats
    cases hstats
  | ok schema =>
    obtain ⟨-, -, hcalls, -, hfigures⟩ := Run.execute_of_schema hcreate hschema schedule
    obtain ⟨hnone, -, hempty⟩ := Run.journal_opening hcreate schema
    obtain ⟨hserves, hready⟩ := r.serves_opening schema
    obtain ⟨hgraph, hprogram, hconfig⟩ := Run.job_of_create hcreate
    rw [hfigures] at hstats
    obtain ⟨haccounts, hapart⟩ := (runEnds_iterate r.job schedule
      (r.opening schema)).booked hserves hready ⟨hnone .compute, hempty⟩ stats hstats
    rw [hcalls, ← hgraph]
    refine ⟨haccounts, fun hkind => hapart ?_⟩
    rw [hprogram, hconfig]
    simpa using hkind

/-- In the asynchronous relay vertex 0 wakes vertex 1 before its turn. In the synchronous one the
message waits for the next superstep, where vertex 1 is called again. -/
theorem superstep_statistics_relay :
    let early := ((Relay.run none true false).execute Relay.takingTurns).2.journal
    let late := ((Relay.run none false false).execute Relay.takingTurns).2.journal
    (early.figures = [⟨0, 2, ⟨2, 1, 2⟩, 2, false⟩] ∧
      SuperstepStats.Accounts ⟨0, 2, ⟨2, 1, 2⟩, 2, false⟩ 2
        ((early.calls .compute).filter fun c => decide (c.superstep = 0))) ∧
    late.figures = [⟨0, 2, ⟨2, 1, 2⟩, 2, true⟩, ⟨1, 1, ⟨1, 0, 1⟩, 2, false⟩] ∧
      SuperstepStats.Accounts ⟨1, 1, ⟨1, 0, 1⟩, 2, false⟩ 2
        ((late.calls .compute).filter fun c => decide (c.superstep = 1)) ∧
      SuperstepStats.KeepsApart ⟨1, 1, ⟨1, 0, 1⟩, 2, false⟩ := by
  -- the figures are evaluated, and the general statement is applied to them
  have hearly : ((Relay.run none true false).execute Relay.takingTurns).2.journal.figures
      = [⟨0, 2, ⟨2, 1, 2⟩, 2, false⟩] := by decide +kernel
  have hlate : ((Relay.run none false false).execute Relay.takingTurns).2.journal.figures
      = [⟨0, 2, ⟨2, 1, 2⟩, 2, true⟩, ⟨1, 1, ⟨1, 0, 1⟩, 2, false⟩] := by decide +kernel
  obtain ⟨-, hfigures⟩ := superstep_statistics (Relay.create_run none false false) Relay.takingTurns
  obtain ⟨haccounts, hapart⟩ := hfigures _
    (hlate ▸ List.mem_cons_of_mem _ (List.mem_singleton_self _))
  refine ⟨⟨hearly, ?_⟩, hlate, haccounts, hapart (.inr rfl)⟩
  exact ((superstep_statistics (Relay.create_run none true false) Relay.takingTurns).2 _
    (hearly ▸ List.mem_singleton_self _)).1

end Superstep
