import Mathlib
import Superstep.Proofs.NodeValues
import Superstep.Proofs.Run.Serving

/-!
# A computing phase with a double-buffered messenger

With the synchronous and the reducing messenger nothing that a phase does reaches another vertex of
the same phase. So whatever the schedule, the workspace after some visits is known from the one at
the start of the phase and the calls: `Bulk` writes it out.

## Key results

- `Workspace.Poised.opened`: a superstep starts with an empty outbox, and with every vote of an
  awake vertex taken back
- `Workspace.Poised.bulk`: what a phase amounts to after any visits
-/

namespace Superstep

variable {α : Type}

/-- Only the calls of a vertex vote for it. -/
theorem Call.any_voted_of_ne {n v : Nat} {cs : List (Call α)} (h : ∀ c ∈ cs, c.vertex ≠ v) :
    (cs.any fun c => decide (v = c.vertex) && c.voted n) = false := by
  rw [List.any_eq_false]
  intro c hc
  simp [Ne.symm (h c hc)]

namespace Workspace

variable {job : Job α} {s : Nat}

/-- The state in which the workers of a superstep begin. -/
structure Poised (job : Job α) (s : Nat) (ws : Workspace α) : Prop where
  serves : ws.Serves job
  doubleBuffered : ws.messenger.isDoubleBuffered = true
  faces : ws.messenger.Faces s
  outbox : ∀ v, ws.messenger.outbox v = []
  awake : ∀ v, ws.frontier.contains v = true → ws.halted.contains v = false
  asleep : ∀ v, v < job.graph.nodeCount → ws.frontier.contains v = false →
    ws.messenger.inbox v = []
  stats : ws.stats = .zero

/-- A superstep begins with what waited for it. -/
theorem Poised.opened {ws : Workspace α} (h : ws.Serves job) (hready : ws.messenger.ReadyFor s)
    (hd : ws.messenger.isDoubleBuffered = true) :
    Poised job s (ws.opened s) ∧
      (∀ v, (ws.opened s).messenger.inbox v = ws.messenger.outbox v) ∧
      (∀ v, (ws.opened s).halted.contains v
        = (ws.halted.contains v && (ws.messenger.outbox v).isEmpty)) ∧
      (∀ v, v < job.graph.nodeCount → (ws.opened s).frontier.contains v
        = (!(ws.messenger.outbox v).isEmpty || !ws.halted.contains v)) ∧
      (ws.opened s).values = ws.values := by
  have hentered : (ws.transition (.running s)).Serves job := h.congr rfl rfl rfl
  obtain ⟨hserves, hfaces⟩ := h.opened s
  obtain ⟨hfits, hframe, hhalted, hfrontier⟩ := prepare_spec hentered.fits s
  have hmessenger : (ws.opened s).messenger = ws.messenger.prepare s :=
    (congrArg Workspace.messenger hframe :)
  have hvalues : (ws.opened s).values = ws.values := (congrArg Workspace.values hframe :)
  have hboxes := Messenger.inbox_prepare_of_isDoubleBuffered h.fits.messenger hd hready
  -- mail after `prepare` is what was in the outbox before
  have hmail (v : Nat) :
      (ws.messenger.prepare s).hasMail v = !(ws.messenger.outbox v).isEmpty := by
    have hiff := Messenger.hasMail_iff (h.fits.messenger.prepare s) v
    rw [(hboxes v).1] at hiff
    rw [Bool.eq_iff_iff, hiff]
    cases ws.messenger.outbox v <;> simp
  have hhalted' (v : Nat) : (ws.opened s).halted.contains v
      = (ws.halted.contains v && (ws.messenger.outbox v).isEmpty) := by
    have hbit := hhalted v
    change (ws.opened s).halted.contains v
      = (ws.halted.contains v && !(ws.messenger.prepare s).hasMail v) at hbit
    rw [hbit, hmail, Bool.not_not]
  have hfrontier' (v : Nat) (hv : v < job.graph.nodeCount) : (ws.opened s).frontier.contains v
      = (!(ws.messenger.outbox v).isEmpty || !ws.halted.contains v) := by
    have hbit := hfrontier v hv
    change (ws.opened s).frontier.contains v
      = ((ws.messenger.prepare s).hasMail v || !ws.halted.contains v) at hbit
    rw [hbit, hmail]
  refine ⟨⟨hserves, ?_, hfaces, ?_, ?_, ?_, rfl⟩, ?_, hhalted', hfrontier', hvalues⟩
  · rw [hmessenger, Messenger.isDoubleBuffered_prepare, hd]
  · intro v
    rw [hmessenger, (hboxes v).2]
  · -- a vertex in the frontier has mail, which takes its vote back, or has no vote
    intro v hawake
    by_cases hv : v < job.graph.nodeCount
    · rw [hfrontier' v hv] at hawake
      rw [hhalted']
      revert hawake
      -- of the four cases of vote and mail only awake ones are left
      cases ws.halted.contains v <;> cases (ws.messenger.outbox v).isEmpty <;> decide
    · rw [BitSet.contains_eq_false_of_le _ (by rw [hserves.fits.frontier]; omega)] at hawake
      cases hawake
  · intro v hv hasleep
    rw [hfrontier' v hv, Bool.or_eq_false_iff, Bool.not_eq_false', List.isEmpty_iff] at hasleep
    rw [hmessenger, (hboxes v).1, hasleep.1]
  · intro v
    rw [hmessenger, (hboxes v).1]

/-- The values after calls. -/
def storeReplies (values : NodeValues α) (cs : List (Call α)) : NodeValues α :=
  cs.foldl (fun values c => values.setRow c.vertex c.reply.row) values

/-- Rows of vertices that made no call stay. -/
theorem row_storeReplies {values : NodeValues α} {cs : List (Call α)} {v : Nat}
    (h : ∀ c ∈ cs, c.vertex ≠ v) : (storeReplies values cs).row v = values.row v := by
  induction cs generalizing values with
  | nil => rfl
  | cons c cs ih =>
    obtain ⟨hc, hcs⟩ := List.forall_mem_cons.mp h
    rw [storeReplies, List.foldl_cons]
    exact (ih hcs).trans (values.row_setRow_of_ne hc c.reply.row)

/-- Storing replies changes neither schema nor number of vertices. -/
theorem storeReplies_frame (values : NodeValues α) (cs : List (Call α)) :
    (storeReplies values cs).schema = values.schema ∧
      (storeReplies values cs).nodeCount = values.nodeCount := by
  induction cs generalizing values with
  | nil => exact ⟨rfl, rfl⟩
  | cons c cs ih =>
    obtain ⟨hschema, hcount⟩ := ih (values.setRow c.vertex c.reply.row)
    exact ⟨hschema.trans (values.schema_setRow _ _), hcount.trans (values.nodeCount_setRow _ _)⟩

/-- The row of a vertex that made a call is the one of the reply, if replies have the cells that the
schema asks for. -/
theorem row_storeReplies_of_mem {values : NodeValues α} {cs : List (Call α)}
    (hreplies : ∀ c ∈ cs, c.vertex < values.nodeCount ∧ c.reply.row.schema = values.schema ∧
      c.reply.row.cells.toList.map Cell.valueType
        = values.schema.elements.map Element.valueType)
    (hnodup : (cs.map (·.vertex)).Nodup) {c : Call α} (hc : c ∈ cs) :
    (storeReplies values cs).row c.vertex = c.reply.row := by
  induction cs generalizing values with
  | nil => cases hc
  | cons d cs ih =>
    rw [List.map_cons, List.nodup_cons] at hnodup
    obtain ⟨⟨hd, hschema, htypes⟩, hrest⟩ := List.forall_mem_cons.mp hreplies
    change (storeReplies (values.setRow d.vertex d.reply.row) cs).row c.vertex = _
    rcases List.mem_cons.mp hc with rfl | hmem
    · -- the later calls are of other vertices
      have hlater : ∀ d ∈ cs, d.vertex ≠ c.vertex := fun d hd heq =>
        hnodup.1 (heq ▸ List.mem_map_of_mem hd)
      rw [row_storeReplies hlater, NodeValues.row_setRow_self hd hschema htypes]
    · -- the row was stored by a later call, and an earlier one changed another row
      refine ih (fun e he => ?_) hnodup.2 hmem
      rw [NodeValues.nodeCount_setRow, NodeValues.schema_setRow]
      exact hrest e he

/-- What a computing phase amounts to after the vertices `vs` were visited, of which those in the
frontier made the calls `cs`. -/
structure Bulk (job : Job α) (s : Nat) (ws₀ : Workspace α) (vs : List Nat) (cs : List (Call α))
    (ws : Workspace α) : Prop where
  serves : ws.Serves job
  faces : ws.messenger.Faces s
  frontier : ws.frontier = ws₀.frontier
  calls : ws.journal.calls .compute = ws₀.journal.calls .compute ++ cs
  vertices : cs.map (·.vertex) = vs.filter ws₀.frontier.contains
  call : ∀ c ∈ cs, c.superstep = s ∧ c.late = false ∧ c.halted = false ∧
    c.inbox = ws₀.messenger.inbox c.vertex ∧ ∃ flag, c.reply = job.program.compute
      ⟨job.graph, job.config, s, c.vertex, ws₀.values.row c.vertex, c.inbox, flag⟩
  halted : ∀ v, ws.halted.contains v = (ws₀.halted.contains v
    || cs.any fun c => decide (v = c.vertex) && c.voted job.graph.nodeCount)
  inbox : ∀ v, ws.messenger.inbox v = ws₀.messenger.inbox v
  outbox : ∀ v, ws.messenger.outbox v
    = Messenger.collected job.program.reducer (cs.flatMap (·.sentTo job.graph.nodeCount v))
  values : ws.values = storeReplies ws₀.values cs
  stats : ws.stats = ⟨cs.length, (cs.map (·.sendCount job.graph.nodeCount)).sum,
    cs.countP (·.voted job.graph.nodeCount)⟩

/-- Flag, abort mark and finished ranges in the journal do not matter. -/
theorem Bulk.congr {ws₀ ws ws' : Workspace α} {vs : List Nat} {cs : List (Call α)}
    (h : Bulk job s ws₀ vs cs ws) (hhalted : ws'.halted = ws.halted)
    (hfrontier : ws'.frontier = ws.frontier) (hmessenger : ws'.messenger = ws.messenger)
    (hvalues : ws'.values = ws.values) (hstats : ws'.stats = ws.stats)
    (hcalls : ws'.journal.calls .compute = ws.journal.calls .compute) :
    Bulk job s ws₀ vs cs ws' where
  serves := h.serves.congr hhalted hfrontier hmessenger
  faces := hmessenger ▸ h.faces
  frontier := hfrontier.trans h.frontier
  calls := hcalls.trans h.calls
  vertices := h.vertices
  call := h.call
  halted v := (congrArg (·.contains v) hhalted).trans (h.halted v)
  inbox v := (congrArg (·.inbox v) hmessenger).trans (h.inbox v)
  outbox v := (congrArg (·.outbox v) hmessenger).trans (h.outbox v)
  values := hvalues.trans h.values
  stats := hstats.trans h.stats

/-- A vertex makes no call before it is visited. -/
theorem Bulk.vertex_ne {ws₀ ws : Workspace α} {vs : List Nat} {cs : List (Call α)} {v : Nat}
    (h : Bulk job s ws₀ vs cs ws) (hnew : v ∉ vs) : ∀ c ∈ cs, c.vertex ≠ v := by
  intro c hc hvertex
  have hmem := List.mem_map_of_mem (f := (·.vertex)) hc
  rw [h.vertices, hvertex] at hmem
  exact hnew (List.mem_filter.mp hmem).1

/-- If a vertex is passed over, only the list of visits grows. -/
theorem Bulk.pass {ws₀ ws : Workspace α} {vs : List Nat} {cs : List (Call α)} {v : Nat}
    (h : Bulk job s ws₀ vs cs ws) (hasleep : ws₀.frontier.contains v = false) :
    Bulk job s ws₀ (vs ++ [v]) cs ws := by
  refine { h with vertices := ?_ }
  rw [h.vertices, List.filter_append, List.filter_cons_of_neg (by simp [hasleep])]
  exact (List.append_nil _).symm

/-- What a vertex of the frontier is called with depends on the start of the phase alone. -/
theorem Poised.nextCall {ws₀ ws : Workspace α} {vs : List Nat} {cs : List (Call α)} {v : Nat}
    (h₀ : Poised job s ws₀) (h : Bulk job s ws₀ vs cs ws) (hnew : v ∉ vs)
    (hawake : ws₀.frontier.contains v = true) :
    (ws.nextCall job s v).late = false ∧ (ws.nextCall job s v).halted = false ∧
      (ws.nextCall job s v).inbox = ws₀.messenger.inbox v ∧
      ∃ flag, (ws.nextCall job s v).reply = job.program.compute ⟨job.graph, job.config, s, v,
        ws₀.values.row v, (ws.nextCall job s v).inbox, flag⟩ := by
  have hnone := h.vertex_ne hnew
  refine ⟨?_, ?_, h.inbox v, ws.flag, ?_⟩
  · rw [Workspace.nextCall, h.frontier, hawake]
    rfl
  · rw [Workspace.nextCall, h.halted, h₀.awake v hawake, Call.any_voted_of_ne hnone]
    exact Bool.and_false _
  · -- the calls before it wrote to other rows
    rw [← row_storeReplies hnone, ← h.values]
    rfl

/-- A call in the frontier is the last one of a longer list. -/
theorem Bulk.concat {ws₀ ws ws' : Workspace α} {vs : List Nat} {cs : List (Call α)} {c : Call α}
    (h : Bulk job s ws₀ vs cs ws) (hdouble : ws.messenger.isDoubleBuffered = true)
    (hcalled : Called job.graph.nodeCount c ws ws') (hphase : c.phase = .compute)
    (hfrontier : ws₀.frontier.contains c.vertex = true)
    (hcall : c.superstep = s ∧ c.late = false ∧ c.halted = false ∧
      c.inbox = ws₀.messenger.inbox c.vertex ∧ ∃ flag, c.reply = job.program.compute
        ⟨job.graph, job.config, s, c.vertex, ws₀.values.row c.vertex, c.inbox, flag⟩) :
    Bulk job s ws₀ (vs ++ [c.vertex]) (cs ++ [c]) ws' where
  serves := ⟨hcalled.fits, hcalled.reducer?.trans h.serves.reducer?,
    hcalled.isDoubleBuffered.trans h.serves.isDoubleBuffered⟩
  faces := hcalled.faces s h.faces
  frontier := hcalled.frontier.trans h.frontier
  inbox w := (hcalled.inbox hdouble w).trans (h.inbox w)
  calls := by
    rw [hcalled.journal, Journal.calls_push, h.calls, Event.call?, if_pos hphase,
      List.append_assoc]
    rfl
  vertices := by
    rw [List.map_append, h.vertices, List.filter_append, List.filter_cons_of_pos hfrontier]
    rfl
  call c' hc' := by
    rcases List.mem_append.mp hc' with hold | hlast
    · exact h.call c' hold
    · exact List.mem_singleton.mp hlast ▸ hcall
  halted w := by
    obtain ⟨-, hlate, -⟩ := hcall
    rw [hcalled.halted, h.halted, hlate, List.any_append]
    simp [Bool.or_assoc]
  outbox w := by
    rw [hcalled.outbox, Messenger.afterReceiving_of_isDoubleBuffered hdouble,
      h.serves.reducer?, h.outbox, Messenger.gatherAll_collected, List.flatMap_append]
    simp
  values := by
    rw [hcalled.values, h.values, storeReplies, storeReplies, List.foldl_append]
    rfl
  stats := hcalled.stats_concat hcall.2.2.1 h.stats

/-- A visit makes a call if its vertex is in the frontier. -/
theorem Poised.bulk_visit {ws₀ ws : Workspace α} {vs : List Nat} {cs : List (Call α)} {v : Nat}
    (h₀ : Poised job s ws₀) (h : Bulk job s ws₀ vs cs ws) (hv : v < job.graph.nodeCount)
    (hnew : v ∉ vs) : ∃ cs', Bulk job s ws₀ (vs ++ [v]) cs' (ws.visit job .compute s v).2 := by
  rw [visit]
  cases hfrontier : ws₀.frontier.contains v with
  | false =>
    -- nothing reaches it in this superstep, since messages wait for the next
    have hmail : ws.messenger.hasMail v = false := by
      have hiff := Messenger.hasMail_iff h.serves.fits.messenger v
      rw [h.inbox, h₀.asleep v hv hfrontier] at hiff
      simpa using hiff
    have hasleep : ws.isAwake v = false := by
      rw [isAwake, h.frontier, hfrontier, hmail]
      rfl
    rw [visitCompute_of_asleep hasleep]
    exact ⟨cs, h.pass hfrontier⟩
  | true =>
    have hawake : ws.isAwake v = true := by
      rw [isAwake, h.frontier, hfrontier]
      rfl
    have hdouble : ws.messenger.isDoubleBuffered = true :=
      h.serves.isDoubleBuffered.trans (h₀.serves.isDoubleBuffered.symm.trans h₀.doubleBuffered)
    obtain ⟨hcalled, -⟩ := @called_visitCompute _ _ job s v ws h.serves.fits hv hawake
    exact ⟨_, h.concat hdouble hcalled rfl hfrontier ⟨rfl, h₀.nextCall h hnew hfrontier⟩⟩

/-- Whatever the schedule, visits to different vertices amount to the calls of those among them that
are in the frontier. -/
theorem Poised.bulk {ws₀ ws : Workspace α} {vs : List Nat} (h₀ : Poised job s ws₀)
    (h : Traverses job .compute s ws₀ vs ws) (hnodup : vs.Nodup) :
    ∃ cs, Bulk job s ws₀ vs cs ws := by
  -- on the visits; only a visit adds to the calls
  induction h with
  | start =>
    exact ⟨[], {
      serves := h₀.serves
      faces := h₀.faces
      frontier := rfl
      calls := (List.append_nil _).symm
      vertices := rfl
      call := List.forall_mem_nil _
      halted := fun v => by simp
      inbox := fun v => rfl
      outbox := fun v => by rw [h₀.outbox, List.flatMap_nil, Messenger.collected_nil]
      values := rfl
      stats := h₀.stats }⟩
  | visit _ hv ih =>
    rw [List.nodup_append] at hnodup
    obtain ⟨hvs, -, hdisjoint⟩ := hnodup
    obtain ⟨cs, hbulk⟩ := ih hvs
    exact h₀.bulk_visit hbulk hv fun hmem => hdisjoint _ hmem _ (List.mem_singleton_self _) rfl
  | raise _ ih | abort _ ih =>
    obtain ⟨cs, hbulk⟩ := ih hnodup
    exact ⟨cs, hbulk.congr rfl rfl rfl rfl rfl rfl⟩
  | note _ r ok ih =>
    obtain ⟨cs, hbulk⟩ := ih hnodup
    exact ⟨cs, hbulk.congr rfl rfl rfl rfl rfl (calls_note _ r ok .compute)⟩

end Workspace

end Superstep
