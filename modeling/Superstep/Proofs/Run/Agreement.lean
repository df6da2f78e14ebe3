import Mathlib
import Superstep.Proofs.Run.Bulk

/-!
# Two runs of the same program

Two runs may visit the vertices of a superstep in different orders. For a program that cannot tell
them apart, their workspaces still agree at every boundary: what differs is the order in which
messages wait and in which calls were made.

## Key results

- `Workspace.Bulk.gist_perm`: the calls of a superstep are the same in both runs
- `Workspace.SuperstepEnds.agrees`: a superstep leads from agreement to agreement
-/

namespace Superstep

variable {α : Type}

/-- Lists of the same keys, where a key determines the image. -/
theorem perm_map_of_key {β γ δ : Type} (key : β → γ) {f : β → δ} {xs ys : List β}
    (hkeys : (xs.map key).Perm (ys.map key))
    (h : ∀ x ∈ xs, ∀ y ∈ ys, key x = key y → f x = f y) : (xs.map f).Perm (ys.map f) := by
  induction xs generalizing ys with
  | nil =>
    have hnil : ys = [] := List.map_eq_nil_iff.mp (List.nil_perm.mp hkeys)
    rw [hnil]
  | cons x xs ih =>
    -- the first key is in the other list too, and is taken out of both
    obtain ⟨y, hy, hkey⟩ := List.mem_map.mp (hkeys.subset List.mem_cons_self)
    obtain ⟨left, right, rfl⟩ := List.append_of_mem hy
    have hrest : (xs.map key).Perm ((left ++ right).map key) := by
      rw [List.map_cons, List.map_append, List.map_cons, hkey] at hkeys
      rw [List.map_append]
      exact (List.perm_cons _).mp (hkeys.trans List.perm_middle)
    have hperm := ih hrest fun x' hx' y' hy' => by
      refine h x' (List.mem_cons_of_mem _ hx') y' ?_
      rcases List.mem_append.mp hy' with hl | hr
      · exact List.mem_append_left _ hl
      · exact List.mem_append_right _ (List.mem_cons_of_mem _ hr)
    rw [List.map_cons, h x List.mem_cons_self y hy hkey.symm, List.map_append, List.map_cons]
    rw [List.map_append] at hperm
    exact (hperm.cons _).trans List.perm_middle.symm

/-! ## Programs that cannot tell two runs apart -/

/-- Two views that show a vertex in the same situation. -/
structure VertexView.Alike (a b : VertexView α) : Prop where
  graph : a.graph = b.graph
  superstep : a.superstep = b.superstep
  vertex : a.vertex = b.vertex
  row : a.row = b.row
  inbox : a.inbox.Perm b.inbox

/-- The program does the same with two configurations, and looks neither at the order of an inbox
nor at the flag. -/
structure Program.Indifferent (p : Program α) (config config' : Config) : Prop where
  schema : p.schema config = p.schema config'
  init : ∀ a b : VertexView α, a.config = config → b.config = config' → a.Alike b →
    p.init a = p.init b
  compute : ∀ a b : VertexView α, a.config = config → b.config = config' → a.Alike b →
    p.compute a = p.compute b
  master : ∀ graph s flag flag' values,
    p.master ⟨graph, config, s, flag⟩ values = p.master ⟨graph, config', s, flag'⟩ values

/-- Views are alike both ways. -/
theorem VertexView.Alike.symm {a b : VertexView α} (h : a.Alike b) : b.Alike a :=
  ⟨h.graph.symm, h.superstep.symm, h.vertex.symm, h.row.symm, h.inbox.symm⟩

/-- A program that cannot tell two configurations apart cannot do so the other way round. -/
theorem Program.Indifferent.symm {p : Program α} {config config' : Config}
    (h : p.Indifferent config config') : p.Indifferent config' config where
  schema := h.schema.symm
  init a b ha hb hab := (h.init b a hb ha hab.symm).symm
  compute a b ha hb hab := (h.compute b a hb ha hab.symm).symm
  master graph s flag flag' values := (h.master graph s flag' flag values).symm

/-- Two jobs that ask for the same, with a messenger that keeps supersteps apart. -/
structure Job.Alike (job job' : Job α) : Prop where
  graph : job.graph = job'.graph
  program : job.program = job'.program
  maxIterations : job.config.maxIterations = job'.config.maxIterations
  indifferent : job.program.Indifferent job.config job'.config
  orderless : ∀ red, job.program.reducer = some red → red.IsOrderless
  doubleBuffered : (job.program.reducer.isSome || !job.config.isAsynchronous) = true
  doubleBuffered' : (job.program.reducer.isSome || !job'.config.isAsynchronous) = true

/-- Jobs are alike both ways. -/
theorem Job.Alike.symm {job job' : Job α} (h : job.Alike job') : job'.Alike job where
  graph := h.graph.symm
  program := h.program.symm
  maxIterations := h.maxIterations.symm
  indifferent := h.program ▸ h.indifferent.symm
  orderless := h.program ▸ h.orderless
  doubleBuffered := h.program ▸ h.doubleBuffered'
  doubleBuffered' := h.program ▸ h.doubleBuffered

/-- A call, but for the order of its inbox. -/
def Call.gist (c : Call α) : Call α × Multiset α := ({ c with inbox := [] }, c.inbox)

namespace Workspace

variable {job job' : Job α} {s : Nat} {vs vs' : List Nat} {cs cs' : List (Call α)}

/-- Two workspaces that differ at most in the order of messages and calls. -/
structure Agrees (ws ws' : Workspace α) : Prop where
  values : ws.values = ws'.values
  halted : ws.halted = ws'.halted
  inbox : ∀ v, (ws.messenger.inbox v).Perm (ws'.messenger.inbox v)
  outbox : ∀ v, (ws.messenger.outbox v).Perm (ws'.messenger.outbox v)
  calls : ((ws.journal.calls .compute).map Call.gist).Perm
    ((ws'.journal.calls .compute).map Call.gist)
  figures : ws.journal.figures = ws'.journal.figures

/-- Workspaces agree both ways. -/
theorem Agrees.symm {ws ws' : Workspace α} (h : ws.Agrees ws') : ws'.Agrees ws :=
  ⟨h.values.symm, h.halted.symm, fun v => (h.inbox v).symm, fun v => (h.outbox v).symm,
    h.calls.symm, h.figures.symm⟩

/-! ## Setting vertices up -/

/-- Calls of different vertices may be stored in any order. -/
theorem storeReplies_congr {values : NodeValues α} (hnodup : (cs.map (·.vertex)).Nodup)
    (hperm : (cs.map fun c => (c.vertex, c.reply.row)).Perm
      (cs'.map fun c => (c.vertex, c.reply.row))) :
    storeReplies values cs = storeReplies values cs' := by
  have hrows (ds : List (Call α)) : storeReplies values ds
      = (ds.map fun c => (c.vertex, c.reply.row)).foldl
          (fun values x => values.setRow x.1 x.2) values := by
    rw [List.foldl_map]
    rfl
  rw [hrows cs, hrows cs']
  refine hperm.foldl_eq' (fun x hx y hy values => ?_) values
  obtain ⟨c, hc, rfl⟩ := List.mem_map.mp hx
  obtain ⟨d, hd, rfl⟩ := List.mem_map.mp hy
  -- calls of one vertex are one call, those of two vertices commute
  by_cases hvertex : c.vertex = d.vertex
  · rw [List.inj_on_of_nodup_map hnodup hc hd hvertex]
  · exact values.setRow_comm hvertex c.reply.row d.reply.row

/-- What setting vertices up amounts to. -/
theorem Traverses.values_set_up {ws₀ ws : Workspace α} (h : Traverses job .init s ws₀ vs ws)
    (hnodup : vs.Nodup) :
    ∃ cs : List (Call α), cs.map (·.vertex) = vs ∧
      (∀ c ∈ cs, ∃ flag, c.reply = job.program.init
        ⟨job.graph, job.config, 0, c.vertex, ws₀.values.row c.vertex, [], flag⟩) ∧
      ws.values = storeReplies ws₀.values cs ∧
      ws.journal.calls .init = ws₀.journal.calls .init ++ cs := by
  -- on the visits, each of which stores one row
  induction h with
  | start => exact ⟨[], rfl, List.forall_mem_nil _, rfl, (List.append_nil _).symm⟩
  | @visit vs ws v _ _ ih =>
    rw [List.nodup_append] at hnodup
    obtain ⟨hvs, -, hdisjoint⟩ := hnodup
    obtain ⟨cs, rfl, hreplies, hvalues, hcalls⟩ := ih hvs
    have hnone : ∀ c ∈ cs, c.vertex ≠ v := fun c hc =>
      hdisjoint _ (List.mem_map_of_mem hc) _ (List.mem_singleton_self _)
    let c : Call α := ⟨.init, 0, v, false, ws.halted.contains v, [],
      job.program.init (ws.view job 0 v [])⟩
    refine ⟨cs ++ [c], by rw [List.map_append]; rfl, fun c' hc' => ?_, ?_, ?_⟩
    · rcases List.mem_append.mp hc' with hold | hlast
      · exact hreplies c' hold
      · rw [List.mem_singleton.mp hlast, ← row_storeReplies hnone, ← hvalues]
        exact ⟨ws.flag, rfl⟩
    · rw [storeReplies, List.foldl_append]
      change ws.values.setRow v _ = (storeReplies ws₀.values cs).setRow v _
      rw [hvalues]
    · change Journal.calls (ws.journal.push (.call c)) .init = _
      rw [Journal.calls_push, hcalls, List.append_assoc]
      rfl
  | raise _ ih => exact ih hnodup
  | abort _ ih => exact ih hnodup
  | note _ r ok ih =>
    obtain ⟨cs, hvertices, hreplies, hvalues, hcalls⟩ := ih hnodup
    exact ⟨cs, hvertices, hreplies, hvalues, (calls_note _ r ok .init).trans hcalls⟩

/-- Both runs start superstep 0 in agreement. -/
theorem Traverses.agrees_set_up {ws₀ ws₀' ws ws' : Workspace α} (hjob : job.Alike job')
    (hagree : ws₀.Agrees ws₀') (hnodup : vs.Nodup) (hvs : vs.Perm vs')
    (h : Traverses job .init 0 ws₀ vs ws) (h' : Traverses job' .init 0 ws₀' vs' ws') :
    ws.Agrees ws' := by
  obtain ⟨hmessenger, hhalted, -⟩ := h.set_up
  obtain ⟨hmessenger', hhalted', -⟩ := h'.set_up
  obtain ⟨-, hfigures, hcalls⟩ := h.journal
  obtain ⟨-, hfigures', hcalls'⟩ := h'.journal
  obtain ⟨cs, hvertices, hreplies, hvalues, -⟩ := h.values_set_up hnodup
  obtain ⟨cs', hvertices', hreplies', hvalues', -⟩ := h'.values_set_up (hvs.nodup_iff.mp hnodup)
  have hrows : (cs.map fun c => (c.vertex, c.reply.row)).Perm
      (cs'.map fun c => (c.vertex, c.reply.row)) := by
    -- a vertex is set up with the same view in both runs, so its row is the same
    apply perm_map_of_key (·.vertex)
    · rw [hvertices, hvertices']
      exact hvs
    · intro c hc d hd hvertex
      obtain ⟨flag, hreply⟩ := hreplies c hc
      obtain ⟨flag', hreply'⟩ := hreplies' d hd
      have hsame : c.reply = d.reply := by
        rw [hreply, hreply', ← hjob.program]
        exact hjob.indifferent.init _ _ rfl rfl
          ⟨hjob.graph, rfl, hvertex, by rw [hagree.values, hvertex], .refl _⟩
      exact Prod.ext hvertex (congrArg Reply.row hsame)
  refine ⟨?_, ?_, ?_, ?_, ?_, ?_⟩
  · rw [hvalues, hvalues', ← hagree.values]
    exact storeReplies_congr (hvertices ▸ hnodup) hrows
  · rw [hhalted, hhalted', hagree.halted]
  · rw [hmessenger, hmessenger']
    exact hagree.inbox
  · rw [hmessenger, hmessenger']
    exact hagree.outbox
  · rw [hcalls .compute (by decide), hcalls' .compute (by decide)]
    exact hagree.calls
  · rw [hfigures, hfigures', hagree.figures]

/-! ## Inside a superstep -/

/-- The calls that a phase makes are the same in both runs. -/
theorem Bulk.gist_perm {ws₀ ws₀' ws ws' : Workspace α} (hjob : job.Alike job')
    (hvalues : ws₀.values = ws₀'.values) (hfrontier : ws₀.frontier = ws₀'.frontier)
    (hinbox : ∀ v, (ws₀.messenger.inbox v).Perm (ws₀'.messenger.inbox v))
    (hvs : vs.Perm vs') (h : Bulk job s ws₀ vs cs ws) (h' : Bulk job' s ws₀' vs' cs' ws') :
    (cs.map Call.gist).Perm (cs'.map Call.gist) := by
  apply perm_map_of_key (·.vertex)
  · rw [h.vertices, h'.vertices, hfrontier]
    exact hvs.filter _
  · intro c hc d hd hvertex
    obtain ⟨hs, hlate, hhalted, hhanded, flag, hreply⟩ := h.call c hc
    obtain ⟨hs', hlate', hhalted', hhanded', flag', hreply'⟩ := h'.call d hd
    have hphase : c.phase = .compute :=
      Journal.phase_of_mem_calls (h.calls ▸ List.mem_append_right _ hc)
    have hphase' : d.phase = .compute :=
      Journal.phase_of_mem_calls (h'.calls ▸ List.mem_append_right _ hd)
    -- both vertices read what the superstep before left for them
    have hsame : c.inbox.Perm d.inbox := by
      rw [hhanded, hhanded', hvertex]
      exact hinbox d.vertex
    have hreplies : c.reply = d.reply := by
      rw [hreply, hreply', ← hjob.program]
      exact hjob.indifferent.compute _ _ rfl rfl
        ⟨hjob.graph, rfl, hvertex, by rw [hvalues, hvertex], hsame⟩
    obtain ⟨phase, superstep, vertex, late, halted, inbox, reply⟩ := c
    obtain ⟨phase', superstep', vertex', late', halted', inbox', reply'⟩ := d
    simp only at hs hs' hlate hlate' hhalted hhalted' hphase hphase' hsame hreplies hvertex
    -- every field is the same now, but for the order of the inbox
    subst hs hlate hhalted hphase hreplies hvertex
    rw [hs', hlate', hhalted', hphase']
    exact Prod.ext rfl (Multiset.coe_eq_coe.mpr hsame)

/-- Both runs stand where they stood, as far as their phases are concerned. -/
theorem Bulk.agrees {ws₀ ws₀' ws ws' : Workspace α} (hjob : job.Alike job')
    (hagree : ws₀.Agrees ws₀') (hfrontier : ws₀.frontier = ws₀'.frontier)
    (hfigures : ws.journal.figures = ws'.journal.figures) (hnodup : vs.Nodup) (hvs : vs.Perm vs')
    (h : Bulk job s ws₀ vs cs ws) (h' : Bulk job' s ws₀' vs' cs' ws') :
    ws.Agrees ws' ∧ ws.stats = ws'.stats := by
  have hgist := h.gist_perm hjob hagree.values hfrontier hagree.inbox hvs h'
  have hvertices : (cs.map (·.vertex)).Nodup := h.vertices ▸ hnodup.filter _
  -- what a call does to the others does not depend on its inbox
  have hsent (v : Nat) : (cs.flatMap (·.sentTo job.graph.nodeCount v)).Perm
      (cs'.flatMap (·.sentTo job.graph.nodeCount v)) := by
    have hperm := hgist.flatMap_right fun g => g.1.sentTo job.graph.nodeCount v
    rwa [List.flatMap_map, List.flatMap_map] at hperm
  have hany (v : Nat) :
      (cs.any fun c => decide (v = c.vertex) && c.voted job.graph.nodeCount)
        = cs'.any fun c => decide (v = c.vertex) && c.voted job.graph.nodeCount := by
    have heq := hgist.any_eq (f := fun g => decide (v = g.1.vertex)
      && g.1.voted job.graph.nodeCount)
    rwa [List.any_map, List.any_map] at heq
  refine ⟨⟨?_, ?_, fun v => ?_, fun v => ?_, ?_, hfigures⟩, ?_⟩
  · rw [h.values, h'.values, ← hagree.values]
    have hrows := hgist.map fun g => (g.1.vertex, g.1.reply.row)
    rw [List.map_map, List.map_map] at hrows
    exact storeReplies_congr hvertices hrows
  · apply BitSet.ext_contains
    · rw [h.serves.fits.halted, h'.serves.fits.halted, hjob.graph]
    · intro v
      rw [h.halted, h'.halted, hagree.halted, hany, hjob.graph]
  · rw [h.inbox, h'.inbox]
    exact hagree.inbox v
  · rw [h.outbox, h'.outbox, ← hjob.program, ← hjob.graph]
    exact Messenger.collected_perm hjob.orderless (hsent v)
  · rw [h.calls, h'.calls, List.map_append, List.map_append]
    exact hagree.calls.append hgist
  · -- the counters are sums over the calls, whatever their order
    have hlength : cs.length = cs'.length := by
      have heq := hgist.length_eq
      rwa [List.length_map, List.length_map] at heq
    have hsum : (cs.map (·.sendCount job.graph.nodeCount)).sum
        = (cs'.map (·.sendCount job.graph.nodeCount)).sum := by
      have heq := (hgist.map fun g => g.1.sendCount job.graph.nodeCount).sum_nat
      rwa [List.map_map, List.map_map] at heq
    have hcount : cs.countP (·.voted job.graph.nodeCount)
        = cs'.countP (·.voted job.graph.nodeCount) := by
      have heq := hgist.countP_eq fun g => g.1.voted job.graph.nodeCount
      rwa [List.countP_map, List.countP_map] at heq
    rw [h.stats, h'.stats, ← hjob.graph, hlength, hsum, hcount]

/-- Messages wait in both runs, or in neither. -/
theorem Agrees.pending_eq {ws ws' : Workspace α} (h : ws.Agrees ws') (hserves : ws.Serves job)
    (hserves' : ws'.Serves job') : ws.messenger.pending = ws'.messenger.pending := by
  rw [Bool.eq_iff_iff, Messenger.pending_iff hserves.fits.messenger,
    Messenger.pending_iff hserves'.fits.messenger]
  refine exists_congr fun v => not_congr ⟨fun hnil => ?_, fun hnil => ?_⟩
  · exact List.nil_perm.mp (hnil ▸ h.outbox v)
  · exact List.perm_nil.mp (hnil ▸ h.outbox v)

/-- Both runs are quiet, or neither is. -/
theorem Agrees.isQuiet_eq {ws ws' : Workspace α} (h : ws.Agrees ws') (hserves : ws.Serves job)
    (hserves' : ws'.Serves job') : ws.isQuiet = ws'.isQuiet := by
  rw [isQuiet, isQuiet, h.halted, h.pending_eq hserves hserves']

/-- The workers of a superstep begin in agreement. -/
theorem Agrees.opened {ws ws' : Workspace α} (hjob : job.Alike job') (h : ws.Agrees ws')
    (hserves : ws.Serves job) (hserves' : ws'.Serves job') (hready : ws.messenger.ReadyFor s)
    (hready' : ws'.messenger.ReadyFor s) :
    (ws.opened s).Agrees (ws'.opened s) ∧ (ws.opened s).frontier = (ws'.opened s).frontier ∧
      Poised job s (ws.opened s) ∧ Poised job' s (ws'.opened s) := by
  obtain ⟨hpoised, hinbox, hhalted, hfrontier, hvalues⟩ := Poised.opened hserves hready
    (hserves.isDoubleBuffered.trans hjob.doubleBuffered)
  obtain ⟨hpoised', hinbox', hhalted', hfrontier', hvalues'⟩ := Poised.opened hserves' hready'
    (hserves'.isDoubleBuffered.trans (hjob.program ▸ hjob.doubleBuffered'))
  obtain ⟨hcalls, -, hfigures⟩ := journal_opened ws s
  obtain ⟨hcalls', -, hfigures'⟩ := journal_opened ws' s
  -- permuting an outbox does not empty it
  have hempty (v : Nat) : (ws.messenger.outbox v).isEmpty = (ws'.messenger.outbox v).isEmpty :=
    (h.outbox v).isEmpty_eq
  refine ⟨⟨?_, ?_, fun v => ?_, fun v => ?_, ?_, ?_⟩, ?_, hpoised, hpoised'⟩
  · rw [hvalues, hvalues', h.values]
  · apply BitSet.ext_contains
    · rw [hpoised.serves.fits.halted, hpoised'.serves.fits.halted, hjob.graph]
    · intro v
      rw [hhalted, hhalted', h.halted, hempty]
  · -- what waited becomes what is read
    rw [hinbox, hinbox']
    exact h.outbox v
  · rw [hpoised.outbox, hpoised'.outbox]
  · rw [hcalls, hcalls']
    exact h.calls
  · rw [hfigures, hfigures', h.figures]
  · apply BitSet.ext_contains
    · rw [hpoised.serves.fits.frontier, hpoised'.serves.fits.frontier, hjob.graph]
    · intro v
      by_cases hv : v < job.graph.nodeCount
      · rw [hfrontier v hv, hfrontier' v (hjob.graph ▸ hv), h.halted, hempty]
      · -- beyond the last vertex neither frontier has a bit
        rw [BitSet.contains_eq_false_of_le _ (by rw [hpoised.serves.fits.frontier]; omega),
          BitSet.contains_eq_false_of_le _
            (by rw [hpoised'.serves.fits.frontier, ← hjob.graph]; omega)]

/-- One superstep leads from agreement to agreement, and both runs go on or stop after it. -/
theorem SuperstepEnds.agrees {ws ws' next next' : Workspace α} {control control' : Control}
    (hjob : job.Alike job') (hagree : ws.Agrees ws') (hserves : ws.Serves job)
    (hserves' : ws'.Serves job') (hready : ws.messenger.ReadyFor s)
    (hready' : ws'.messenger.ReadyFor s) (h : SuperstepEnds job s ws (.ok control) next)
    (h' : SuperstepEnds job' s ws' (.ok control') next') :
    control = control' ∧ next.Agrees next' := by
  obtain ⟨hopened, hfrontier, hpoised, hpoised'⟩ :=
    hagree.opened hjob hserves hserves' hready hready'
  obtain ⟨vs, ws₁, htraverses, hperm, hfinishes⟩ := h.of_ok
  obtain ⟨vs', ws₁', htraverses', hperm', hfinishes'⟩ := h'.of_ok
  have hnodup : vs.Nodup := hperm.nodup_iff.mpr List.nodup_range
  have hnodup' : vs'.Nodup := hperm'.nodup_iff.mpr List.nodup_range
  -- both visited every vertex, each in its order
  have hvs : vs.Perm vs' := by
    rw [← hjob.graph] at hperm'
    exact hperm.trans hperm'.symm
  obtain ⟨cs, hbulk⟩ := hpoised.bulk htraverses hnodup
  obtain ⟨cs', hbulk'⟩ := hpoised'.bulk htraverses' hnodup'
  have hfigures : ws₁.journal.figures = ws₁'.journal.figures := by
    rw [htraverses.journal.2.1, htraverses'.journal.2.1, hopened.figures]
  obtain ⟨hbetween, hstats⟩ := hbulk.agrees hjob hopened hfrontier hfigures hnodup hvs hbulk'
  -- the program's step looks at the values only, which are the same
  have hmaster : job.program.master ⟨job.graph, job.config, s, ws₁.flag⟩ ws₁.values
      = job'.program.master ⟨job'.graph, job'.config, s, ws₁'.flag⟩ ws₁'.values := by
    rw [← hjob.program, ← hjob.graph, ← hbetween.values]
    exact hjob.indifferent.master _ _ _ _ _
  have houtcome := hfinishes.outcome
  rw [hmaster, hfinishes'.outcome] at houtcome
  refine ⟨(Except.ok.inj houtcome).symm, ⟨?_, ?_, fun v => ?_, fun v => ?_, ?_, ?_⟩⟩
  · rw [hfinishes.values, hfinishes'.values, hmaster]
  · rw [hfinishes.halted, hfinishes'.halted, hbetween.halted]
  · rw [hfinishes.messenger, hfinishes'.messenger]
    exact hbetween.inbox v
  · rw [hfinishes.messenger, hfinishes'.messenger]
    exact hbetween.outbox v
  · rw [hfinishes.calls, hfinishes'.calls]
    exact hbetween.calls
  · rw [hfinishes.figures, hfinishes'.figures, hfigures, hbulk.frontier, hbulk'.frontier,
      hfrontier, hstats, hbetween.halted, hbetween.pending_eq hbulk.serves hbulk'.serves]

end Workspace

end Superstep
