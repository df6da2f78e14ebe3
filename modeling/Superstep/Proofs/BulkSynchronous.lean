import Mathlib
import Superstep.Proofs.Run.Bulk

/-!
# Runs in supersteps

With the synchronous or the reducing messenger a run keeps the contract of bulk-synchronous
computation, stated here about the calls in its journal: which vertices a superstep calls, and what
each of them is handed.

## Key results

- `BspInv.step`: what a superstep does to the invariant, also when it is broken off
- `bulk_synchronous_contract`: the calls of every run keep the contract
-/

namespace Superstep

variable {α : Type}

/-! ## What the calls so far say -/

namespace Call

/-- The values that were sent to `v` in the superstep before `s`, in order. -/
def sentBefore (n s v : Nat) (calls : List (Call α)) : List α :=
  (calls.filter fun c => decide (c.superstep + 1 = s)).flatMap (·.sentTo n v)

/-- The last call of `v` before superstep `s`, if there was one. -/
def last? (s v : Nat) (calls : List (Call α)) : Option (Call α) :=
  (calls.filter fun c => decide (c.vertex = v ∧ c.superstep < s)).getLast?

/-- The vertices that superstep `s` has to call: all of them in superstep 0, later those whose last
call did not vote to halt and those to which something was sent in the superstep before. -/
def MustRun (n s v : Nat) (calls : List (Call α)) : Prop :=
  v < n ∧ (s = 0 ∨ (∃ c, last? s v calls = some c ∧ c.voted n = false)
    ∨ sentBefore n s v calls ≠ [])

variable {n s s' v : Nat} {calls cs : List (Call α)}

/-- Where no vertex is called twice, the calls of a vertex are the one that it makes. -/
theorem filter_eq_singleton (hnodup : (cs.map (·.vertex)).Nodup) {c : Call α} (hc : c ∈ cs) :
    cs.filter (fun d => decide (d.vertex = c.vertex)) = [c] := by
  induction cs with
  | nil => cases hc
  | cons d cs ih =>
    rw [List.map_cons, List.nodup_cons] at hnodup
    -- the call is the first one or a later one, and the others are of other vertices
    rcases List.mem_cons.mp hc with rfl | hmem
    · rw [List.filter_cons_of_pos (by simp), List.cons_inj_right, List.filter_eq_nil_iff]
      intro d hd
      have hne : d.vertex ≠ c.vertex := fun h => hnodup.1 (h ▸ List.mem_map_of_mem hd)
      simpa using hne
    · have hne : d.vertex ≠ c.vertex := fun h => hnodup.1 (h ▸ List.mem_map_of_mem hmem)
      rw [List.filter_cons_of_neg (by simpa using hne), ih hnodup.2 hmem]

/-- Where no vertex is called twice, the vote of a vertex is that of its call. -/
theorem any_voted_of_mem (hnodup : (cs.map (·.vertex)).Nodup) {c : Call α} (hc : c ∈ cs) :
    (cs.any fun d => decide (c.vertex = d.vertex) && d.voted n) = c.voted n := by
  have hvoted := congrArg (List.any · (·.voted n)) (filter_eq_singleton hnodup hc)
  simp only [List.any_filter, List.any_cons, List.any_nil, Bool.or_false] at hvoted
  rw [← hvoted]
  simp only [eq_comm]

/-- Later supersteps do not change what was sent before. -/
theorem sentBefore_append (hcs : ∀ c ∈ cs, c.superstep = s) (hs : s' ≤ s) :
    sentBefore n s' v (calls ++ cs) = sentBefore n s' v calls := by
  have hnone : cs.filter (fun c => decide (c.superstep + 1 = s')) = [] := by
    rw [List.filter_eq_nil_iff]
    intro c hc
    have hsuperstep := hcs c hc
    simp only [decide_eq_true_eq]
    omega
  rw [sentBefore, List.filter_append, hnone, List.append_nil]
  rfl

/-- What counts as sent before superstep `s + 1` is what the calls of superstep `s` sent. -/
theorem sentBefore_succ (hcalls : ∀ c ∈ calls, c.superstep < s)
    (hcs : ∀ c ∈ cs, c.superstep = s) :
    sentBefore n (s + 1) v (calls ++ cs) = cs.flatMap (·.sentTo n v) := by
  have hnone : calls.filter (fun c => decide (c.superstep + 1 = s + 1)) = [] := by
    rw [List.filter_eq_nil_iff]
    intro c hc
    have hsuperstep := hcalls c hc
    simp only [decide_eq_true_eq]
    omega
  have hall : cs.filter (fun c => decide (c.superstep + 1 = s + 1)) = cs := by
    rw [List.filter_eq_self]
    intro c hc
    simp [hcs c hc]
  rw [sentBefore, List.filter_append, hnone, hall, List.nil_append]

/-- Later supersteps do not change which call was the last one before. -/
theorem last?_append (hcs : ∀ c ∈ cs, c.superstep = s) (hs : s' ≤ s) :
    last? s' v (calls ++ cs) = last? s' v calls := by
  have hnone : cs.filter (fun c => decide (c.vertex = v ∧ c.superstep < s')) = [] := by
    rw [List.filter_eq_nil_iff]
    intro c hc
    have hsuperstep := hcs c hc
    simp only [decide_eq_true_eq]
    omega
  rw [last?, List.filter_append, hnone, List.append_nil]
  rfl

/-- Which vertices a superstep has to call does not depend on later calls. -/
theorem mustRun_append (hcs : ∀ c ∈ cs, c.superstep = s) (hs : s' ≤ s) :
    MustRun n s' v (calls ++ cs) ↔ MustRun n s' v calls := by
  rw [MustRun, MustRun, last?_append hcs hs, sentBefore_append hcs hs]

/-- A superstep calls a vertex at most once, so its last call is the one it made there, if any. -/
theorem last?_succ (hcalls : ∀ c ∈ calls, c.superstep < s) (hcs : ∀ c ∈ cs, c.superstep = s)
    (hnodup : (cs.map (·.vertex)).Nodup) :
    (∀ c ∈ cs, last? (s + 1) c.vertex (calls ++ cs) = some c) ∧
      ((∀ c ∈ cs, c.vertex ≠ v) → last? (s + 1) v (calls ++ cs) = last? s v calls) := by
  -- before superstep `s` nothing changes, at most one call comes with it
  have hold (w : Nat) : calls.filter (fun c => decide (c.vertex = w ∧ c.superstep < s + 1))
      = calls.filter (fun c => decide (c.vertex = w ∧ c.superstep < s)) := by
    apply List.filter_congr
    intro c hc
    have hsuperstep := hcalls c hc
    simp only [decide_eq_decide]
    omega
  constructor
  · intro c hc
    -- of the new calls one is of this vertex, and it is the last
    have hone : cs.filter (fun d => decide (d.vertex = c.vertex ∧ d.superstep < s + 1)) = [c] := by
      rw [← filter_eq_singleton hnodup hc]
      apply List.filter_congr
      intro d hd
      simp [hcs d hd]
    rw [last?, List.filter_append, hone, List.getLast?_append]
    rfl
  · intro hnone
    -- a vertex without a new call keeps the last one that it had
    have hnil : cs.filter (fun c => decide (c.vertex = v ∧ c.superstep < s + 1)) = [] := by
      rw [List.filter_eq_nil_iff]
      intro c hc
      simp [hnone c hc]
    rw [last?, List.filter_append, hnil, List.append_nil, hold]
    rfl

end Call

/-! ## The contract -/

/-- What the calls of a run have to be like, when the supersteps `computed` were computed without
failure. -/
structure BspContract (n : Nat) (r : Option (Reducer α)) (calls : List (Call α))
    (computed : List Nat) : Prop where
  /-- No superstep calls a vertex twice. -/
  once : (calls.map fun c => (c.superstep, c.vertex)).Nodup
  /-- A call finds the vote taken back, is never late, and is handed what the superstep before sent
  to the vertex: the messages themselves, or their combination. -/
  call : ∀ c ∈ calls, c.vertex < n ∧ c.halted = false ∧ c.late = false ∧
    c.inbox = Messenger.collected r (Call.sentBefore n c.superstep c.vertex calls)
  /-- A superstep calls the vertices that it has to call. -/
  active : ∀ s ∈ computed, ∀ v,
    (∃ c ∈ calls, c.superstep = s ∧ c.vertex = v) ↔ Call.MustRun n s v calls

/-- The workspace at the boundary before superstep `s`, in terms of the calls so far. -/
structure BspInv (job : Job α) (s : Nat) (ws : Workspace α) : Prop where
  serves : ws.Serves job
  ready : ws.messenger.ReadyFor s
  doubleBuffered : ws.messenger.isDoubleBuffered = true
  early : ∀ c ∈ ws.journal.calls .compute, c.superstep < s
  called : 0 < s → ∀ v, v < job.graph.nodeCount →
    ∃ c, Call.last? s v (ws.journal.calls .compute) = some c
  halted : ∀ v, v < job.graph.nodeCount → ws.halted.contains v
    = (Call.last? s v (ws.journal.calls .compute)).any (·.voted job.graph.nodeCount)
  outbox : ∀ v, ws.messenger.outbox v = Messenger.collected job.program.reducer
    (Call.sentBefore job.graph.nodeCount s v (ws.journal.calls .compute))
  computed : ws.journal.computed = List.range s
  contract : BspContract job.graph.nodeCount job.program.reducer (ws.journal.calls .compute)
    ws.journal.computed

namespace BspInv

variable {job : Job α} {s : Nat} {ws ws₁ : Workspace α} {vs : List Nat} {cs : List (Call α)}

/-- The visits of a superstep amount to the calls of its frontier. -/
theorem bulk (h : BspInv job s ws) (htraverses : Workspace.Traverses job .compute s (ws.opened s)
    vs ws₁) (hnodup : vs.Nodup) : ∃ cs, Workspace.Bulk job s (ws.opened s) vs cs ws₁ :=
  (Workspace.Poised.opened h.serves h.ready h.doubleBuffered).1.bulk htraverses hnodup

/-- A superstep keeps the contract, even if it is broken off. -/
theorem contract_of_bulk (h : BspInv job s ws) (hnodup : vs.Nodup)
    (hvs : ∀ v ∈ vs, v < job.graph.nodeCount)
    (hbulk : Workspace.Bulk job s (ws.opened s) vs cs ws₁) :
    BspContract job.graph.nodeCount job.program.reducer
      (ws.journal.calls .compute ++ cs) ws.journal.computed := by
  have hsuperstep : ∀ c ∈ cs, c.superstep = s := fun c hc => (hbulk.call c hc).1
  obtain ⟨-, hinbox, -⟩ := Workspace.Poised.opened h.serves h.ready h.doubleBuffered
  refine ⟨?_, ?_, ?_⟩
  · rw [List.map_append, List.nodup_append]
    refine ⟨h.contract.once, ?_, ?_⟩
    · -- in one superstep the vertices alone tell the calls apart
      apply List.Nodup.of_map Prod.snd
      rw [List.map_map]
      exact hbulk.vertices ▸ hnodup.filter _
    · intro x hx y hy hxy
      obtain ⟨c, hc, rfl⟩ := List.mem_map.mp hx
      obtain ⟨d, hd, rfl⟩ := List.mem_map.mp hy
      -- older calls are of an earlier superstep
      have hearly := h.early c hc
      rw [(Prod.mk.inj hxy).1, hsuperstep d hd] at hearly
      omega
  · intro c hc
    rcases List.mem_append.mp hc with hold | hnew
    · -- an old call was handed what it was handed before
      obtain ⟨hv, hhalted, hlate, hhanded⟩ := h.contract.call c hold
      refine ⟨hv, hhalted, hlate, ?_⟩
      rw [hhanded, Call.sentBefore_append hsuperstep (Nat.le_of_lt (h.early c hold))]
    · obtain ⟨hs, hlate, hhalted, hhanded, -⟩ := hbulk.call c hnew
      have hmem := List.mem_map_of_mem (f := (·.vertex)) hnew
      rw [hbulk.vertices] at hmem
      refine ⟨hvs _ (List.mem_filter.mp hmem).1, hhalted, hlate, ?_⟩
      -- what waited at the boundary is what the superstep before sent
      rw [hhanded, hinbox, h.outbox, hs, Call.sentBefore_append hsuperstep (Nat.le_refl s)]
  · intro s' hs' v
    rw [h.computed, List.mem_range] at hs'
    rw [Call.mustRun_append hsuperstep (Nat.le_of_lt hs'),
      ← h.contract.active s' (by rw [h.computed, List.mem_range]; exact hs') v]
    constructor
    · rintro ⟨c, hc, hcs, hcv⟩
      rcases List.mem_append.mp hc with hold | hnew
      · exact ⟨c, hold, hcs, hcv⟩
      · -- a new call is of no superstep that was computed before
        have hthis := hsuperstep c hnew
        omega
    · rintro ⟨c, hc, hcs, hcv⟩
      exact ⟨c, List.mem_append_left _ hc, hcs, hcv⟩

/-- The frontier that a superstep builds holds the vertices that it has to call. -/
theorem mem_frontier_iff (h : BspInv job s ws) (v : Nat) (hv : v < job.graph.nodeCount) :
    (ws.opened s).frontier.contains v = true ↔
      Call.MustRun job.graph.nodeCount s v (ws.journal.calls .compute) := by
  obtain ⟨-, -, -, hfrontier, -⟩ := Workspace.Poised.opened h.serves h.ready h.doubleBuffered
  have hsent := Messenger.collected_eq_nil_iff job.program.reducer
    (Call.sentBefore job.graph.nodeCount s v (ws.journal.calls .compute))
  rw [hfrontier v hv, h.halted v hv, h.outbox, Call.MustRun, Bool.or_eq_true, Bool.not_eq_true',
    ← Bool.not_eq_true, List.isEmpty_iff, hsent]
  -- without a call so far it is superstep 0, where everyone runs
  cases hlast : Call.last? s v (ws.journal.calls .compute) with
  | none =>
    have hfirst : s = 0 := by
      by_contra hne
      obtain ⟨c, hc⟩ := h.called (Nat.pos_of_ne_zero hne) v hv
      rw [hlast] at hc
      cases hc
    simp [hv, hfirst]
  | some c =>
    have hlater : s ≠ 0 := by
      rintro rfl
      have hmem := List.mem_of_getLast? hlast
      simp at hmem
    simp [hv, hlater, or_comm]

/-- A superstep that visited every vertex called those that it had to call. -/
theorem contract_of_all (h : BspInv job s ws) (hperm : vs.Perm (List.range job.graph.nodeCount))
    (hbulk : Workspace.Bulk job s (ws.opened s) vs cs ws₁) :
    BspContract job.graph.nodeCount job.program.reducer
      (ws.journal.calls .compute ++ cs) (ws.journal.computed ++ [s]) := by
  have hsuperstep : ∀ c ∈ cs, c.superstep = s := fun c hc => (hbulk.call c hc).1
  have hold := h.contract_of_bulk (hperm.nodup_iff.mpr List.nodup_range)
    (fun v hv => List.mem_range.mp (hperm.mem_iff.mp hv)) hbulk
  refine ⟨hold.once, hold.call, ?_⟩
  intro s' hs' v
  rcases List.mem_append.mp hs' with hbefore | hnow
  · exact hold.active s' hbefore v
  · rw [List.mem_singleton.mp hnow, Call.mustRun_append hsuperstep (Nat.le_refl s)]
    -- the calls of `s` are the ones just made
    have hcalled : (∃ c ∈ ws.journal.calls .compute ++ cs, c.superstep = s ∧ c.vertex = v)
        ↔ v ∈ cs.map (·.vertex) := by
      constructor
      · rintro ⟨c, hc, hs, rfl⟩
        rcases List.mem_append.mp hc with hearlier | hnew
        · have hlt := h.early c hearlier
          omega
        · exact List.mem_map_of_mem hnew
      · intro hmem
        obtain ⟨c, hc, rfl⟩ := List.mem_map.mp hmem
        exact ⟨c, List.mem_append_right _ hc, hsuperstep c hc, rfl⟩
    rw [hcalled, hbulk.vertices, List.mem_filter, hperm.mem_iff, List.mem_range]
    constructor
    · rintro ⟨hv, hawake⟩
      exact (h.mem_frontier_iff v hv).mp hawake
    · intro hmust
      exact ⟨hmust.1, (h.mem_frontier_iff v hmust.1).mpr hmust⟩

/-- In a superstep that visited every vertex, a vertex was awake and made its call, or it slept. -/
theorem called_or_asleep (hperm : vs.Perm (List.range job.graph.nodeCount))
    (hbulk : Workspace.Bulk job s (ws.opened s) vs cs ws₁) {v : Nat}
    (hv : v < job.graph.nodeCount) :
    (∃ c ∈ cs, c.vertex = v ∧ (ws.opened s).frontier.contains c.vertex = true) ∨
      (ws.opened s).frontier.contains v = false ∧ ∀ c ∈ cs, c.vertex ≠ v := by
  cases hawake : (ws.opened s).frontier.contains v with
  | true =>
    have hmem : v ∈ cs.map (·.vertex) := by
      rw [hbulk.vertices, List.mem_filter, hperm.mem_iff, List.mem_range]
      exact ⟨hv, hawake⟩
    obtain ⟨c, hc, rfl⟩ := List.mem_map.mp hmem
    exact .inl ⟨c, hc, rfl, hawake⟩
  | false =>
    refine .inr ⟨rfl, fun c hc hvertex => ?_⟩
    have hmem := List.mem_map_of_mem (f := (·.vertex)) hc
    rw [hbulk.vertices, List.mem_filter, hvertex, hawake] at hmem
    cases hmem.2

/-- Every vertex has made a call before the next superstep. -/
theorem called_succ (h : BspInv job s ws) (hperm : vs.Perm (List.range job.graph.nodeCount))
    (hbulk : Workspace.Bulk job s (ws.opened s) vs cs ws₁) {v : Nat}
    (hv : v < job.graph.nodeCount) :
    ∃ c, Call.last? (s + 1) v (ws.journal.calls .compute ++ cs) = some c := by
  have hsuperstep : ∀ c ∈ cs, c.superstep = s := fun c hc => (hbulk.call c hc).1
  have hvertices : (cs.map (·.vertex)).Nodup :=
    hbulk.vertices ▸ (hperm.nodup_iff.mpr List.nodup_range).filter _
  have hlast := Call.last?_succ (v := v) h.early hsuperstep hvertices
  rcases called_or_asleep hperm hbulk hv with ⟨c, hc, rfl, -⟩ | ⟨hasleep, hnone⟩
  · exact ⟨c, hlast.1 c hc⟩
  · rw [hlast.2 hnone]
    apply h.called _ v hv
    -- in superstep 0 nobody sleeps
    by_contra hzero
    have hmust : Call.MustRun job.graph.nodeCount s v (ws.journal.calls .compute) :=
      ⟨hv, .inl (by omega)⟩
    rw [← h.mem_frontier_iff v hv, hasleep] at hmust
    cases hmust

/-- The votes after a superstep are those of the last calls. -/
theorem halted_succ (h : BspInv job s ws) (hperm : vs.Perm (List.range job.graph.nodeCount))
    (hbulk : Workspace.Bulk job s (ws.opened s) vs cs ws₁) {v : Nat}
    (hv : v < job.graph.nodeCount) :
    ws₁.halted.contains v = (Call.last? (s + 1) v (ws.journal.calls .compute ++ cs)).any
      (·.voted job.graph.nodeCount) := by
  obtain ⟨hpoised, -, hhalted, hfrontier, -⟩ :=
    Workspace.Poised.opened h.serves h.ready h.doubleBuffered
  have hsuperstep : ∀ c ∈ cs, c.superstep = s := fun c hc => (hbulk.call c hc).1
  have hvertices : (cs.map (·.vertex)).Nodup :=
    hbulk.vertices ▸ (hperm.nodup_iff.mpr List.nodup_range).filter _
  have hlast := Call.last?_succ (v := v) h.early hsuperstep hvertices
  rw [hbulk.halted]
  rcases called_or_asleep hperm hbulk hv with ⟨c, hc, rfl, hawake⟩ | ⟨hasleep, hnone⟩
  · -- the vote is that of the call just made
    rw [hpoised.awake _ hawake, Bool.false_or, Call.any_voted_of_mem hvertices hc, hlast.1 c hc,
      Option.any_some]
  · -- who slept keeps its vote
    rw [hfrontier v hv, Bool.or_eq_false_iff, Bool.not_eq_false', Bool.not_eq_false'] at hasleep
    rw [Call.any_voted_of_ne hnone, hlast.2 hnone, ← h.halted v hv, hhalted, hasleep.1, hasleep.2]
    rfl

/-- One superstep leads from the invariant to the invariant. -/
theorem step {ws' : Workspace α} {control : Control} (h : BspInv job s ws)
    (hends : Workspace.SuperstepEnds job s ws (.ok control) ws') : BspInv job (s + 1) ws' := by
  obtain ⟨hserves, hfaces⟩ := hends.serves h.serves
  obtain ⟨vs, ws₁, htraverses, hperm, hfinishes⟩ := hends.of_ok
  obtain ⟨cs, hbulk⟩ := h.bulk htraverses (hperm.nodup_iff.mpr List.nodup_range)
  have hcalls : ws'.journal.calls .compute = ws.journal.calls .compute ++ cs := by
    rw [hfinishes.calls, hbulk.calls, (Workspace.journal_opened ws s).1]
  have hcomputed : ws'.journal.computed = ws.journal.computed ++ [s] := by
    rw [hfinishes.computed, htraverses.journal.1, (Workspace.journal_opened ws s).2.1]
  have hsuperstep : ∀ c ∈ cs, c.superstep = s := fun c hc => (hbulk.call c hc).1
  refine {
    serves := hserves
    ready := .of_faces hfaces
    doubleBuffered := ?_
    early := ?_
    called := ?_
    halted := ?_
    outbox := ?_
    computed := ?_
    contract := ?_ }
  · rw [hserves.isDoubleBuffered, ← h.serves.isDoubleBuffered, h.doubleBuffered]
  · intro c hc
    rw [hcalls] at hc
    rcases List.mem_append.mp hc with hold | hnew
    · exact Nat.lt_succ_of_lt (h.early c hold)
    · rw [hsuperstep c hnew]
      exact Nat.lt_succ_self s
  · intro _ v hv
    rw [hcalls]
    exact h.called_succ hperm hbulk hv
  · intro v hv
    rw [hfinishes.halted, hcalls]
    exact h.halted_succ hperm hbulk hv
  · intro v
    rw [hfinishes.messenger, hbulk.outbox, hcalls, Call.sentBefore_succ h.early hsuperstep]
  · rw [hcomputed, h.computed, List.range_succ]
  · rw [hcalls, hcomputed]
    exact h.contract_of_all hperm hbulk

/-- The invariant holds when the vertices are set up. -/
theorem of_set_up {ws₀ : Workspace α} {vs : List Nat} (hserves : ws₀.Serves job)
    (hready : ws₀.messenger.ReadyFor 0) (hdouble : ws₀.messenger.isDoubleBuffered = true)
    (hfresh : ∀ v, ws₀.halted.contains v = false ∧ ws₀.messenger.outbox v = [])
    (hjournal : ws₀.journal.calls .compute = [] ∧ ws₀.journal.computed = [])
    (h : Workspace.Traverses job .init 0 ws₀ vs ws) : BspInv job 0 ws := by
  obtain ⟨hmessenger, hhalted, hfrontier⟩ := h.set_up
  obtain ⟨hcomputed, -, hcalls⟩ := h.journal
  -- setting up makes no call that computes and computes no superstep
  have hnone : ws.journal.calls .compute = [] := (hcalls .compute (by decide)).trans hjournal.1
  have hzero : ws.journal.computed = [] := hcomputed.trans hjournal.2
  exact {
    serves := hserves.congr hhalted hfrontier hmessenger
    ready := hmessenger ▸ hready
    doubleBuffered := hmessenger ▸ hdouble
    early := fun c hc => by rw [hnone] at hc; cases hc
    called := fun hpos => absurd hpos (Nat.lt_irrefl 0)
    halted := fun v _ => by
      rw [hhalted, (hfresh v).1, hnone]
      rfl
    outbox := fun v => by
      rw [hmessenger, (hfresh v).2, hnone]
      exact (Messenger.collected_nil _).symm
    computed := hzero
    contract := {
      once := by rw [hnone]; exact List.nodup_nil
      call := fun c hc => by rw [hnone] at hc; cases hc
      active := fun s hs => by rw [hzero] at hs; cases hs } }

/-- However a superstep ends, the calls so far keep the contract. -/
theorem contract_of_ends {ws' : Workspace α} {out : Except Stop Control} (h : BspInv job s ws)
    (hends : Workspace.SuperstepEnds job s ws out ws') :
    BspContract job.graph.nodeCount job.program.reducer (ws'.journal.calls .compute)
      ws'.journal.computed := by
  obtain ⟨vs, ws₁, htraverses, hnodup, hcalls, hcomputed⟩ := hends.journal
  obtain ⟨cs, hbulk⟩ := h.bulk htraverses hnodup
  rw [hcalls, hbulk.calls, (Workspace.journal_opened ws s).1]
  rcases hcomputed with hsame | ⟨hperm, hmore⟩
  · rw [hsame]
    exact h.contract_of_bulk hnodup htraverses.lt_nodeCount hbulk
  · rw [hmore]
    exact h.contract_of_all hperm hbulk

end BspInv

/-! ## Whole runs -/

/-- The invariant holds at every boundary of a run. -/
theorem Workspace.StandsAt.bspInv {job : Job α} {schedule : Schedule} {s : Nat}
    {ws₀ ws : Workspace α} (h : StandsAt job schedule ws₀ s ws)
    (hfirst : ∀ vs ws, Traverses job .init 0 { ws₀ with aborted := false, stats := .zero } vs ws →
      BspInv job 0 ws) : BspInv job s ws := by
  refine h.invariant (fun vs ws _ htraverses => hfirst vs ws htraverses) ?_
  intro s ws ws' hinv hends
  exact hinv.step hends

/-- However the supersteps of a run end, the calls so far keep the contract. -/
theorem Workspace.RunEnds.bspContract {job : Job α} {schedule : Schedule} {ws₀ ws : Workspace α}
    {out : Except Stop Ending} (h : RunEnds job schedule ws₀ out ws)
    (hnone : ws₀.journal.calls .compute = [] ∧ ws₀.journal.computed = [])
    (hfirst : ∀ vs ws, Traverses job .init 0 { ws₀ with aborted := false, stats := .zero } vs ws →
      BspInv job 0 ws) :
    BspContract job.graph.nodeCount job.program.reducer (ws.journal.calls .compute)
      ws.journal.computed := by
  obtain ⟨last, hcalls, hcomputed, -, hlast⟩ := h.journal_cases
  rw [hcalls, hcomputed]
  -- before set-up, after it, at a boundary, or after a superstep of any outcome
  rcases hlast with rfl | ⟨vs, htraverses⟩ | ⟨s, hstands⟩ | ⟨s, before, stepOut, hstands, hends⟩
  · rw [hnone.1, hnone.2]
    exact ⟨List.nodup_nil, List.forall_mem_nil _, List.forall_mem_nil _⟩
  · exact (hfirst vs last htraverses).contract
  · exact (hstands.bspInv hfirst).contract
  · exact (hstands.bspInv hfirst).contract_of_ends hends

/-- In every run with the synchronous or the reducing messenger, whatever the schedule, no superstep
calls a vertex twice; every call is made with the vote taken back, in time, and with exactly what
the superstep before sent to the vertex; and a superstep that was computed without failure, as every
superstep that ended without failure was, called exactly the vertices that it had to call. -/
theorem bulk_synchronous_contract [Scalar α] {graph : Graph α} {config : Config}
    {program : Program α} {flag : Flag} {r : Run α}
    (hcreate : Run.create graph config program flag = .ok r)
    (hkind : program.reducer.isSome = true ∨ config.isAsynchronous = false)
    (schedule : Schedule) :
    (∀ stats ∈ (r.execute schedule).2.journal.figures,
      stats.superstep ∈ (r.execute schedule).2.journal.computed) ∧
    BspContract graph.nodeCount program.reducer ((r.execute schedule).2.journal.calls .compute)
      (r.execute schedule).2.journal.computed := by
  refine ⟨fun stats => Run.superstep_mem_computed hcreate schedule, ?_⟩
  -- without a schema the run makes no call at all
  cases hschema : program.schema config with
  | error v =>
    obtain ⟨-, hcalls, hcomputed, -⟩ := Run.execute_of_schema_error hcreate hschema schedule
    rw [hcalls, hcomputed]
    exact ⟨List.nodup_nil, List.forall_mem_nil _, List.forall_mem_nil _⟩
  | ok schema =>
    obtain ⟨-, -, hcalls, hcomputed, -⟩ := Run.execute_of_schema hcreate hschema schedule
    obtain ⟨hnone, hzero, -⟩ := Run.journal_opening hcreate schema
    obtain ⟨hserves, hready⟩ := r.serves_opening schema
    obtain ⟨hgraph, hprogram, hconfig⟩ := Run.job_of_create hcreate
    rw [hcalls, hcomputed, ← hgraph, ← hprogram]
    have hdouble : (r.opening schema).messenger.isDoubleBuffered = true := by
      rw [hserves.isDoubleBuffered, hprogram, hconfig]
      simpa using hkind
    refine (Workspace.runEnds_iterate r.job schedule (r.opening schema)).bspContract
      ⟨hnone .compute, hzero⟩ fun vs ws htraverses => ?_
    exact .of_set_up (hserves.congr rfl rfl rfl) hready hdouble
      (fun v => ⟨BitSet.contains_empty _ v, Messenger.outbox_create _ _ _ v⟩)
      ⟨hnone .compute, hzero⟩ htraverses

/-- In superstep 0 both vertices are called, in superstep 1 the one that received a message. -/
theorem bulk_synchronous_contract_relay :
    let last := ((Relay.run none false false).execute Relay.takingTurns).2
    last.journal.computed = [0, 1] ∧
      (last.journal.calls .compute).map (fun c => (c.superstep, c.vertex))
        = [(0, 0), (0, 1), (1, 1)] ∧
      BspContract 2 none (last.journal.calls .compute) last.journal.computed := by
  refine ⟨by decide +kernel, by decide +kernel, ?_⟩
  exact (bulk_synchronous_contract (Relay.create_run none false false) (.inr rfl)
    Relay.takingTurns).2

end Superstep
