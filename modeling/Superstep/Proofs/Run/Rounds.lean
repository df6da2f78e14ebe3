import Mathlib
import Superstep.Proofs.Convergence
import Superstep.Proofs.Hook
import Superstep.Proofs.Run.Agreement
import Superstep.Proofs.Run.Success

/-!
# Programs that work in rounds

In many vertex programs a vertex holds one value. When it is called it takes over a new value, sends
messages, and votes to halt, so that only messages call it again. `Reaction` is such a program,
without any of the machinery that runs it, and `Reaction.Reached` are the states that it comes to:
in superstep 0 every vertex reacts, later those to which something was sent. Whatever the schedule
and the computer, every boundary of a run of such a program shows a reached state, and every call is
the reaction of its vertex.

## Key results

- `Reaction.Shows.step`: one superstep of a run is one round
- `Reaction.Runs.computes`: what a superstep leaves, and when the run is quiet after it
- `Reaction.Runs.of_result`: what the result of a run shows
- `Reaction.Runs.converges`: a run is over as soon as no message is on its way
- `Reaction.Runs.isTurn_of_mem_calls`: the calls of a run are reactions
-/

namespace Superstep

/-- A program in which a vertex holds one value and always votes to halt. -/
structure Reaction (α β : Type) where
  /-- The slot of the value. -/
  slot : Element α
  reducer : Reducer α
  /-- The cell that a value is stored in. -/
  cell : β → Cell α
  /-- The value that a vertex is set up with. -/
  first : Nat → β
  /-- What a vertex makes in a superstep of its value and its inbox: its new value, and the messages
  that it sends, with their targets. -/
  react : (superstep vertex : Nat) → β → List α → β × List (Nat × α)

namespace Reaction

variable {α β : Type}

/-! ## Rounds -/

/-- The vertices between two supersteps. -/
structure State (α β : Type) where
  value : Nat → β
  /-- What was sent to each vertex in the superstep before. -/
  mail : Nat → List α

/-- The messages among several that go to a vertex. -/
def mailFor (w : Nat) (messages : List (Nat × α)) : List α :=
  messages.filterMap fun m => if m.1 = w then some m.2 else none

/-- What becomes of a vertex in superstep `s`. It is passed over if nothing was sent to it, except
in superstep 0. -/
def turn (R : Reaction α β) (s v : Nat) (st : State α β) : β × List (Nat × α) :=
  if s ≠ 0 ∧ st.mail v = [] then (st.value v, [])
  else R.react s v (st.value v) (Messenger.collected (some R.reducer) (st.mail v))

/-- Superstep `s` over `n` vertices. Messages arrive in any order of the vertices that send them. -/
structure Round (R : Reaction α β) (n s : Nat) (st st' : State α β) : Prop where
  value : ∀ v, v < n → st'.value v = (R.turn s v st).1
  mail : ∃ vs : List Nat, vs.Perm (List.range n) ∧
    ∀ w, st'.mail w = vs.flatMap fun v => mailFor w (R.turn s v st).2

/-- The states that the vertices come to after the first `s` supersteps. -/
inductive Reached (R : Reaction α β) (n : Nat) : Nat → State α β → Prop
  | first : Reached R n 0 ⟨R.first, fun _ => []⟩
  | next {s st st'} (h : Reached R n s st) (hround : R.Round n s st st') : Reached R n (s + 1) st'

/-! ## Programs -/

/-- The row of a vertex that holds a value. -/
def row (R : Reaction α β) (b : β) : Row α := ⟨⟨[R.slot]⟩, #[R.cell b]⟩

/-- The reply of a call with this outcome. -/
def answer (R : Reaction α β) (x : β × List (Nat × α)) : Reply α :=
  ⟨R.row x.1, x.2.map (fun m => .send m.1 m.2) ++ [.voteToHalt], .ok ()⟩

/-- The program of the job is the reaction. -/
structure Runs [Scalar α] (R : Reaction α β) (job : Job α) : Prop where
  schema : job.program.schema job.config = .ok ⟨[R.slot]⟩
  reducer : job.program.reducer = some R.reducer
  master : job.program.master = Program.proceed
  typed : ∀ b, (R.cell b).valueType = R.slot.valueType
  init : ∀ v, v < job.graph.nodeCount → ∀ flag, job.program.init ⟨job.graph, job.config, 0, v,
    ⟨⟨[R.slot]⟩, #[R.slot.initialCell]⟩, [], flag⟩ = ⟨R.row (R.first v), [], .ok ()⟩
  compute : ∀ s v, v < job.graph.nodeCount → ∀ b inbox flag, job.program.compute
    ⟨job.graph, job.config, s, v, R.row b, inbox, flag⟩ = R.answer (R.react s v b inbox)
  /-- Messages go to vertices that exist. -/
  inside : ∀ s v, v < job.graph.nodeCount → ∀ b inbox, ∀ m ∈ (R.react s v b inbox).2,
    m.1 < job.graph.nodeCount

variable {R : Reaction α β} {n s : Nat} {st : State α β}

/-! ## Calls that are reactions -/

/-- All effects of a reaction are carried out if its messages go to vertices that exist. -/
theorem all_isPossible_answer {x : β × List (Nat × α)} (h : ∀ m ∈ x.2, m.1 < n) :
    ∀ e ∈ (R.answer x).effects, e.isPossible n = true := by
  intro e he
  rcases List.mem_append.mp he with hsend | hvote
  · obtain ⟨m, hm, rfl⟩ := List.mem_map.mp hsend
    exact decide_eq_true (h m hm)
  · -- a vote is always possible
    rw [List.mem_singleton.mp hvote]
    rfl

/-- A hook that leaves a value, sends messages and votes to halt replies like the reaction. -/
theorem reply_of_ok {hook : HookM .compute α Unit} {view : VertexView α} {y : β}
    {messages : List (Nat × α)} (h : hook view ⟨view.row, []⟩ = .ok ()
      ⟨R.row y, .voteToHalt :: (messages.map fun m => .send m.1 m.2).reverse⟩) :
    hook.reply view = R.answer (y, messages) := by
  rw [HookM.reply_of_ok h, answer, List.reverse_cons, List.reverse_reverse]

/-- So does one that does so only on a condition, and otherwise just votes. -/
theorem reply_of_ok_ite {hook : HookM .compute α Unit} {view : VertexView α} {c : Prop}
    [Decidable c] {x y : β} {messages : List (Nat × α)}
    (h : hook view ⟨view.row, []⟩ = if c then .ok ()
        ⟨R.row y, .voteToHalt :: (messages.map fun m => .send m.1 m.2).reverse⟩
      else .ok () ⟨R.row x, [.voteToHalt]⟩) :
    hook.reply view = R.answer (if c then (y, messages) else (x, [])) := by
  -- with the condition it is the case above, and without it no message is sent
  split
  · rename_i hc
    rw [if_pos hc] at h
    exact reply_of_ok h
  · rename_i hc
    rw [if_neg hc] at h
    exact reply_of_ok h

section Call

variable {c : Call α} {x : β × List (Nat × α)}

/-- A reaction carries all its effects out. -/
theorem performed_of_answer (hc : c.reply = R.answer x) (h : ∀ m ∈ x.2, m.1 < n) :
    c.performed n = x.2.map (fun m => .send m.1 m.2) ++ [.voteToHalt] := by
  rw [Call.performed, hc]
  exact List.takeWhile_eq_self_iff.mpr (all_isPossible_answer h)

/-- A reaction does all it set out to do. -/
theorem succeeded_of_answer (hc : c.reply = R.answer x) (h : ∀ m ∈ x.2, m.1 < n) :
    c.succeeded n = true := by
  rw [Call.succeeded, hc, Bool.and_eq_true, List.all_eq_true]
  exact ⟨all_isPossible_answer h, rfl⟩

/-- A reaction votes to halt. -/
theorem voted_of_answer (hc : c.reply = R.answer x) (h : ∀ m ∈ x.2, m.1 < n) :
    c.voted n = true := by
  rw [Call.voted, performed_of_answer hc h, List.any_append]
  exact Bool.or_true _

/-- A reaction sends a vertex those of its messages that go there. -/
theorem sentTo_of_answer (hc : c.reply = R.answer x) (h : ∀ m ∈ x.2, m.1 < n) (w : Nat) :
    c.sentTo n w = mailFor w x.2 := by
  rw [Call.sentTo, performed_of_answer hc h, Effect.valuesFor_append]
  change Effect.valuesFor w (x.2.map _) ++ [] = _
  rw [List.append_nil, Effect.valuesFor, List.filterMap_map]
  rfl

end Call

/-! ## The calls of a superstep -/

section Calls

open Workspace

variable {v : Nat} {vs : List Nat} {cs : List (Call α)}

/-- A vertex that is passed over keeps its value and sends nothing. -/
theorem turn_of_passed_over (h : ¬(s = 0 ∨ st.mail v ≠ [])) : R.turn s v st = (st.value v, []) := by
  rw [turn, if_pos]
  simpa [not_or] using h

/-- The calls of superstep `s` over these vertices: one for each vertex that is not passed over,
and its turn is what it replies. -/
structure Calls (R : Reaction α β) (n s : Nat) (st : State α β) (vs : List Nat)
    (cs : List (Call α)) : Prop where
  vertices : cs.map (·.vertex) = vs.filter fun v => decide (s = 0 ∨ st.mail v ≠ [])
  lt : ∀ c ∈ cs, c.vertex < n
  reply : ∀ c ∈ cs, c.reply = R.answer (R.turn s c.vertex st)
  inside : ∀ c ∈ cs, ∀ m ∈ (R.turn s c.vertex st).2, m.1 < n

namespace Calls

variable (h : R.Calls n s st vs cs)
include h

/-- A vertex that has its turn makes a call. -/
theorem exists_mem (hv : v ∈ vs) (hcalled : s = 0 ∨ st.mail v ≠ []) : ∃ c ∈ cs, c.vertex = v := by
  -- the called vertices are those of the list that have their turn
  have hmem : v ∈ cs.map (·.vertex) := by
    rw [h.vertices, List.mem_filter]
    exact ⟨hv, decide_eq_true hcalled⟩
  obtain ⟨c, hc, rfl⟩ := List.mem_map.mp hmem
  exact ⟨c, hc, rfl⟩

/-- A vertex that is passed over makes none. -/
theorem vertex_ne (hpassed : ¬(s = 0 ∨ st.mail v ≠ [])) : ∀ c ∈ cs, c.vertex ≠ v := by
  intro c hc hvertex
  have hmem := List.mem_map_of_mem (f := (·.vertex)) hc
  rw [h.vertices, List.mem_filter, hvertex, decide_eq_true_eq] at hmem
  exact hpassed hmem.2

/-- Every call sends what the turn of its vertex says, and vertices without a call send nothing. -/
theorem flatMap_sentTo (w : Nat) :
    cs.flatMap (·.sentTo n w) = vs.flatMap fun v => mailFor w (R.turn s v st).2 := by
  -- a vertex that is passed over sends nothing
  have hpassed (v : Nat) (hturn : ¬(s = 0 ∨ st.mail v ≠ [])) :
      mailFor w (R.turn s v st).2 = [] := by
    rw [turn_of_passed_over hturn]
    rfl
  calc cs.flatMap (·.sentTo n w)
      = cs.flatMap fun c => mailFor w (R.turn s c.vertex st).2 :=
        List.flatMap_congr fun c hc => sentTo_of_answer (h.reply c hc) (h.inside c hc) w
    _ = (vs.filter fun v => decide (s = 0 ∨ st.mail v ≠ [])).flatMap
          fun v => mailFor w (R.turn s v st).2 := by rw [← h.vertices, List.flatMap_map]
    _ = vs.flatMap fun v => mailFor w (R.turn s v st).2 := by
        clear h
        -- vertices that are passed over may be left out, since they send nothing
        induction vs with
        | nil => rfl
        | cons v vs ih =>
          rw [List.flatMap_cons, ← ih, List.filter_cons]
          split
          · rfl
          · rename_i hturn
            rw [hpassed v (by simpa using hturn)]
            rfl

/-- Every vertex that is called votes to halt, and no other vertex votes. -/
theorem any_voted (hv : v ∈ vs) : (cs.any fun c => decide (v = c.vertex) && c.voted n)
    = decide (s = 0 ∨ st.mail v ≠ []) := by
  -- a vertex with a turn makes a call, which votes; one without makes none
  by_cases hturn : s = 0 ∨ st.mail v ≠ []
  · obtain ⟨c, hc, rfl⟩ := h.exists_mem hv hturn
    rw [decide_eq_true hturn, List.any_eq_true]
    exact ⟨c, hc, by simp [voted_of_answer (h.reply c hc) (h.inside c hc)]⟩
  · rw [decide_eq_false hturn]
    exact Call.any_voted_of_ne (h.vertex_ne hturn)

/-- Storing what the calls reply leaves each vertex with the value of its turn. -/
theorem row_eq {values : NodeValues α} (hnodup : vs.Nodup)
    (htyped : ∀ b, (R.cell b).valueType = R.slot.valueType)
    (hschema : values.schema = ⟨[R.slot]⟩) (hcount : values.nodeCount = n)
    (hrow : values.row v = R.row (st.value v)) (hv : v ∈ vs) :
    (storeReplies values cs).row v = R.row (R.turn s v st).1 := by
  -- stored by the one call of the vertex, or left as it was
  by_cases hturn : s = 0 ∨ st.mail v ≠ []
  · obtain ⟨c, hc, rfl⟩ := h.exists_mem hv hturn
    have honce : (cs.map (·.vertex)).Nodup := h.vertices ▸ hnodup.filter _
    rw [row_storeReplies_of_mem (fun d hd => ?_) honce hc, h.reply c hc]
    · rfl
    · rw [hcount, hschema, h.reply d hd]
      exact ⟨h.lt d hd, rfl, congrArg (fun t => [t]) (htyped _)⟩
  · rw [row_storeReplies (h.vertex_ne hturn), hrow, turn_of_passed_over hturn]

end Calls

end Calls

section Run

open Workspace

variable [Scalar α] {job : Job α} {schedule : Schedule} {ws ws' ws₀ : Workspace α} {vs : List Nat}

/-! ## Boundaries -/

/-- The workspace at the boundary before superstep `s` shows the state. -/
structure Shows (R : Reaction α β) (job : Job α) (s : Nat) (st : State α β) (ws : Workspace α) :
    Prop where
  serves : ws.Serves job
  ready : ws.messenger.ReadyFor s
  schema : ws.values.schema = ⟨[R.slot]⟩
  nodeCount : ws.values.nodeCount = job.graph.nodeCount
  rows : ∀ v, v < job.graph.nodeCount → ws.values.row v = R.row (st.value v)
  waiting : ∀ v, ws.messenger.outbox v = Messenger.collected (some R.reducer) (st.mail v)
  votes : ∀ v, v < job.graph.nodeCount → ws.halted.contains v = decide (s ≠ 0)

/-- The messages of a turn go to vertices that exist. -/
theorem Runs.inside_turn (hR : R.Runs job) (s : Nat) {v : Nat} (hv : v < job.graph.nodeCount)
    (st : State α β) : ∀ m ∈ (R.turn s v st).2, m.1 < job.graph.nodeCount := by
  rw [turn]
  split
  · exact List.forall_mem_nil _
  · exact hR.inside s v hv _ _

/-- A program with a reducer runs on two buffers. -/
theorem Shows.isDoubleBuffered (hR : R.Runs job) (h : R.Shows job s st ws) :
    ws.messenger.isDoubleBuffered = true := by
  rw [h.serves.isDoubleBuffered, hR.reducer]
  rfl

/-- The calls of a phase are the turns of the vertices that are not passed over. -/
theorem Shows.calls (hR : R.Runs job) (h : R.Shows job s st ws)
    (htraverses : Traverses job .compute s (ws.opened s) vs ws') (hnodup : vs.Nodup) :
    ∃ cs, Bulk job s (ws.opened s) vs cs ws' ∧ R.Calls job.graph.nodeCount s st vs cs := by
  obtain ⟨hpoised, hinbox, -, hfrontier, hvalues⟩ :=
    Poised.opened h.serves h.ready (h.isDoubleBuffered hR)
  obtain ⟨cs, hbulk⟩ := hpoised.bulk htraverses hnodup
  -- who is awake is who has its turn
  have hawake (v : Nat) (hv : v < job.graph.nodeCount) :
      (ws.opened s).frontier.contains v = decide (s = 0 ∨ st.mail v ≠ []) := by
    rw [hfrontier v hv, h.votes v hv, h.waiting, Bool.eq_iff_iff, Bool.or_eq_true,
      Bool.not_eq_true', ← Bool.not_eq_true, List.isEmpty_iff, Messenger.collected_eq_nil_iff]
    simp [or_comm]
  have hvertices : cs.map (·.vertex) = vs.filter fun v => decide (s = 0 ∨ st.mail v ≠ []) := by
    rw [hbulk.vertices]
    exact List.filter_congr fun v hv => hawake v (htraverses.lt_nodeCount v hv)
  have hcalled (c : Call α) (hc : c ∈ cs) :
      c.vertex < job.graph.nodeCount ∧ (s = 0 ∨ st.mail c.vertex ≠ []) := by
    have hmem := List.mem_map_of_mem (f := (·.vertex)) hc
    rw [hvertices, List.mem_filter, decide_eq_true_eq] at hmem
    exact ⟨htraverses.lt_nodeCount _ hmem.1, hmem.2⟩
  refine ⟨cs, hbulk, {
    vertices := hvertices
    lt := fun c hc => (hcalled c hc).1
    reply := fun c hc => ?_
    inside := fun c hc => hR.inside_turn s (hcalled c hc).1 st }⟩
  obtain ⟨hv, hturn⟩ := hcalled c hc
  obtain ⟨-, -, -, hhanded, flag, hreply⟩ := hbulk.call c hc
  rw [hreply, hhanded, hinbox, h.waiting, hvalues, h.rows _ hv, hR.compute s _ hv, turn, if_neg]
  -- a vertex with a turn is not passed over
  rintro ⟨hs, hnone⟩
  exact hturn.elim hs fun hsome => hsome hnone

/-- One superstep of a run is one round. -/
theorem Shows.step {control : Control} (hR : R.Runs job) (h : R.Shows job s st ws)
    (hends : SuperstepEnds job s ws (.ok control) ws') :
    control = .continue ∧
      ∃ st', R.Round job.graph.nodeCount s st st' ∧ R.Shows job (s + 1) st' ws' := by
  obtain ⟨hserves, hfaces⟩ := hends.serves h.serves
  obtain ⟨vs, ws₁, htraverses, hperm, hfinishes⟩ := hends.of_ok
  have hnodup : vs.Nodup := hperm.nodup_iff.mpr List.nodup_range
  -- a superstep without failure visits every vertex
  have hall (v : Nat) (hv : v < job.graph.nodeCount) : v ∈ vs :=
    hperm.mem_iff.mpr (List.mem_range.mpr hv)
  obtain ⟨cs, hbulk, hcalls⟩ := h.calls hR htraverses hnodup
  obtain ⟨-, -, hhalted, -, hopened⟩ := Poised.opened h.serves h.ready (h.isDoubleBuffered hR)
  have houtcome := hfinishes.outcome
  have hmaster := hfinishes.values
  rw [hR.master] at houtcome hmaster
  -- the step between supersteps leaves what the calls stored
  have hvalues : ws'.values = storeReplies ws.values cs := by
    rw [hmaster, ← hopened, ← hbulk.values]
    rfl
  obtain ⟨hschema, hcount⟩ := storeReplies_frame ws.values cs
  refine ⟨(Except.ok.inj houtcome).symm, ⟨fun v => (R.turn s v st).1,
    fun w => vs.flatMap fun v => mailFor w (R.turn s v st).2⟩,
    ⟨fun v _ => rfl, vs, hperm, fun w => rfl⟩, {
      serves := hserves
      ready := .of_faces hfaces
      schema := by rw [hvalues, hschema, h.schema]
      nodeCount := by rw [hvalues, hcount, h.nodeCount]
      rows := fun v hv => by
        rw [hvalues]
        exact hcalls.row_eq hnodup hR.typed h.schema h.nodeCount (h.rows v hv) (hall v hv)
      waiting := fun w => by
        rw [hfinishes.messenger, hbulk.outbox, hR.reducer, hcalls.flatMap_sentTo]
      votes := fun v hv => ?_ }⟩
  rw [hfinishes.halted, hbulk.halted, hhalted, h.votes v hv, h.waiting,
    hcalls.any_voted (hall v hv)]
  -- who has mail votes again, and who has none has voted before
  by_cases hmail : st.mail v = []
  · rw [hmail, Messenger.collected_nil]
    simp
  · simp [hmail]

omit [Scalar α] in
/-- After a superstep the run is quiet exactly if no message is on its way. -/
theorem Shows.isQuiet_iff (h : R.Shows job (s + 1) st ws) :
    ws.isQuiet = true ↔ ∀ v, v < job.graph.nodeCount → st.mail v = [] := by
  rw [Workspace.isQuiet_iff h.serves]
  refine forall₂_congr fun v hv => ?_
  -- after superstep 0 all have voted, so only messages count
  rw [h.votes v hv, h.waiting, Messenger.collected_eq_nil_iff]
  simp

end Run

/-! ## Whole runs -/

section Runs

open Workspace

/-- A run comes to no boundary that is quiet. -/
theorem isQuiet_of_standsAt {job : Job α} {schedule : Schedule} {ws₀ ws : Workspace α} {k : Nat}
    (h : StandsAt job schedule ws₀ s ws) (hk : k < s) :
    ∃ ws', StandsAt job schedule ws₀ (k + 1) ws' ∧ ws'.isQuiet = false := by
  -- on the boundaries up to this one, none of which was found quiet
  induction h with
  | first _ _ => exact absurd hk (Nat.not_lt_zero k)
  | @next s ws ws' hstands hs hflag hsuperstep hquiet ih =>
    rcases Nat.lt_succ_iff_lt_or_eq.mp hk with hlt | rfl
    · exact ih hlt
    · exact ⟨ws', hstands.next hs hflag hsuperstep hquiet, hquiet⟩

variable [Scalar α] {r : Run α} {schedule : Schedule} {ws ws' : Workspace α} {vs : List Nat}

/-- What setting a vertex up replies. -/
theorem Runs.reply_init (hR : R.Runs r.job) {c : Call α} (hv : c.vertex < r.job.graph.nodeCount)
    {flag : Flag}
    (h : c.reply = r.job.program.init ⟨r.job.graph, r.job.config, 0, c.vertex,
      (r.opening ⟨[R.slot]⟩).values.row c.vertex, [], flag⟩) :
    c.reply = ⟨R.row (R.first c.vertex), [], .ok ()⟩ := by
  rw [h, ← hR.init c.vertex hv flag]
  congr 2
  exact NodeValues.row_allocate ⟨[R.slot]⟩ hv

/-- Setting all vertices up gives each of them its first value. -/
theorem Runs.shows_first (hR : R.Runs r.job)
    (h : Traverses r.job .init 0
      { r.opening ⟨[R.slot]⟩ with aborted := false, stats := .zero } vs ws)
    (hperm : vs.Perm (List.range r.job.graph.nodeCount)) :
    R.Shows r.job 0 ⟨R.first, fun _ => []⟩ ws := by
  obtain ⟨hserves, hready⟩ := r.serves_opening ⟨[R.slot]⟩
  obtain ⟨hmessenger, hhalted, hfrontier⟩ := h.set_up
  have hnodup : vs.Nodup := hperm.nodup_iff.mpr List.nodup_range
  obtain ⟨cs, rfl, hreplies, hvalues, -⟩ := h.values_set_up hnodup
  have hlt : ∀ c ∈ cs, c.vertex < r.job.graph.nodeCount := fun c hc =>
    List.mem_range.mp (hperm.mem_iff.mp (List.mem_map_of_mem hc))
  have hreply : ∀ c ∈ cs, c.reply = ⟨R.row (R.first c.vertex), [], .ok ()⟩ := fun c hc =>
    (hreplies c hc).elim fun _ => hR.reply_init (hlt c hc)
  exact {
    serves := hserves.congr hhalted hfrontier hmessenger
    ready := hmessenger ▸ hready
    schema := by
      rw [hvalues, (storeReplies_frame _ cs).1]
      rfl
    nodeCount := by
      rw [hvalues, (storeReplies_frame _ cs).2]
      rfl
    -- every vertex was set up once
    rows := by
      intro v hv
      obtain ⟨c, hc, rfl⟩ := List.mem_map.mp (hperm.mem_iff.mpr (List.mem_range.mpr hv))
      rw [hvalues, row_storeReplies_of_mem (fun d hd => ?_) hnodup hc, hreply c hc]
      rw [hreply d hd]
      exact ⟨hlt d hd, rfl, congrArg (fun t => [t]) (hR.typed _)⟩
    waiting := by
      intro v
      rw [hmessenger, Messenger.collected_nil]
      exact Messenger.outbox_create _ _ _ v
    votes := by
      intro v _
      rw [hhalted]
      exact BitSet.contains_empty _ v }

/-- Every boundary of a run shows a reached state. -/
theorem Runs.standsAt (hR : R.Runs r.job)
    (h : StandsAt r.job schedule (r.opening ⟨[R.slot]⟩) s ws) :
    ∃ st, R.Reached r.job.graph.nodeCount s st ∧ R.Shows r.job s st ws := by
  -- one round more for each superstep
  induction h with
  | @first ws hflag hinit =>
    obtain ⟨vs, htraverses, -, hperm, -⟩ := traverses_of_runPhase hinit
    exact ⟨_, .first, hR.shows_first htraverses (hperm rfl)⟩
  | @next s ws ws' _ _ _ hsuperstep _ ih =>
    obtain ⟨st, hreached, hshows⟩ := ih
    have hends := SuperstepEnds.of_superstep hsuperstep
    obtain ⟨-, st', hround, hshows'⟩ := hshows.step hR hends
    exact ⟨st', hreached.next hround, hshows'⟩

/-- What a superstep leaves, and when the run is quiet after it. -/
theorem Runs.computes {control : Control} (hR : R.Runs r.job)
    (h : Computes r.job schedule (r.opening ⟨[R.slot]⟩) s (.ok control) ws) :
    control = .continue ∧ ∃ st, R.Reached r.job.graph.nodeCount (s + 1) st ∧
      R.Shows r.job (s + 1) st ws := by
  obtain ⟨before, hstands, -, -, hsuperstep⟩ := h
  obtain ⟨st, hreached, hshows⟩ := hR.standsAt hstands
  have hends := SuperstepEnds.of_superstep hsuperstep
  obtain ⟨hcontrol, st', hround, hshows'⟩ := hshows.step hR hends
  exact ⟨hcontrol, st', hreached.next hround, hshows'⟩

/-- No call of a reaction fails, so a phase of the run does only if the flag is raised. -/
theorem Runs.runPhase_init (hR : R.Runs r.job) {stop : Stop}
    (h : (r.opening ⟨[R.slot]⟩).runPhase r.job schedule .init 0 = (.error stop, ws)) :
    ws.flag.raised = true := by
  obtain ⟨hserves, -⟩ := r.serves_opening ⟨[R.slot]⟩
  obtain ⟨calls, hcalls, -, hok⟩ := @runPhase_ok_iff _ r.job .init 0 _ hserves schedule
  obtain ⟨vs, htraverses, hnodup, -⟩ :=
    @runPhase_traverses _ r.job .init 0 schedule (r.opening ⟨[R.slot]⟩)
  obtain ⟨cs, rfl, hreplies, -, hcalls'⟩ := htraverses.values_set_up hnodup
  -- the calls of the phase are those that set vertices up
  obtain rfl : calls = cs := List.append_cancel_left (hcalls.symm.trans hcalls')
  rw [h] at hcalls hok htraverses
  -- were the flag down, the phase would have gone through
  by_contra hraised
  cases hok (Bool.not_eq_true _ ▸ hraised) fun c hc => by
    have hv := htraverses.lt_nodeCount _ (List.mem_map_of_mem hc)
    have hphase : c.phase = .init :=
      Journal.phase_of_mem_calls (hcalls ▸ List.mem_append_right _ hc)
    obtain ⟨flag, hreply⟩ := hreplies c hc
    rw [Call.isFine, hphase, hR.reply_init hv hreply]
    rfl

/-- No call of a reaction fails in a superstep either, so one breaks off only if the flag is raised.
-/
theorem Runs.superstep_error (hR : R.Runs r.job) (hshows : R.Shows r.job s st ws) {stop : Stop}
    (h : ws.superstep r.job schedule s = (.error stop, ws')) : ws'.flag.raised = true := by
  have hprepared : ((ws.transition (.running s)).prepare s).Serves r.job :=
    ((hshows.serves.opened s).1).congr rfl rfl rfl
  obtain ⟨calls, hcalls, -, hok⟩ := @runPhase_ok_iff _ r.job .compute s _ hprepared schedule
  obtain ⟨vs, htraverses, hnodup, -⟩ :=
    @runPhase_traverses _ r.job .compute s schedule ((ws.transition (.running s)).prepare s)
  obtain ⟨cs, hbulk, hturns⟩ := hshows.calls hR htraverses hnodup
  -- the calls of the phase are the turns of the vertices
  obtain rfl : calls = cs := List.append_cancel_left (hcalls.symm.trans hbulk.calls)
  rw [superstep] at h
  dsimp only at h
  rcases hphase : ((ws.transition (.running s)).prepare s).runPhase r.job schedule .compute s
    with ⟨stop' | _, ws₁⟩ <;> rw [hphase] at h hok hcalls
  · -- a phase that broke off, as for setting up
    cases h
    by_contra hraised
    cases hok (Bool.not_eq_true _ ▸ hraised) fun c hc => by
      have hcompute : c.phase = .compute :=
        Journal.phase_of_mem_calls (hcalls ▸ List.mem_append_right _ hc)
      rw [Call.isFine, hcompute]
      exact succeeded_of_answer (hturns.reply c hc) (hturns.inside c hc)
  · -- the step between supersteps does nothing
    dsimp only at h
    rw [masterCompute, hR.master] at h
    cases h

/-- A run that nobody stops ends with a result. -/
theorem Runs.exists_ending (hR : R.Runs r.job)
    (hflag : ((r.opening ⟨[R.slot]⟩).iterate r.job schedule).2.flag.raised = false) :
    ∃ ending, ((r.opening ⟨[R.slot]⟩).iterate r.job schedule).1 = .ok ending := by
  have hends := runEnds_iterate r.job schedule (r.opening ⟨[R.slot]⟩)
  generalize ((r.opening ⟨[R.slot]⟩).iterate r.job schedule).1 = out,
    ((r.opening ⟨[R.slot]⟩).iterate r.job schedule).2 = last at hflag hends
  have hdown {raised : Bool} (hraised : raised = true) (h : raised = false) : False := by
    rw [h] at hraised
    cases hraised
  -- every end without a result has the flag raised
  cases hends with
  | neverStarted hraised => exact (hdown hraised hflag).elim
  | setUpFailed _ hinit => exact (hdown (hR.runPhase_init hinit) hflag).elim
  | terminated _ _ hraised => exact (hdown hraised hflag).elim
  | failed h =>
    obtain ⟨before, hstands, -, -, hsuperstep⟩ := h
    obtain ⟨st, -, hshows⟩ := hR.standsAt hstands
    exact (hdown (hR.superstep_error hshows hsuperstep) hflag).elim
  | capped _ => exact ⟨_, rfl⟩
  | halted _ => exact ⟨_, rfl⟩
  | converged _ _ => exact ⟨_, rfl⟩

/-- A run is over once a superstep leaves no message on its way, if its cap allows for that
superstep. -/
theorem Runs.le_of_standsAt (hR : R.Runs r.job) {k : Nat}
    (hquiet : ∀ st, R.Reached r.job.graph.nodeCount (k + 1) st →
      ∀ v, v < r.job.graph.nodeCount → st.mail v = [])
    (h : StandsAt r.job schedule (r.opening ⟨[R.slot]⟩) s ws) : s ≤ k := by
  by_contra hlt
  obtain ⟨ws', hstands, hgoes⟩ := isQuiet_of_standsAt h (Nat.lt_of_not_le hlt)
  obtain ⟨st, hreached, hshows⟩ := hR.standsAt hstands
  rw [hshows.isQuiet_iff.mpr (hquiet st hreached)] at hgoes
  cases hgoes

/-- How a run of a reaction ends that ends with a result: it has come to a state, and it converged
exactly if no message was on its way. -/
theorem Runs.of_ending (hR : R.Runs r.job) {ending : Ending}
    (hok : ((r.opening ⟨[R.slot]⟩).iterate r.job schedule).1 = .ok ending) :
    let last := ((r.opening ⟨[R.slot]⟩).iterate r.job schedule).2
    (ending.didConverge = true ∧ ending.ranIterations < r.job.config.maxIterations ∧
      (∃ before, StandsAt r.job schedule (r.opening ⟨[R.slot]⟩) ending.ranIterations before) ∧
      ∃ st, R.Reached r.job.graph.nodeCount (ending.ranIterations + 1) st ∧
        (∀ v, v < r.job.graph.nodeCount → st.mail v = []) ∧
        R.Shows r.job (ending.ranIterations + 1) st last) ∨
    (ending.didConverge = false ∧ ending.ranIterations = r.job.config.maxIterations ∧
      (∃ before, StandsAt r.job schedule (r.opening ⟨[R.slot]⟩) ending.ranIterations before) ∧
      ∃ st, R.Reached r.job.graph.nodeCount ending.ranIterations st ∧
        R.Shows r.job ending.ranIterations st last) := by
  intro last
  have hends := runEnds_iterate r.job schedule (r.opening ⟨[R.slot]⟩)
  rw [hok] at hends
  change RunEnds _ _ _ _ last at hends
  -- the last change of state touches nothing that shows
  have hentered {s : Nat} {st : State α β} {ws : Workspace α} (state : RunState)
      (h : R.Shows r.job s st ws) : R.Shows r.job s st (ws.transition state) :=
    ⟨h.serves.congr rfl rfl rfl, h.ready, h.schema, h.nodeCount, h.rows, h.waiting, h.votes⟩
  generalize last = final at hends ⊢
  cases hends with
  | capped h =>
    obtain ⟨st, hreached, hshows⟩ := hR.standsAt h
    exact .inr ⟨rfl, rfl, ⟨_, h⟩, st, hreached, hentered _ hshows⟩
  | halted h =>
    -- a reaction never asks the run to stop
    obtain ⟨hcontrol, -⟩ := hR.computes h
    cases hcontrol
  | converged h hquiet =>
    obtain ⟨-, st, hreached, hshows⟩ := hR.computes h
    obtain ⟨before, hstands, hs, -⟩ := h
    exact .inl ⟨rfl, hs, ⟨before, hstands⟩, st, hreached, hshows.isQuiet_iff.mp hquiet,
      hentered _ hshows⟩

/-- A call is the turn of its vertex in a state that is reached before its superstep. -/
structure IsTurn (R : Reaction α β) (n : Nat) (c : Call α) : Prop where
  lt : c.vertex < n
  turn : ∃ st, R.Reached n c.superstep st ∧ c.reply = R.answer (R.turn c.superstep c.vertex st)

/-- However a superstep ends, the calls that it adds are turns. -/
theorem Runs.isTurn_of_superstep (hR : R.Runs r.job) {out : Except Stop Control}
    (hstands : StandsAt r.job schedule (r.opening ⟨[R.slot]⟩) s ws)
    (hends : SuperstepEnds r.job s ws out ws') :
    ∃ cs, ws'.journal.calls .compute = ws.journal.calls .compute ++ cs ∧
      ∀ c ∈ cs, R.IsTurn r.job.graph.nodeCount c := by
  obtain ⟨st, hreached, hshows⟩ := hR.standsAt hstands
  obtain ⟨vs, ws₁, htraverses, hnodup, hcalls, -⟩ := hends.journal
  obtain ⟨cs, hbulk, hturns⟩ := hshows.calls hR htraverses hnodup
  refine ⟨cs, by rw [hcalls, hbulk.calls, (journal_opened ws s).1], fun c hc => ?_⟩
  obtain rfl := (hbulk.call c hc).1
  exact ⟨hturns.lt c hc, st, hreached, hturns.reply c hc⟩

/-- All calls up to a boundary are turns. -/
theorem Runs.isTurn_of_standsAt (hR : R.Runs r.job)
    (hnone : (r.opening ⟨[R.slot]⟩).journal.calls .compute = [])
    (h : StandsAt r.job schedule (r.opening ⟨[R.slot]⟩) s ws) :
    ∀ c ∈ ws.journal.calls .compute, R.IsTurn r.job.graph.nodeCount c := by
  -- on the supersteps before the boundary, each of which adds turns
  induction h with
  | first hflag hinit =>
    obtain ⟨vs, htraverses, -⟩ := traverses_of_runPhase hinit
    -- setting up makes no computing call
    rw [htraverses.journal.2.2 .compute (by decide)]
    change ∀ c ∈ (r.opening ⟨[R.slot]⟩).journal.calls .compute, _
    rw [hnone]
    exact List.forall_mem_nil _
  | @next s ws ws' hstands _ _ hsuperstep _ ih =>
    have hends := SuperstepEnds.of_superstep hsuperstep
    obtain ⟨cs, hcalls, hnew⟩ := hR.isTurn_of_superstep hstands hends
    rw [hcalls]
    exact fun c hc => (List.mem_append.mp hc).elim (ih c) (hnew c)

/-! ## Runs from start to end -/

variable {graph : Graph α} {config : Config} {program : Program α} {flag : Flag}

/-- The workspace at the end of a run. -/
private theorem Runs.execute_eq (hcreate : Run.create graph config program flag = .ok r)
    (hR : R.Runs r.job) (schedule : Schedule) :
    let last := ((r.opening ⟨[R.slot]⟩).iterate r.job schedule).2
    (r.execute schedule).1 = ((r.opening ⟨[R.slot]⟩).iterate r.job schedule).1.map
        (fun ending => ⟨last.values, ending.didConverge, ending.ranIterations⟩) ∧
      (r.execute schedule).2.flag = last.flag ∧
      ∀ phase, (r.execute schedule).2.journal.calls phase = last.journal.calls phase := by
  obtain ⟨-, hprogram, hconfig⟩ := Run.job_of_create hcreate
  have hschema := hR.schema
  rw [hprogram, hconfig] at hschema
  obtain ⟨hresult, hflag, hcalls, -⟩ := Run.execute_of_schema hcreate hschema schedule
  exact ⟨hresult, hflag, hcalls⟩

/-- The result of a run shows the state after its last superstep. If the run converged, no message
is on its way, and if not, the cap cut it off. -/
theorem Runs.of_result (hcreate : Run.create graph config program flag = .ok r)
    (hR : R.Runs r.job) {result : RunResult α} (h : (r.execute schedule).1 = .ok result) :
    ∃ st, R.Reached graph.nodeCount
        ((if result.didConverge then result.ranIterations else config.maxIterations - 1) + 1) st ∧
      (result.didConverge = true → ∀ v, v < graph.nodeCount → st.mail v = []) ∧
      result.values.nodeCount = graph.nodeCount ∧
      ∀ v, v < graph.nodeCount → result.values.row v = R.row (st.value v) := by
  obtain ⟨hresult, -, -⟩ := hR.execute_eq hcreate schedule
  obtain ⟨hgraph, -, hconfig⟩ := Run.job_of_create hcreate
  rw [hresult] at h
  rcases hiterate : ((r.opening ⟨[R.slot]⟩).iterate r.job schedule).1 with stop | ending
  · rw [hiterate] at h
    cases h
  · have hends := hR.of_ending hiterate
    rw [hiterate] at h
    cases h
    rw [hgraph, hconfig] at hends
    rcases hends with ⟨hconverged, -, -, st, hreached, hquiet, hshows⟩ |
      ⟨hconverged, hran, -, st, hreached, hshows⟩
    · -- the state that the check found quiet
      refine ⟨st, by rwa [if_pos hconverged], fun _ => hquiet, ?_, ?_⟩
      · exact hgraph ▸ hshows.nodeCount
      · exact hgraph ▸ hshows.rows
    · -- the state after the last superstep below the cap
      have hpos := Run.maxIterations_pos_of_create hcreate
      rw [hran, ← Nat.sub_add_cancel hpos] at hreached
      refine ⟨st, by rwa [if_neg (by simp [hconverged])], fun h => ?_, ?_, ?_⟩
      · cases hconverged.symm.trans h
      · exact hgraph ▸ hshows.nodeCount
      · exact hgraph ▸ hshows.rows

/-- A run that nobody stops converges no later than in superstep `k`, if no message is on its way
after that superstep and the cap allows for it. -/
theorem Runs.converges (hcreate : Run.create graph config program flag = .ok r)
    (hR : R.Runs r.job) {k : Nat} (hk : k < config.maxIterations)
    (hquiet : ∀ st, R.Reached graph.nodeCount (k + 1) st →
      ∀ v, v < graph.nodeCount → st.mail v = [])
    (hflag : (r.execute schedule).2.flag.raised = false) :
    ∃ result, (r.execute schedule).1 = .ok result ∧ result.didConverge = true ∧
      result.ranIterations ≤ k := by
  obtain ⟨hresult, hlast, -⟩ := hR.execute_eq hcreate schedule
  obtain ⟨hgraph, -, hconfig⟩ := Run.job_of_create hcreate
  rw [hlast] at hflag
  obtain ⟨ending, hiterate⟩ := hR.exists_ending hflag
  have hends := hR.of_ending hiterate
  rw [hgraph, hconfig] at hends
  rw [← hgraph] at hquiet
  rw [hiterate] at hresult
  refine ⟨_, hresult, ?_⟩
  rcases hends with ⟨hconverged, -, ⟨before, hstands⟩, -⟩ | ⟨-, hran, ⟨before, hstands⟩, -⟩
  · exact ⟨hconverged, hR.le_of_standsAt hquiet hstands⟩
  · -- the cap is above `k`, so no boundary comes that late
    have hle := hR.le_of_standsAt hquiet hstands
    omega

/-- The calls of a run are the turns of their vertices. -/
theorem Runs.isTurn_of_mem_calls (hcreate : Run.create graph config program flag = .ok r)
    (hR : R.Runs r.job) {c : Call α} (hc : c ∈ (r.execute schedule).2.journal.calls .compute) :
    R.IsTurn r.job.graph.nodeCount c := by
  obtain ⟨-, -, hjournal⟩ := hR.execute_eq hcreate schedule
  have hnone := (Run.journal_opening hcreate ⟨[R.slot]⟩).1 .compute
  obtain ⟨last, hcalls, -, -, hlast⟩ :=
    (runEnds_iterate r.job schedule (r.opening ⟨[R.slot]⟩)).journal_cases
  rw [hjournal, hcalls] at hc
  rcases hlast with rfl | ⟨vs, htraverses⟩ | ⟨s, hstands⟩ | ⟨s, before, out, hstands, hends⟩
  · rw [hnone] at hc
    cases hc
  · -- broken off while it was set up
    rw [htraverses.journal.2.2 .compute (by decide)] at hc
    change c ∈ (r.opening ⟨[R.slot]⟩).journal.calls .compute at hc
    rw [hnone] at hc
    cases hc
  · exact hR.isTurn_of_standsAt hnone hstands c hc
  · -- broken off in a superstep, whose calls are turns as well
    obtain ⟨cs, hafter, hnew⟩ := hR.isTurn_of_superstep hstands hends
    rw [hafter] at hc
    exact (List.mem_append.mp hc).elim (hR.isTurn_of_standsAt hnone hstands c) (hnew c)

end Runs

end Reaction

end Superstep
