import Mathlib
import Superstep.Proofs.Run.Serving

/-!
# What the asynchronous messenger delivers

With the asynchronous messenger a visit may find messages of the same superstep, so what a vertex is
handed depends on the order of the visits. The ledger of a run is the list of its visits in that
order, each with the call it made, if any. It settles what every call is handed: all that was sent
to its vertex since the vertex was called before.

## Key results

- `AsyncInv.visit`: a visit hands over what waits for its vertex, or finds nothing
- `Ledger.conserved`: what was sent was handed over or waits
- `Ledger.arrives`: a message is handed over at the next visit to its target
- `asynchronous_delivery`: every run has such a ledger, which is empty when the run converges
-/

namespace Superstep

variable {α : Type}

/-! ## Messages that wait -/

namespace Call

/-- What a further call leaves waiting for `v`: a call of `v` takes everything, and then its own
messages count. -/
def leaveWaiting (n v : Nat) (waiting : List α) (c : Call α) : List α :=
  (if c.vertex = v then [] else waiting) ++ c.sentTo n v

/-- What waits for `v` after calls: what was sent to it since it was called last. -/
def waitingFor (n v : Nat) (calls : List (Call α)) : List α :=
  calls.foldl (leaveWaiting n v) []

/-- What was sent to `v`. -/
def allSentTo (n v : Nat) (calls : List (Call α)) : List α := calls.flatMap (·.sentTo n v)

/-- What was handed to the calls of `v`. -/
def allHandedTo (v : Nat) (calls : List (Call α)) : List α :=
  (calls.filter fun c => decide (c.vertex = v)).flatMap (·.inbox)

variable {n v : Nat}

/-- What waits changes with the last call only. -/
theorem waitingFor_concat (calls : List (Call α)) (c : Call α) :
    waitingFor n v (calls ++ [c]) = leaveWaiting n v (waitingFor n v calls) c := by
  rw [waitingFor, List.foldl_append]
  rfl

/-- A message goes on waiting as long as its target is not called. -/
theorem mem_waitingFor_append {calls later : List (Call α)} {m : α}
    (hm : m ∈ waitingFor n v calls) (hlater : ∀ c ∈ later, c.vertex ≠ v) :
    m ∈ waitingFor n v (calls ++ later) := by
  -- the calls that follow are of other vertices, one after the other
  induction later generalizing calls with
  | nil => rwa [List.append_nil]
  | cons c later ih =>
    obtain ⟨hc, hrest⟩ := List.forall_mem_cons.mp hlater
    have hstep : m ∈ waitingFor n v (calls ++ [c]) := by
      rw [waitingFor_concat, leaveWaiting, if_neg hc]
      exact List.mem_append_left _ hm
    have hall := ih hstep hrest
    rwa [List.append_assoc] at hall

end Call

/-! ## The ledger -/

/-- A visit to a vertex, with the call that it made, if it made one. -/
structure Visit (α : Type) where
  superstep : Nat
  vertex : Nat
  call? : Option (Call α)

namespace Visit

/-- The calls of visits. -/
def calls (visits : List (Visit α)) : List (Call α) := visits.filterMap (·.call?)

/-- What a visit does when `waiting` waits for its vertex: it hands everything over to a call that
finds the vote taken back, or it passes the vertex over because nothing waits. -/
def Settles (x : Visit α) (waiting : List α) : Prop :=
  match x.call? with
  | some c => c.superstep = x.superstep ∧ c.vertex = x.vertex ∧ c.halted = false ∧
      c.inbox.Perm waiting
  | none => waiting = []

end Visit

/-- The visits of a run over `n` vertices, in order. -/
structure Ledger (n : Nat) (visits : List (Visit α)) : Prop where
  exists_vertex : ∀ x ∈ visits, x.vertex < n
  /-- No superstep visits a vertex twice. -/
  once : (visits.map fun x => (x.superstep, x.vertex)).Nodup
  sorted : (visits.map (·.superstep)).Pairwise (· ≤ ·)
  settled : ∀ (before : List (Visit α)) (x : Visit α) (after : List (Visit α)),
    visits = before ++ x :: after → x.Settles (Call.waitingFor n x.vertex (Visit.calls before))

namespace Ledger

variable {n : Nat} {visits : List (Visit α)}

/-- A run that visited nobody has an empty ledger. -/
theorem nil : Ledger n ([] : List (Visit α)) where
  exists_vertex := List.forall_mem_nil _
  once := List.nodup_nil
  sorted := List.Pairwise.nil
  settled before x after h := by simp at h

/-- A visit of a vertex that was not visited in this superstep, to the last superstep or a later
one, may be entered. -/
theorem concat (h : Ledger n visits) {x : Visit α} (hv : x.vertex < n)
    (hnew : ∀ y ∈ visits, (y.superstep, y.vertex) ≠ (x.superstep, x.vertex))
    (hlast : ∀ y ∈ visits, y.superstep ≤ x.superstep)
    (hsettles : x.Settles (Call.waitingFor n x.vertex (Visit.calls visits))) :
    Ledger n (visits ++ [x]) where
  exists_vertex y hy := by
    rcases List.mem_append.mp hy with hold | hadded
    · exact h.exists_vertex y hold
    · rwa [List.mem_singleton.mp hadded]
  once := by
    rw [List.map_append, List.nodup_append]
    refine ⟨h.once, List.nodup_singleton _, ?_⟩
    intro p hp q hq
    obtain ⟨y, hy, rfl⟩ := List.mem_map.mp hp
    rw [List.mem_singleton.mp hq]
    -- nobody has visited the vertex in this superstep
    exact hnew y hy
  sorted := by
    rw [List.map_append, List.pairwise_append]
    refine ⟨h.sorted, List.pairwise_singleton _ _, ?_⟩
    intro p hp q hq
    obtain ⟨y, hy, rfl⟩ := List.mem_map.mp hp
    rw [List.mem_singleton.mp hq]
    exact hlast y hy
  settled before y after heq := by
    -- the visit in question is the new one, or an old one
    rcases List.eq_nil_or_concat after with rfl | ⟨after', z, rfl⟩
    · obtain ⟨rfl, hxy⟩ := List.append_inj' heq rfl
      obtain rfl := (List.cons.inj hxy).1
      exact hsettles
    · rw [List.concat_eq_append, ← List.cons_append, ← List.append_assoc] at heq
      obtain ⟨hvisits, -⟩ := List.append_inj' heq rfl
      exact h.settled before y after' hvisits

/-- Visits carry calls of their own vertex. -/
theorem vertex_of_call (h : Ledger n visits) {x : Visit α} (hx : x ∈ visits) {c : Call α}
    (hc : x.call? = some c) : c.vertex = x.vertex ∧ c.halted = false := by
  obtain ⟨before, after, heq⟩ := List.append_of_mem hx
  have hsettles := h.settled before x after heq
  rw [Visit.Settles, hc] at hsettles
  exact ⟨hsettles.2.1, hsettles.2.2.1⟩

/-- What was sent to a vertex was handed to its calls or waits for it, every message once. -/
theorem conserved (h : Ledger n visits) (v : Nat) :
    (Call.allHandedTo v (Visit.calls visits) ++ Call.waitingFor n v (Visit.calls visits)).Perm
      (Call.allSentTo n v (Visit.calls visits)) := by
  have hsettled := h.settled
  clear h
  -- the induction is from the end, since the last visit settles what waits
  induction visits using List.reverseRecOn with
  | nil => rfl
  | append_singleton visits x ih =>
    have hprefix := ih fun before y after heq => by
      refine hsettled before y (after ++ [x]) ?_
      rw [heq, List.append_assoc]
      rfl
    have hsettles := hsettled visits x [] rfl
    rw [Visit.Settles] at hsettles
    -- a visit without a call changes nothing on either side
    cases hc : x.call? with
    | none =>
      have hcalls : Visit.calls (visits ++ [x]) = Visit.calls visits := by
        simp [Visit.calls, hc]
      rwa [hcalls]
    | some c =>
      rw [hc] at hsettles
      obtain ⟨-, hvertex, -, hinbox⟩ := hsettles
      have hcalls : Visit.calls (visits ++ [x]) = Visit.calls visits ++ [c] := by
        simp [Visit.calls, hc]
      have hsent : Call.allSentTo n v (Visit.calls (visits ++ [x]))
          = Call.allSentTo n v (Visit.calls visits) ++ c.sentTo n v := by
        rw [hcalls]
        simp [Call.allSentTo]
      have hhanded : Call.allHandedTo v (Visit.calls (visits ++ [x]))
          = Call.allHandedTo v (Visit.calls visits) ++ if c.vertex = v then c.inbox else [] := by
        rw [hcalls]
        -- a call of `v` moves what waited to what was handed over
        by_cases hv : c.vertex = v <;> simp [Call.allHandedTo, hv]
      rw [hsent, hhanded, hcalls, Call.waitingFor_concat, Call.leaveWaiting]
      by_cases hv : c.vertex = v
      · rw [← hvertex, hv] at hinbox
        rw [if_pos hv, if_pos hv, List.nil_append]
        exact ((hinbox.append_left _).trans hprefix).append_right _
      · rw [if_neg hv, if_neg hv, List.append_nil, ← List.append_assoc]
        exact hprefix.append_right _

/-- A message is handed over at the next visit to its target. -/
theorem arrives (h : Ledger n visits) {before mid after : List (Visit α)} {x y : Visit α}
    (heq : visits = before ++ x :: (mid ++ y :: after)) {b : Call α} (hb : x.call? = some b) {m : α}
    (hm : m ∈ b.sentTo n y.vertex) (hmid : ∀ z ∈ mid, z.vertex ≠ y.vertex) :
    ∃ c, y.call? = some c ∧ m ∈ c.inbox := by
  have hsettles := h.settled (before ++ x :: mid) y after (by rw [heq, List.append_assoc]; rfl)
  have hcalls : Visit.calls (before ++ x :: mid)
      = Visit.calls before ++ [b] ++ Visit.calls mid := by
    simp [Visit.calls, hb]
  -- no visit in between is to the target, so nothing is taken away
  have hwaits : m ∈ Call.waitingFor n y.vertex (Visit.calls (before ++ x :: mid)) := by
    rw [hcalls]
    apply Call.mem_waitingFor_append
    · rw [Call.waitingFor_concat, Call.leaveWaiting]
      exact List.mem_append_right _ hm
    · intro c hc
      obtain ⟨z, hz, hzc⟩ := List.mem_filterMap.mp hc
      rw [(h.vertex_of_call (by rw [heq]; simp [hz]) hzc).1]
      exact hmid z hz
  rw [Visit.Settles] at hsettles
  -- a visit that passes its vertex over would have found nothing waiting
  cases hc : y.call? with
  | none =>
    rw [hc] at hsettles
    rw [hsettles] at hwaits
    cases hwaits
  | some c =>
    rw [hc] at hsettles
    exact ⟨c, rfl, hsettles.2.2.2.mem_iff.mpr hwaits⟩

/-- Visits between two others are made in the supersteps between, and are not the later visit. -/
theorem between (h : Ledger n visits) {before mid after : List (Visit α)} {x y z : Visit α}
    (heq : visits = before ++ x :: (mid ++ y :: after)) (hz : z ∈ mid) :
    x.superstep ≤ z.superstep ∧ z.superstep ≤ y.superstep ∧
      (z.superstep = y.superstep → z.vertex ≠ y.vertex) := by
  have honce := h.once
  have hsorted := h.sorted
  simp only [heq, List.map_append, List.map_cons, List.nodup_append, List.pairwise_append,
    List.nodup_cons, List.pairwise_cons] at honce hsorted
  have hmem := List.mem_map_of_mem (f := (·.superstep)) hz
  -- equal supersteps and vertices would be one visit made twice
  refine ⟨hsorted.2.1.1 _ (List.mem_append_left _ hmem),
    hsorted.2.1.2.2.2 _ hmem _ List.mem_cons_self, fun hs hvertex => ?_⟩
  exact honce.2.1.2.2.2 _ (List.mem_map_of_mem (f := fun x => (x.superstep, x.vertex)) hz) _
    List.mem_cons_self (by rw [hs, hvertex])

/-- A target that is visited later in the same superstep is handed the message then. -/
theorem arrives_now (h : Ledger n visits) {before after : List (Visit α)} {x y : Visit α}
    (heq : visits = before ++ x :: after) {b : Call α} (hb : x.call? = some b) {m : α}
    (hm : m ∈ b.sentTo n y.vertex) (hy : y ∈ after) (hs : y.superstep = x.superstep) :
    ∃ c, y.call? = some c ∧ m ∈ c.inbox := by
  obtain ⟨mid, rest, rfl⟩ := List.append_of_mem hy
  refine h.arrives heq hb hm fun z hz => ?_
  obtain ⟨hlow, hhigh, hother⟩ := h.between heq hz
  exact hother (by omega)

/-- Any other target is handed the message in the next superstep, if that visits it. -/
theorem arrives_next (h : Ledger n visits) {before after : List (Visit α)} {x y : Visit α}
    (heq : visits = before ++ x :: after) {b : Call α} (hb : x.call? = some b) {m : α}
    (hm : m ∈ b.sentTo n y.vertex) (hy : y ∈ visits) (hs : y.superstep = x.superstep + 1)
    (hnot : ∀ z ∈ after, z.vertex = y.vertex → z.superstep ≠ x.superstep) :
    y ∈ after ∧ ∃ c, y.call? = some c ∧ m ∈ c.inbox := by
  -- the later superstep comes later in the ledger
  have hlater : y ∈ after := by
    have hsorted := h.sorted
    simp only [heq, List.map_append, List.map_cons, List.pairwise_append] at hsorted
    rw [heq] at hy
    rcases List.mem_append.mp hy with hbefore | hthis
    · have hle := hsorted.2.2 _ (List.mem_map_of_mem hbefore) _ List.mem_cons_self
      omega
    · rcases List.mem_cons.mp hthis with rfl | hafter
      · omega
      · exact hafter
  refine ⟨hlater, ?_⟩
  obtain ⟨mid, rest, rfl⟩ := List.append_of_mem hlater
  refine h.arrives heq hb hm fun z hz hvertex => ?_
  obtain ⟨hlow, hhigh, hother⟩ := h.between heq hz
  have hne := hnot z (List.mem_append_left _ hz) hvertex
  exact hother (by omega) hvertex

end Ledger

/-! ## The invariant of a run -/

/-- The workspace at any moment of a run with the asynchronous messenger, in terms of its visits. -/
structure AsyncInv (job : Job α) (visits : List (Visit α)) (ws : Workspace α) : Prop where
  serves : ws.Serves job
  reducer : job.program.reducer = none
  single : ws.messenger.isDoubleBuffered = false
  calls : ws.journal.calls .compute = Visit.calls visits
  ledger : Ledger job.graph.nodeCount visits
  waiting : ∀ v, (ws.messenger.outbox v).Perm
    (Call.waitingFor job.graph.nodeCount v (Visit.calls visits))

namespace AsyncInv

variable {job : Job α} {s : Nat} {visits : List (Visit α)} {ws ws' : Workspace α}

/-- Only the bit sets, the messenger and the calls matter. -/
theorem congr (h : AsyncInv job visits ws) (hhalted : ws'.halted = ws.halted)
    (hfrontier : ws'.frontier = ws.frontier) (hmessenger : ws'.messenger = ws.messenger)
    (hcalls : ws'.journal.calls .compute = ws.journal.calls .compute) :
    AsyncInv job visits ws' where
  serves := h.serves.congr hhalted hfrontier hmessenger
  reducer := h.reducer
  single := hmessenger ▸ h.single
  calls := hcalls.trans h.calls
  ledger := h.ledger
  waiting := hmessenger ▸ h.waiting

/-- A vertex that is passed over has nothing waiting. -/
theorem pass (h : AsyncInv job visits ws) {v : Nat} (hv : v < job.graph.nodeCount)
    (hasleep : ws.isAwake v = false)
    (hnew : ∀ x ∈ visits, (x.superstep, x.vertex) ≠ (s, v))
    (hlast : ∀ x ∈ visits, x.superstep ≤ s) : AsyncInv job (visits ++ [⟨s, v, none⟩]) ws := by
  -- mail would have woken the vertex
  have hnil : ws.messenger.outbox v = [] := by
    have hmail := (Bool.or_eq_false_iff.mp hasleep).2
    have hiff := Messenger.hasMail_iff h.serves.fits.messenger v
    rw [hmail, Messenger.inbox_eq_outbox h.single] at hiff
    simpa using hiff
  have hsettles : (⟨s, v, none⟩ : Visit α).Settles
      (Call.waitingFor job.graph.nodeCount v (Visit.calls visits)) :=
    List.nil_perm.mp (hnil ▸ h.waiting v)
  have hcalls : Visit.calls (visits ++ [⟨s, v, none⟩]) = Visit.calls visits := by
    simp [Visit.calls]
  exact ⟨h.serves, h.reducer, h.single, h.calls.trans hcalls.symm,
    h.ledger.concat hv hnew hlast hsettles, by rw [hcalls]; exact h.waiting⟩

/-- A call is handed everything that waits for its vertex, and what it sends waits from then on. -/
theorem call (h : AsyncInv job visits ws) {c : Call α}
    (hcalled : Workspace.Called job.graph.nodeCount c ws ws') (hv : c.vertex < job.graph.nodeCount)
    (hphase : c.phase = .compute) (hhalted : c.halted = false)
    (hinbox : c.inbox = ws.messenger.inbox c.vertex)
    (hnew : ∀ x ∈ visits, (x.superstep, x.vertex) ≠ (c.superstep, c.vertex))
    (hlast : ∀ x ∈ visits, x.superstep ≤ c.superstep) :
    AsyncInv job (visits ++ [⟨c.superstep, c.vertex, some c⟩]) ws' := by
  have hcalls : Visit.calls (visits ++ [⟨c.superstep, c.vertex, some c⟩])
      = Visit.calls visits ++ [c] := by
    simp [Visit.calls]
  have hhanded : c.inbox.Perm
      (Call.waitingFor job.graph.nodeCount c.vertex (Visit.calls visits)) := by
    rw [hinbox, Messenger.inbox_eq_outbox h.single]
    exact h.waiting c.vertex
  refine ⟨⟨hcalled.fits, hcalled.reducer?.trans h.serves.reducer?,
    hcalled.isDoubleBuffered.trans h.serves.isDoubleBuffered⟩, h.reducer,
    hcalled.isDoubleBuffered.trans h.single, ?_,
    h.ledger.concat hv hnew hlast ⟨rfl, rfl, hhalted, hhanded⟩, fun w => ?_⟩
  · rw [hcalled.journal, Journal.calls_push, h.calls, hcalls, Event.call?, if_pos hphase]
    rfl
  · rw [hcalled.outbox, h.serves.reducer?, h.reducer, Messenger.gatherAll_none,
      Messenger.outbox_afterReceiving h.single, hcalls, Call.waitingFor_concat, Call.leaveWaiting]
    -- new messages come in front of those that waited
    refine List.Perm.trans ?_ List.perm_append_comm
    refine (List.reverse_perm _).append ?_
    by_cases hvw : c.vertex = w
    · rw [if_pos hvw, if_pos hvw]
    · rw [if_neg hvw, if_neg hvw]
      exact h.waiting w

/-- A visit hands over what waits for its vertex, or finds nothing. -/
theorem visit (h : AsyncInv job visits ws) {v : Nat} (hv : v < job.graph.nodeCount)
    (hawake : ws.frontier.contains v = true → ws.halted.contains v = false)
    (hnew : ∀ x ∈ visits, (x.superstep, x.vertex) ≠ (s, v))
    (hlast : ∀ x ∈ visits, x.superstep ≤ s) :
    ∃ call?, AsyncInv job (visits ++ [⟨s, v, call?⟩]) (ws.visit job .compute s v).2 ∧
      (ws.visit job .compute s v).2.frontier = ws.frontier ∧
      ∀ w, w ≠ v → (ws.visit job .compute s v).2.halted.contains w = ws.halted.contains w := by
  rw [Workspace.visit]
  -- who is passed over has no messages, who is called gets all of them
  cases hcall : ws.isAwake v with
  | false =>
    rw [Workspace.visitCompute_of_asleep hcall]
    exact ⟨none, h.pass hv hcall hnew hlast, rfl, fun _ _ => rfl⟩
  | true =>
    obtain ⟨hcalled, -⟩ := @Workspace.called_visitCompute _ _ job s v ws h.serves.fits hv hcall
    -- awake from the start it has no vote, and a late call takes it back
    have hhalted : (ws.nextCall job s v).halted = false := by
      change (ws.frontier.contains v && ws.halted.contains v) = false
      cases hfrontier : ws.frontier.contains v with
      | false => rfl
      | true => rw [hawake hfrontier]; rfl
    refine ⟨_, h.call hcalled hv rfl hhalted rfl hnew hlast, hcalled.frontier, fun w hw => ?_⟩
    rw [hcalled.halted]
    change (ws.halted.contains w && !(_ && decide (w = v)) || decide (w = v) && _) = _
    simp [hw]

/-- Messages survive the move to the other buffer, and an awake vertex has no vote. -/
theorem opened (h : AsyncInv job visits ws) (s : Nat) :
    AsyncInv job visits (ws.opened s) ∧
      ∀ v, (ws.opened s).frontier.contains v = true → (ws.opened s).halted.contains v = false := by
  have hentered : (ws.transition (.running s)).Serves job := h.serves.congr rfl rfl rfl
  obtain ⟨hserves, -⟩ := h.serves.opened s
  obtain ⟨hfits, hframe, hhalted, hfrontier⟩ := Workspace.prepare_spec hentered.fits s
  have hmessenger : (ws.opened s).messenger = ws.messenger.prepare s :=
    (congrArg Workspace.messenger hframe :)
  refine ⟨⟨hserves, h.reducer, ?_, ?_, h.ledger, fun v => ?_⟩, fun v hawake => ?_⟩
  · -- every queue is turned round on its way to the other buffer
    rw [hmessenger, Messenger.isDoubleBuffered_prepare, h.single]
  · rw [(Workspace.journal_opened ws s).1, h.calls]
  · rw [hmessenger,
      Messenger.outbox_prepare_of_not_isDoubleBuffered h.serves.fits.messenger h.single]
    exact (List.reverse_perm _).trans (h.waiting v)
  · by_cases hv : v < job.graph.nodeCount
    · have hbit := hfrontier v hv
      have hvote := hhalted v
      change (ws.opened s).frontier.contains v = _ at hbit
      change (ws.opened s).halted.contains v = _ at hvote
      rw [hbit] at hawake
      rw [hvote]
      -- in the frontier it has mail, which takes its vote back, or it has no vote
      revert hawake
      cases (ws.transition (.running s)).halted.contains v <;>
        cases ((ws.transition (.running s)).messenger.prepare s).hasMail v <;> decide
    · rw [BitSet.contains_eq_false_of_le _ (by rw [hserves.fits.frontier]; omega)] at hawake
      cases hawake

end AsyncInv

/-! ## Inside a superstep -/

/-- The workspace inside superstep `s`, which has made the visits `new` so far. -/
structure AsyncWithin (job : Job α) (s : Nat) (visits new : List (Visit α)) (ws : Workspace α) :
    Prop where
  inv : AsyncInv job (visits ++ new) ws
  early : ∀ x ∈ visits, x.superstep < s
  now : ∀ x ∈ new, x.superstep = s
  /-- A vertex that is awake and was not visited yet has no vote. -/
  awake : ∀ v, (∀ x ∈ new, x.vertex ≠ v) → ws.frontier.contains v = true →
    ws.halted.contains v = false

namespace AsyncWithin

variable {job : Job α} {s : Nat} {ws : Workspace α} {visits new : List (Visit α)}

/-- The visit to a vertex that was not visited yet goes into the ledger. -/
theorem visit (h : AsyncWithin job s visits new ws) {v : Nat} (hv : v < job.graph.nodeCount)
    (hunvisited : v ∉ new.map (·.vertex)) :
    ∃ call?, AsyncWithin job s visits (new ++ [⟨s, v, call?⟩])
      (ws.visit job .compute s v).2 := by
  have hother : ∀ x ∈ new, x.vertex ≠ v := fun x hx hxv =>
    hunvisited (hxv ▸ List.mem_map_of_mem hx)
  -- neither an earlier superstep nor this one has visited `v`
  have hnew : ∀ x ∈ visits ++ new, (x.superstep, x.vertex) ≠ (s, v) := by
    intro x hx hsame
    obtain ⟨hs, hxv⟩ := Prod.mk.inj hsame
    rcases List.mem_append.mp hx with hold | hadded
    · exact absurd hs (Nat.ne_of_lt (h.early x hold))
    · exact hother x hadded hxv
  have hlast : ∀ x ∈ visits ++ new, x.superstep ≤ s := by
    intro x hx
    rcases List.mem_append.mp hx with hold | hadded
    · exact Nat.le_of_lt (h.early x hold)
    · exact Nat.le_of_eq (h.now x hadded)
  obtain ⟨call?, hinv, hfrontier, hhalted⟩ := h.inv.visit hv (h.awake v hother) hnew hlast
  refine ⟨call?, by rwa [← List.append_assoc], h.early, fun x hx => ?_, fun w hw => ?_⟩
  · rcases List.mem_append.mp hx with hold | hadded
    · exact h.now x hold
    · rw [List.mem_singleton.mp hadded]
  · have hwv : w ≠ v := fun hsame =>
      hw _ (List.mem_append_right _ (List.mem_singleton_self _)) hsame.symm
    rw [hfrontier, hhalted w hwv]
    exact h.awake w fun x hx => hw x (List.mem_append_left _ hx)

/-- Only the bit sets, the messenger and the calls matter. -/
theorem congr {ws' : Workspace α} (h : AsyncWithin job s visits new ws)
    (hhalted : ws'.halted = ws.halted) (hfrontier : ws'.frontier = ws.frontier)
    (hmessenger : ws'.messenger = ws.messenger)
    (hcalls : ws'.journal.calls .compute = ws.journal.calls .compute) :
    AsyncWithin job s visits new ws' where
  inv := h.inv.congr hhalted hfrontier hmessenger hcalls
  early := h.early
  now := h.now
  awake := by
    rw [hfrontier, hhalted]
    exact h.awake

/-- A phase adds its visits, in their order, to the ledger. -/
theorem of_traverses {ws₀ : Workspace α} {vs : List Nat} (h₀ : AsyncWithin job s visits [] ws₀)
    (h : Workspace.Traverses job .compute s ws₀ vs ws) (hnodup : vs.Nodup) :
    ∃ new : List (Visit α), new.map (·.vertex) = vs ∧ AsyncWithin job s visits new ws := by
  -- raising the flag, aborting and noting are no visits
  induction h with
  | start => exact ⟨[], rfl, h₀⟩
  | @visit vs ws v _ hv ih =>
    rw [List.nodup_append] at hnodup
    obtain ⟨hvs, -, hdisjoint⟩ := hnodup
    obtain ⟨new, rfl, hwithin⟩ := ih hvs
    have hunvisited : v ∉ new.map (·.vertex) := fun hmem =>
      hdisjoint _ hmem _ (List.mem_singleton_self _) rfl
    obtain ⟨call?, hnext⟩ := hwithin.visit hv hunvisited
    refine ⟨new ++ [⟨s, v, call?⟩], ?_, hnext⟩
    rw [List.map_append]
    rfl
  | raise _ ih | abort _ ih =>
    obtain ⟨new, hvertices, hwithin⟩ := ih hnodup
    exact ⟨new, hvertices, hwithin.congr rfl rfl rfl rfl⟩
  | note _ r ok ih =>
    obtain ⟨new, hvertices, hwithin⟩ := ih hnodup
    exact ⟨new, hvertices, hwithin.congr rfl rfl rfl (Workspace.calls_note _ r ok .compute)⟩

end AsyncWithin

/-! ## Whole runs -/

/-- Only vertices that exist are sent something. -/
theorem Call.lt_of_mem_sentTo {n v : Nat} {c : Call α} {m : α} (h : m ∈ c.sentTo n v) : v < n := by
  obtain ⟨e, he, hm⟩ := List.mem_filterMap.mp h
  have hpossible := List.mem_takeWhile_imp he
  -- of the effects only a message has a target, and it was possible
  cases e with
  | send target value =>
    rw [Effect.valueFor?] at hm
    split at hm
    · rename_i htarget
      rw [← htarget]
      exact of_decide_eq_true hpossible
    · cases hm
  | voteToHalt => cases hm
  | terminate => cases hm

/-- The ledger of a run: `calls` are its calls, and the supersteps `computed` were computed without
failure. -/
structure Delivered (n : Nat) (calls : List (Call α)) (computed : List Nat)
    (visits : List (Visit α)) : Prop where
  made : Visit.calls visits = calls
  ledger : Ledger n visits
  /-- A superstep that was computed without failure visited every vertex. -/
  all : ∀ s ∈ computed, ∀ v, v < n → ∃ x ∈ visits, x.superstep = s ∧ x.vertex = v

/-- A workspace at the boundary before superstep `s`. -/
structure AsyncBoundary (job : Job α) (s : Nat) (visits : List (Visit α)) (ws : Workspace α) :
    Prop where
  inv : AsyncInv job visits ws
  early : ∀ x ∈ visits, x.superstep < s
  computed : ws.journal.computed = List.range s
  all : ∀ s' ∈ ws.journal.computed, ∀ v, v < job.graph.nodeCount →
    ∃ x ∈ visits, x.superstep = s' ∧ x.vertex = v

namespace AsyncBoundary

variable {job : Job α} {s : Nat} {visits : List (Visit α)} {ws ws' : Workspace α}

/-- Inside a superstep that has made no visit everything is as at its boundary. -/
theorem opened (h : AsyncBoundary job s visits ws) :
    AsyncWithin job s visits [] (ws.opened s) := by
  obtain ⟨hinv, hawake⟩ := h.inv.opened s
  refine ⟨?_, h.early, List.forall_mem_nil _, fun v _ => hawake v⟩
  rwa [List.append_nil]

/-- With a whole superstep more, every superstep that was computed visited every vertex. -/
theorem all_append (h : AsyncBoundary job s visits ws) {vs : List Nat} {new : List (Visit α)}
    (hvertices : new.map (·.vertex) = vs) (hsuperstep : ∀ x ∈ new, x.superstep = s)
    (hperm : vs.Perm (List.range job.graph.nodeCount)) :
    ∀ s' ∈ ws.journal.computed ++ [s], ∀ v, v < job.graph.nodeCount →
      ∃ x ∈ visits ++ new, x.superstep = s' ∧ x.vertex = v := by
  intro s' hs' v hv
  rcases List.mem_append.mp hs' with hbefore | hnow
  · obtain ⟨x, hx, hxs⟩ := h.all s' hbefore v hv
    exact ⟨x, List.mem_append_left _ hx, hxs⟩
  · -- the superstep visits everybody
    have hmem : v ∈ new.map (·.vertex) := by
      rw [hvertices, hperm.mem_iff, List.mem_range]
      exact hv
    obtain ⟨x, hx, hxv⟩ := List.mem_map.mp hmem
    refine ⟨x, List.mem_append_right _ hx, ?_, hxv⟩
    rw [hsuperstep x hx, List.mem_singleton.mp hnow]

/-- One superstep leads from boundary to boundary. -/
theorem step {control : Control} (h : AsyncBoundary job s visits ws)
    (hends : Workspace.SuperstepEnds job s ws (.ok control) ws') :
    ∃ visits', AsyncBoundary job (s + 1) visits' ws' := by
  obtain ⟨vs, ws₁, htraverses, hperm, hfinishes⟩ := hends.of_ok
  obtain ⟨new, hvertices, hwithin⟩ := h.opened.of_traverses htraverses
    (hperm.nodup_iff.mpr List.nodup_range)
  have hcomputed : ws'.journal.computed = ws.journal.computed ++ [s] := by
    rw [hfinishes.computed, htraverses.journal.1, (Workspace.journal_opened ws s).2.1]
  refine ⟨visits ++ new, hwithin.inv.congr hfinishes.halted hfinishes.frontier
    hfinishes.messenger (hfinishes.calls .compute), fun x hx => ?_, ?_, ?_⟩
  · rcases List.mem_append.mp hx with hold | hadded
    · exact Nat.lt_succ_of_lt (h.early x hold)
    · rw [hwithin.now x hadded]
      exact Nat.lt_succ_self s
  · rw [hcomputed, h.computed, List.range_succ]
  · rw [hcomputed]
    exact h.all_append hvertices hwithin.now hperm

/-- However a superstep ends, there is a ledger. -/
theorem delivered_of_ends {out : Except Stop Control} (h : AsyncBoundary job s visits ws)
    (hends : Workspace.SuperstepEnds job s ws out ws') :
    ∃ visits', Delivered job.graph.nodeCount (ws'.journal.calls .compute) ws'.journal.computed
      visits' := by
  obtain ⟨vs, ws₁, htraverses, hnodup, hcalls, hcomputed⟩ := hends.journal
  obtain ⟨new, hvertices, hwithin⟩ := h.opened.of_traverses htraverses hnodup
  refine ⟨visits ++ new, ?_, hwithin.inv.ledger, ?_⟩
  · rw [hcalls, hwithin.inv.calls]
  · -- a superstep that broke off does not count as computed
    rcases hcomputed with hsame | ⟨hperm, hmore⟩
    · rw [hsame]
      intro s' hs' v hv
      obtain ⟨x, hx, hxs⟩ := h.all s' hs' v hv
      exact ⟨x, List.mem_append_left _ hx, hxs⟩
    · rw [hmore]
      exact h.all_append hvertices hwithin.now hperm

/-- The first boundary has an empty ledger, since setting up sends nothing. -/
theorem of_set_up {ws₀ : Workspace α} {vs : List Nat} (hserves : ws₀.Serves job)
    (hnone : job.program.reducer = none) (hsingle : ws₀.messenger.isDoubleBuffered = false)
    (hfresh : ∀ v, ws₀.messenger.outbox v = [])
    (hjournal : ws₀.journal.calls .compute = [] ∧ ws₀.journal.computed = [])
    (h : Workspace.Traverses job .init 0 ws₀ vs ws) : AsyncBoundary job 0 [] ws := by
  obtain ⟨hmessenger, hhalted, hfrontier⟩ := h.set_up
  obtain ⟨hcomputed, -, hcalls⟩ := h.journal
  -- setting vertices up computes no superstep
  have hzero : ws.journal.computed = [] := hcomputed.trans hjournal.2
  refine ⟨⟨hserves.congr hhalted hfrontier hmessenger, hnone, hmessenger ▸ hsingle, ?_, .nil,
    fun v => ?_⟩, List.forall_mem_nil _, hzero, fun s hs => ?_⟩
  · exact (hcalls .compute (by decide)).trans hjournal.1
  · rw [hmessenger, hfresh]
    rfl
  · rw [hzero] at hs
    cases hs

/-- The invariant at a boundary is a ledger. -/
theorem delivered (h : AsyncBoundary job s visits ws) :
    Delivered job.graph.nodeCount (ws.journal.calls .compute) ws.journal.computed visits :=
  ⟨h.inv.calls.symm, h.inv.ledger, h.all⟩

end AsyncBoundary

/-- Every boundary of a run has a ledger. -/
theorem Workspace.StandsAt.asyncBoundary {job : Job α} {schedule : Schedule} {s : Nat}
    {ws₀ ws : Workspace α} (h : StandsAt job schedule ws₀ s ws)
    (hfirst : ∀ vs ws, Traverses job .init 0 { ws₀ with aborted := false, stats := .zero } vs ws →
      AsyncBoundary job 0 [] ws) : ∃ visits, AsyncBoundary job s visits ws := by
  refine @StandsAt.invariant _ _ _ _ (fun s ws => ∃ visits, AsyncBoundary job s visits ws) _ _ h
    (fun vs ws _ htraverses => ⟨[], hfirst vs ws htraverses⟩) ?_
  rintro s ws ws' ⟨visits, hboundary⟩ hends
  exact hboundary.step hends

/-- However the supersteps of a run end, there is a ledger. -/
theorem Workspace.RunEnds.delivered {job : Job α} {schedule : Schedule} {ws₀ ws : Workspace α}
    {out : Except Stop Ending} (h : RunEnds job schedule ws₀ out ws)
    (hnone : ws₀.journal.calls .compute = [] ∧ ws₀.journal.computed = [])
    (hfirst : ∀ vs ws, Traverses job .init 0 { ws₀ with aborted := false, stats := .zero } vs ws →
      AsyncBoundary job 0 [] ws) :
    ∃ visits, Delivered job.graph.nodeCount (ws.journal.calls .compute) ws.journal.computed
      visits := by
  obtain ⟨last, hcalls, hcomputed, -, hlast⟩ := h.journal_cases
  rw [hcalls, hcomputed]
  -- before set-up and after it nobody was called, so that the ledger is empty
  rcases hlast with rfl | ⟨vs, htraverses⟩ | ⟨s, hstands⟩ | ⟨s, before, stepOut, hstands, hends⟩
  · rw [hnone.1, hnone.2]
    exact ⟨[], rfl, .nil, List.forall_mem_nil _⟩
  · exact ⟨[], (hfirst vs last htraverses).delivered⟩
  · obtain ⟨visits, hboundary⟩ := hstands.asyncBoundary hfirst
    exact ⟨visits, hboundary.delivered⟩
  · obtain ⟨visits, hboundary⟩ := hstands.asyncBoundary hfirst
    exact hboundary.delivered_of_ends hends

/-- When the convergence check ends a run, nothing waits. -/
theorem AsyncInv.waitingFor_of_isQuiet {job : Job α} {visits : List (Visit α)} {ws : Workspace α}
    (h : AsyncInv job visits ws) (hquiet : ws.isQuiet = true) (v : Nat) :
    Call.waitingFor job.graph.nodeCount v (Visit.calls visits) = [] := by
  have hpending : ws.messenger.pending = false := by
    rw [Workspace.isQuiet, Bool.and_eq_true, Bool.not_eq_true'] at hquiet
    exact hquiet.2
  have hnone : ws.messenger.outbox v = [] := by
    by_contra hwaits
    rw [(Messenger.pending_iff h.serves.fits.messenger).mpr ⟨v, hwaits⟩] at hpending
    cases hpending
  have hperm := h.waiting v
  rw [hnone] at hperm
  exact List.nil_perm.mp hperm

/-- A move that visits a vertex settles what waits for it, and any other move calls nothing. -/
theorem AsyncBoundary.settles_move {job : Job α} {s : Nat} {visits : List (Visit α)}
    {ws : Workspace α} (h : AsyncBoundary job s visits ws) (moves : List Move) (m : Move) :
    let now := Workspace.during job s ws moves
    let next := Workspace.move job .compute s now m
    match Workspace.visited? now m with
    | none => next.2.journal.calls .compute = now.2.journal.calls .compute
    | some v => ∃ call?, next.2.journal.calls .compute
          = now.2.journal.calls .compute ++ call?.toList ∧
        (⟨s, v, call?⟩ : Visit α).Settles
          (Call.waitingFor job.graph.nodeCount v (now.2.journal.calls .compute)) := by
  dsimp only
  obtain ⟨dropped, hphase⟩ := @Workspace.phaseInv_moves _ job .compute s
    ((ws.transition (.running s)).prepare s) moves
  change Workspace.PhaseInv job .compute s (ws.opened s) _ dropped
    (Workspace.during job s ws moves).1 (Workspace.during job s ws moves).2 at hphase
  generalize Workspace.during job s ws moves = now,
    Workspace.visits job .compute s _ moves = visited at hphase ⊢
  have hdistinct := hphase.covered.nodup_iff.mpr List.nodup_range
  rw [List.append_assoc, List.nodup_append] at hdistinct
  obtain ⟨hnodup, -, hdisjoint⟩ := hdistinct
  obtain ⟨new, rfl, hwithin⟩ := h.opened.of_traverses hphase.traverses hnodup
  rcases @Workspace.calls_move _ job .compute s now m with
    ⟨hnone, hcalls⟩ | ⟨v, hahead, hvisited, hcalls⟩
  · rw [hnone]
    exact hcalls .compute
  · rw [hvisited]
    -- a vertex that is still ahead was not visited yet
    have hunvisited : v ∉ new.map (·.vertex) := fun hmem =>
      hdisjoint v hmem v (List.mem_append_right _ hahead) rfl
    have hv : v < job.graph.nodeCount := by
      rw [← List.mem_range, ← hphase.covered.mem_iff]
      exact List.mem_append_right _ hahead
    obtain ⟨call?, hnext⟩ := hwithin.visit hv hunvisited
    have hledger := hnext.inv.ledger
    have hall := hnext.inv.calls
    rw [← List.append_assoc] at hledger hall
    refine ⟨call?, ?_, ?_⟩
    · rw [hcalls, hall, hwithin.inv.calls]
      cases call? <;> simp [Visit.calls]
    · rw [hwithin.inv.calls]
      exact hledger.settled _ _ [] rfl

/-- The record of a run with the asynchronous messenger. -/
structure ExactlyOnce (n : Nat) (calls : List (Call α)) (computed : List Nat)
    (visits : List (Visit α)) : Prop extends Delivered n calls computed visits where
  /-- Every message that was sent was handed over, once, or still waits. -/
  conserved : ∀ v, (Call.allHandedTo v calls ++ Call.waitingFor n v calls).Perm
    (Call.allSentTo n v calls)
  /-- A target that is visited later in the superstep is handed the message then. -/
  now : ∀ (before after : List (Visit α)) (x : Visit α) (b : Call α) (v : Nat) (m : α),
    visits = before ++ x :: after → x.call? = some b → m ∈ b.sentTo n v → ∀ y ∈ after,
      y.vertex = v → y.superstep = x.superstep → ∃ c, y.call? = some c ∧ m ∈ c.inbox
  /-- Any other target is handed the message in the next superstep, if that is computed without
  failure. -/
  next : ∀ (before after : List (Visit α)) (x : Visit α) (b : Call α) (v : Nat) (m : α),
    visits = before ++ x :: after → x.call? = some b → m ∈ b.sentTo n v →
      (∀ y ∈ after, y.vertex = v → y.superstep ≠ x.superstep) → x.superstep + 1 ∈ computed →
        ∃ y ∈ after, y.vertex = v ∧ y.superstep = x.superstep + 1 ∧
          ∃ c, y.call? = some c ∧ m ∈ c.inbox

theorem Delivered.exactlyOnce {n : Nat} {calls : List (Call α)} {computed : List Nat}
    {visits : List (Visit α)} (h : Delivered n calls computed visits) :
    ExactlyOnce n calls computed visits where
  toDelivered := h
  conserved v := h.made ▸ h.ledger.conserved v
  now before after x b v m heq hb hm y hy hv hs :=
    h.ledger.arrives_now heq hb (hv ▸ hm) hy hs
  next before after x b v m heq hb hm hnot hs := by
    obtain ⟨y, hy, hys, hyv⟩ := h.all _ hs v (Call.lt_of_mem_sentTo hm)
    obtain ⟨hafter, hhanded⟩ := h.ledger.arrives_next heq hb (hyv ▸ hm) hy hys
      (hyv ▸ hnot)
    exact ⟨y, hafter, hyv, hys, hhanded⟩

/-- Every run with the asynchronous messenger, whatever the schedule, delivers every message exactly
once. It has a ledger of visits, in which every message is handed over in the superstep it was sent
in if its target is visited after that, and otherwise in the next one, if that is computed without
failure, as it is if it ends without failure. At every moment of every superstep a visit hands over
all that waits for its vertex, to a call that finds the vote taken back. And a run that the
convergence check ends leaves no message waiting. -/
theorem asynchronous_delivery [Scalar α] {graph : Graph α} {config : Config} {program : Program α}
    {flag : Flag} {r : Run α} (hcreate : Run.create graph config program flag = .ok r)
    (hnone : program.reducer = none) (hasync : config.isAsynchronous = true)
    (schedule : Schedule) :
    (∀ stats ∈ (r.execute schedule).2.journal.figures,
      stats.superstep ∈ (r.execute schedule).2.journal.computed) ∧
    (∃ visits, ExactlyOnce graph.nodeCount ((r.execute schedule).2.journal.calls .compute)
      (r.execute schedule).2.journal.computed visits) ∧
    (∀ schema s ws moves m, program.schema config = .ok schema →
      Workspace.StandsAt r.job schedule (r.opening schema) s ws →
      let now := Workspace.during r.job s ws moves
      let next := Workspace.move r.job .compute s now m
      match Workspace.visited? now m with
      | none => next.2.journal.calls .compute = now.2.journal.calls .compute
      | some v => ∃ call?, next.2.journal.calls .compute
            = now.2.journal.calls .compute ++ call?.toList ∧
          (⟨s, v, call?⟩ : Visit α).Settles
            (Call.waitingFor graph.nodeCount v (now.2.journal.calls .compute))) ∧
    ∀ schema result, program.schema config = .ok schema →
      (r.execute schedule).1 = .ok result → result.didConverge = true →
      (∃ ws, Workspace.Computes r.job schedule (r.opening schema) result.ranIterations
        (.ok .halt) ws) ∨
      ∀ v, Call.waitingFor graph.nodeCount v ((r.execute schedule).2.journal.calls .compute)
        = [] := by
  obtain ⟨hgraph, hprogram, hconfig⟩ := Run.job_of_create hcreate
  have hfirst (schema : Schema α) (vs : List Nat) (ws : Workspace α)
      (htraverses : Workspace.Traverses r.job .init 0
        { r.opening schema with aborted := false, stats := .zero } vs ws) :
      AsyncBoundary r.job 0 [] ws := by
    obtain ⟨hcalls, hcomputed, -⟩ := Run.journal_opening hcreate schema
    obtain ⟨hserves, -⟩ := r.serves_opening schema
    refine .of_set_up (hserves.congr rfl rfl rfl) (hprogram ▸ hnone) ?_
      (Messenger.outbox_create _ _ _) ⟨hcalls .compute, hcomputed⟩ htraverses
    exact hserves.isDoubleBuffered.trans (by rw [hprogram, hconfig, hnone, hasync]; rfl)
  refine ⟨fun stats => Run.superstep_mem_computed hcreate schedule, ?_, ?_, ?_⟩
  · cases hschema : program.schema config with
    | error v =>
      obtain ⟨-, hcalls, hcomputed, -⟩ := Run.execute_of_schema_error hcreate hschema schedule
      rw [hcalls, hcomputed]
      have hempty : Delivered graph.nodeCount [] [] ([] : List (Visit α)) :=
        ⟨rfl, .nil, List.forall_mem_nil _⟩
      exact ⟨[], hempty.exactlyOnce⟩
    | ok schema =>
      obtain ⟨-, -, hcalls, hcomputed, -⟩ := Run.execute_of_schema hcreate hschema schedule
      obtain ⟨hempty, hzero, -⟩ := Run.journal_opening hcreate schema
      obtain ⟨visits, hdelivered⟩ := (Workspace.runEnds_iterate r.job schedule
        (r.opening schema)).delivered ⟨hempty .compute, hzero⟩ (hfirst schema)
      rw [hcalls, hcomputed, ← hgraph]
      exact ⟨visits, hdelivered.exactlyOnce⟩
  · intro schema s ws moves m _ hstands
    obtain ⟨visits, hboundary⟩ := hstands.asyncBoundary (hfirst schema)
    rw [← hgraph]
    exact hboundary.settles_move moves m
  · intro schema result hschema hresult hconverge
    obtain ⟨houtcome, -, hcalls, -⟩ := Run.execute_of_schema hcreate hschema schedule
    rw [hresult] at houtcome
    rw [hcalls]
    obtain ⟨ending, hending⟩ : ∃ ending, ((r.opening schema).iterate r.job schedule).1 = .ok ending
        ∧ ending.didConverge = true ∧ ending.ranIterations = result.ranIterations := by
      revert houtcome
      cases ((r.opening schema).iterate r.job schedule).1 with
      | error stop =>
        intro h
        cases h
      | ok ending =>
        intro houtcome
        obtain rfl := Except.ok.inj houtcome
        exact ⟨ending, rfl, hconverge, rfl⟩
    obtain ⟨hok, hconverge, hiterations⟩ := hending
    have hends := Workspace.runEnds_iterate r.job schedule (r.opening schema)
    rw [hok] at hends
    rcases hends.of_converged hconverge with ⟨ws, hhalt⟩ | ⟨ws, hlast, hquiet, hws⟩
    · exact .inl ⟨ws, hiterations ▸ hhalt⟩
    · refine .inr fun v => ?_
      -- after its last superstep the run stood at a quiet boundary
      obtain ⟨before, hstands, -, -, hsuperstep⟩ := hlast
      obtain ⟨visits, hboundary⟩ := hstands.asyncBoundary (hfirst schema)
      have hstep := Workspace.SuperstepEnds.of_superstep hsuperstep
      obtain ⟨visits', hafter⟩ := hboundary.step hstep
      rw [hws, Workspace.transition, Journal.calls_push, hafter.inv.calls, ← hgraph]
      change Call.waitingFor _ v (Visit.calls visits' ++ []) = []
      rw [List.append_nil]
      exact hafter.inv.waitingFor_of_isQuiet hquiet v

/-- The message of superstep 0 finds its target not visited yet. -/
theorem asynchronous_delivery_relay :
    let last := ((Relay.run none true false).execute Relay.takingTurns).2
    last.journal.computed = [0] ∧
      (last.journal.calls .compute).map (fun c => (c.superstep, c.vertex)) = [(0, 0), (0, 1)] ∧
      ∃ visits : List (Visit Float),
        ExactlyOnce 2 (last.journal.calls .compute) last.journal.computed visits := by
  refine ⟨by decide +kernel, by decide +kernel, ?_⟩
  exact (asynchronous_delivery (Relay.create_run none true false) rfl rfl Relay.takingTurns).2.1

end Superstep
