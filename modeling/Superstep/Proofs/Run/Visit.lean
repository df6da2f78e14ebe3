import Mathlib
import Superstep.Proofs.Message.Messenger
import Superstep.Run.Workspace

/-!
# What a visit does

A visit of a computing phase either passes a sleeping vertex over and changes nothing, or makes one
call of the program. `Workspace.Called` lists everything a call changes, in terms of the views
`Messenger.inbox` and `outbox`, so that nothing later opens `visitCompute`.

## Key results

- `Workspace.perform_spec`: the effects of a call are carried out up to the first impossible one
- `Workspace.visitCompute_of_asleep`: a visit to a sleeping vertex without messages changes nothing
- `Workspace.called_visitCompute`: any other visit makes the call `Workspace.nextCall`
-/

namespace Superstep

variable {α : Type}

/-! ## Effects -/

namespace Effect

/-- Whether an effect can be carried out among `n` vertices: a message needs a target. -/
def isPossible (n : Nat) : Effect α → Bool
  | .send target _ => decide (target < n)
  | .voteToHalt | .terminate => true

def isSend : Effect α → Bool
  | .send _ _ => true
  | _ => false

def isVote : Effect α → Bool
  | .voteToHalt => true
  | _ => false

def isTerminate : Effect α → Bool
  | .terminate => true
  | _ => false

/-- The value that an effect sends to a vertex, if it does. -/
def valueFor? (v : Nat) : Effect α → Option α
  | .send target value => if target = v then some value else none
  | _ => none

/-- The values that effects send to a vertex, in order. -/
def valuesFor (v : Nat) (effects : List (Effect α)) : List α := effects.filterMap (valueFor? v)

/-- What two lists of effects send to a vertex comes one after the other. -/
theorem valuesFor_append (v : Nat) (effects later : List (Effect α)) :
    valuesFor v (effects ++ later) = valuesFor v effects ++ valuesFor v later :=
  List.filterMap_append

end Effect

namespace Call

/-- The effects of a call that were carried out: those before the first impossible one. -/
def performed (n : Nat) (c : Call α) : List (Effect α) := c.reply.effects.takeWhile (·.isPossible n)

/-- The values that a call sent to a vertex, in order. -/
def sentTo (n v : Nat) (c : Call α) : List α := Effect.valuesFor v (c.performed n)

/-- Number of messages that a call sent. -/
def sendCount (n : Nat) (c : Call α) : Nat := (c.performed n).countP Effect.isSend

/-- Whether a call voted to halt. -/
def voted (n : Nat) (c : Call α) : Bool := (c.performed n).any Effect.isVote

/-- Whether a call asked the run to stop. -/
def asked (n : Nat) (c : Call α) : Bool := (c.performed n).any Effect.isTerminate

/-- Whether a call did all it set out to do. -/
def succeeded (n : Nat) (c : Call α) : Bool :=
  c.reply.effects.all (·.isPossible n) && c.reply.outcome.toBool

end Call

namespace Messenger

/-- What further messages make of those that were sent to their vertex before. -/
def gatherAll (r : Option (Reducer α)) (sent waiting : List α) : List α :=
  sent.foldl (fun waiting x => gather r x waiting) waiting

/-- Messages may be gathered in two parts. -/
theorem gatherAll_append (r : Option (Reducer α)) (sent later waiting : List α) :
    gatherAll r (sent ++ later) waiting = gatherAll r later (gatherAll r sent waiting) :=
  List.foldl_append

/-- What was collected from the messages so far goes on being collected. -/
theorem gatherAll_collected (r : Option (Reducer α)) (sent later : List α) :
    gatherAll r later (collected r sent) = collected r (sent ++ later) := by
  induction later generalizing sent with
  | nil => rw [List.append_nil]; rfl
  | cons x later ih =>
    -- the next message joins those that were collected before
    rw [gatherAll, List.foldl_cons, ← collected_concat]
    change gatherAll r later (collected r (sent ++ [x])) = _
    rw [ih, List.append_assoc]
    rfl

/-- Without a reducer every message is kept, the latest first. -/
theorem gatherAll_none (sent waiting : List α) :
    gatherAll none sent waiting = sent.reverse ++ waiting := by
  induction sent generalizing waiting with
  | nil => rfl
  | cons x sent ih =>
    rw [gatherAll, List.foldl_cons]
    change gatherAll none sent (x :: waiting) = _
    rw [ih, List.reverse_cons, List.append_assoc]
    rfl

end Messenger

/-- Asking twice is asking once. -/
theorem Flag.request_request (f : Flag) : f.request.request = f.request := by
  cases f with
  | mk raised held => cases raised <;> cases held <;> rfl

/-- A program that does not hold the flag asks in vain. -/
theorem Flag.request_of_not_held {f : Flag} (h : f.heldByProgram = false) : f.request = f := by
  cases f with
  | mk raised held => cases h; cases raised <;> rfl

namespace Workspace

/-! ## Carrying out effects -/

/-- The workspace serves `n` vertices. -/
structure Fits (n : Nat) (ws : Workspace α) : Prop where
  halted : ws.halted.size = n
  frontier : ws.frontier.size = n
  messenger : ws.messenger.Valid n

/-- Carries out one effect that is possible. -/
def carryOut (vertex : Nat) (ws : Workspace α) : Effect α → Workspace α
  | .send target value => ws.post target value
  | .voteToHalt => ws.voteToHalt vertex
  | .terminate => { ws with flag := ws.flag.request }

/-- What possible effects of a call of `vertex` change. -/
structure Carried (n vertex : Nat) (effects : List (Effect α)) (ws ws' : Workspace α) : Prop where
  frame : ws' = { ws with
    flag := ws'.flag, halted := ws'.halted, messenger := ws'.messenger, stats := ws'.stats }
  fits : ws'.Fits n
  flag : ws'.flag = if effects.any Effect.isTerminate then ws.flag.request else ws.flag
  halted : ∀ w, ws'.halted.contains w
    = (ws.halted.contains w || decide (w = vertex) && effects.any Effect.isVote)
  reducer? : ws'.messenger.reducer? = ws.messenger.reducer?
  isDoubleBuffered : ws'.messenger.isDoubleBuffered = ws.messenger.isDoubleBuffered
  faces : ∀ s, ws.messenger.Faces s → ws'.messenger.Faces s
  inbox : ws.messenger.isDoubleBuffered = true →
    ∀ w, ws'.messenger.inbox w = ws.messenger.inbox w
  outbox : ∀ w, ws'.messenger.outbox w
    = Messenger.gatherAll ws.messenger.reducer? (Effect.valuesFor w effects) (ws.messenger.outbox w)
  invocations : ws'.stats.invocations = ws.stats.invocations
  messagesSent : ws'.stats.messagesSent = ws.stats.messagesSent + effects.countP Effect.isSend
  newlyHalted : ws'.stats.newlyHalted = ws.stats.newlyHalted
    + if ws.halted.contains vertex = false ∧ effects.any Effect.isVote = true then 1 else 0

/-- No effect, no change. -/
theorem Carried.refl {n : Nat} {ws : Workspace α} (h : ws.Fits n) (vertex : Nat) :
    Carried n vertex [] ws ws where
  frame := rfl
  fits := h
  flag := rfl
  halted w := by simp
  reducer? := rfl
  isDoubleBuffered := rfl
  faces _ hs := hs
  inbox _ _ := rfl
  outbox _ := rfl
  invocations := rfl
  messagesSent := rfl
  newlyHalted := by simp

/-- What is carried out in two parts is carried out. -/
theorem Carried.trans {n vertex : Nat} {effects later : List (Effect α)} {ws ws' ws'' : Workspace α}
    (h : Carried n vertex effects ws ws') (h' : Carried n vertex later ws' ws'') :
    Carried n vertex (effects ++ later) ws ws'' where
  frame := by
    -- both frames are substituted, so that the updates fall together
    have hframe := h.frame
    have hframe' := h'.frame
    generalize ws'.flag = flag, ws'.halted = halted, ws'.messenger = messenger,
      ws'.stats = stats at hframe
    generalize ws''.flag = flag', ws''.halted = halted', ws''.messenger = messenger',
      ws''.stats = stats' at hframe'
    subst hframe hframe'
    rfl
  fits := h'.fits
  flag := by
    rw [h'.flag, h.flag, List.any_append]
    cases effects.any Effect.isTerminate <;> cases later.any Effect.isTerminate <;>
      simp [Flag.request_request]
  halted w := by
    rw [h'.halted, h.halted, List.any_append]
    -- a vote stays a vote
    cases ws.halted.contains w <;> cases decide (w = vertex) <;> simp
  reducer? := h'.reducer?.trans h.reducer?
  isDoubleBuffered := h'.isDoubleBuffered.trans h.isDoubleBuffered
  faces s hs := h'.faces s (h.faces s hs)
  inbox hd w := (h'.inbox (h.isDoubleBuffered.trans hd) w).trans (h.inbox hd w)
  outbox w := by
    rw [h'.outbox, h.outbox, h.reducer?, Effect.valuesFor_append, Messenger.gatherAll_append]
  invocations := h'.invocations.trans h.invocations
  messagesSent := by
    rw [h'.messagesSent, h.messagesSent, List.countP_append]
    omega
  newlyHalted := by
    -- a vote is new only once, whichever of the two parts it is in
    rw [h'.newlyHalted, h.newlyHalted, h.halted vertex, List.any_append]
    cases ws.halted.contains vertex <;> cases effects.any Effect.isVote <;> simp

/-- One possible effect does what is expected of it. -/
theorem carried_carryOut {n vertex : Nat} {ws : Workspace α} (h : ws.Fits n) (hv : vertex < n)
    (e : Effect α) (he : e.isPossible n = true) :
    Carried n vertex [e] ws (carryOut vertex ws e) := by
  have hrefl := Carried.refl h vertex
  cases e with
  | send target value =>
    have ht : target < n := of_decide_eq_true he
    exact {
      frame := rfl
      fits := ⟨h.halted, h.frontier, h.messenger.post ht value⟩
      flag := rfl
      halted := fun w => by simp [carryOut, post, Effect.isVote]
      reducer? := Messenger.reducer?_post _ _ _
      isDoubleBuffered := Messenger.isDoubleBuffered_post _ _ _
      faces := fun s hs => hs.post target value
      inbox := fun hd w => Messenger.inbox_post_of_isDoubleBuffered hd target value w
      outbox := fun w => by
        rw [carryOut, post, Messenger.outbox_post h.messenger ht, Effect.valuesFor,
          List.filterMap_cons, Effect.valueFor?]
        split <;> rfl
      invocations := rfl
      messagesSent := rfl
      newlyHalted := by simp [carryOut, post, Effect.isVote] }
  | voteToHalt =>
    -- only the first vote counts, a later one finds the bit set
    cases hbit : ws.halted.contains vertex with
    | true =>
      have hsame : carryOut vertex ws .voteToHalt = ws := by rw [carryOut, voteToHalt, if_pos hbit]
      rw [hsame]
      exact { hrefl with
        halted := fun w => by
          by_cases hw : w = vertex
          · rw [hw, hbit, Bool.true_or]
          · simp [hw]
        newlyHalted := by simp [hbit] }
    | false =>
      have hstep : carryOut vertex ws .voteToHalt = { ws with
          halted := ws.halted.insert vertex
          stats := { ws.stats with newlyHalted := ws.stats.newlyHalted + 1 } } := by
        rw [carryOut, voteToHalt, if_neg (by simp [hbit])]
      rw [hstep]
      exact { hrefl with
        frame := rfl
        fits := ⟨(ws.halted.size_insert vertex).trans h.halted, h.frontier, h.messenger⟩
        halted := fun w => by
          rw [BitSet.contains_insert, h.halted]
          simp [Effect.isVote, hv, eq_comm]
        newlyHalted := by simp [hbit, Effect.isVote] }
  | terminate =>
    exact { hrefl with
      frame := rfl
      fits := ⟨h.halted, h.frontier, h.messenger⟩
      flag := rfl
      halted := fun w => by simp [carryOut, Effect.isVote]
      newlyHalted := by simp [carryOut, Effect.isVote] }

/-- Possible effects are carried out one after the other. -/
theorem carried_foldl {n vertex : Nat} (hv : vertex < n) (effects : List (Effect α))
    {ws : Workspace α} (h : ws.Fits n) (heffects : ∀ e ∈ effects, e.isPossible n = true) :
    Carried n vertex effects ws (effects.foldl (carryOut vertex) ws) := by
  -- the effects are all possible, so each of them is carried out
  induction effects generalizing ws with
  | nil => exact Carried.refl h vertex
  | cons e effects ih =>
    obtain ⟨he, hrest⟩ := List.forall_mem_cons.mp heffects
    have hfirst := carried_carryOut h hv e he
    exact hfirst.trans (ih hfirst.fits hrest)

/-- Effects are carried out up to the first impossible one, which breaks the call off. -/
theorem perform_spec {n vertex : Nat} (hv : vertex < n) (effects : List (Effect α))
    {ws : Workspace α} (h : ws.Fits n) :
    (perform vertex effects ws).2
        = (effects.takeWhile (·.isPossible n)).foldl (carryOut vertex) ws ∧
      ((perform vertex effects ws).1 = .ok () ↔ effects.all (·.isPossible n) = true) := by
  -- the induction follows `perform`, which stops at a message without target
  induction effects generalizing ws with
  | nil => exact ⟨rfl, by simp [perform]⟩
  | cons e effects ih =>
    cases he : e.isPossible n with
    | true =>
      have hstep : perform vertex (e :: effects) ws
          = perform vertex effects (carryOut vertex ws e) := by
        cases e with
        | send target value =>
          have hnone := (Messenger.refusal?_eq_none_iff h.messenger target).mpr
            (of_decide_eq_true he)
          rw [perform, hnone]
          rfl
        | voteToHalt => rfl
        | terminate => rfl
      obtain ⟨hlast, hok⟩ := ih (carried_carryOut h hv e he).fits
      rw [hstep, List.takeWhile_cons_of_pos he, List.foldl_cons]
      exact ⟨hlast, by rw [hok, List.all_cons, he, Bool.true_and]⟩
    | false =>
      -- only a message can be impossible
      cases e with
      | send target value =>
        have hsome : ws.messenger.refusal? target ≠ none := by
          rw [Ne, Messenger.refusal?_eq_none_iff h.messenger]
          exact of_decide_eq_false he
        obtain ⟨violation, hviolation⟩ := Option.ne_none_iff_exists'.mp hsome
        rw [perform, hviolation, List.takeWhile_cons_of_neg (by rw [he]; decide)]
        exact ⟨rfl, by simp [he]⟩
      | voteToHalt => cases he
      | terminate => cases he

/-! ## Calls -/

/-- Whether a visit makes a call. -/
def isAwake (ws : Workspace α) (vertex : Nat) : Bool :=
  ws.frontier.contains vertex || ws.messenger.hasMail vertex

/-- The call that a visit of a computing phase makes, if it makes one. A vertex that was woken late
has lost its vote by then. -/
def nextCall (job : Job α) (superstep vertex : Nat) (ws : Workspace α) : Call α where
  phase := .compute
  superstep := superstep
  vertex := vertex
  late := !ws.frontier.contains vertex
  halted := ws.frontier.contains vertex && ws.halted.contains vertex
  inbox := ws.messenger.inbox vertex
  reply := job.program.compute (ws.view job superstep vertex (ws.messenger.inbox vertex))

/-- What a call changes. -/
structure Called (n : Nat) (c : Call α) (ws ws' : Workspace α) : Prop where
  fits : ws'.Fits n
  state : ws'.state = ws.state
  aborted : ws'.aborted = ws.aborted
  frontier : ws'.frontier = ws.frontier
  journal : ws'.journal = ws.journal.push (.call c)
  values : ws'.values = ws.values.setRow c.vertex c.reply.row
  flag : ws'.flag = if c.asked n then ws.flag.request else ws.flag
  halted : ∀ w, ws'.halted.contains w = (ws.halted.contains w && !(c.late && decide (w = c.vertex))
    || decide (w = c.vertex) && c.voted n)
  reducer? : ws'.messenger.reducer? = ws.messenger.reducer?
  isDoubleBuffered : ws'.messenger.isDoubleBuffered = ws.messenger.isDoubleBuffered
  faces : ∀ s, ws.messenger.Faces s → ws'.messenger.Faces s
  inbox : ws.messenger.isDoubleBuffered = true →
    ∀ w, ws'.messenger.inbox w = ws.messenger.inbox w
  outbox : ∀ w, ws'.messenger.outbox w = Messenger.gatherAll ws.messenger.reducer? (c.sentTo n w)
    ((ws.messenger.afterReceiving c.vertex).outbox w)
  invocations : ws'.stats.invocations = ws.stats.invocations + 1
  messagesSent : ws'.stats.messagesSent = ws.stats.messagesSent + c.sendCount n
  newlyHalted : ws'.stats.newlyHalted = ws.stats.newlyHalted
    + if c.halted = false ∧ c.voted n = true then 1 else 0

/-- The counters of some calls become those of one more, if its vertex did not sleep. -/
theorem Called.stats_concat {n : Nat} {c : Call α} {cs : List (Call α)} {ws ws' : Workspace α}
    (h : Called n c ws ws') (hhalted : c.halted = false)
    (hstats : ws.stats = ⟨cs.length, (cs.map (·.sendCount n)).sum, cs.countP (·.voted n)⟩) :
    ws'.stats = ⟨(cs ++ [c]).length, ((cs ++ [c]).map (·.sendCount n)).sum,
      (cs ++ [c]).countP (·.voted n)⟩ := by
  have hinvocations := h.invocations
  have hsent := h.messagesSent
  have hnewly := h.newlyHalted
  rw [hstats] at hinvocations hsent hnewly
  -- the vertex did not sleep, so a vote in the call is a new one
  rw [hhalted] at hnewly
  cases hafter : ws'.stats with
  | mk invocations messagesSent newlyHalted =>
    rw [hafter] at hinvocations hsent hnewly
    simp only at hinvocations hsent hnewly
    rw [hinvocations, hsent, hnewly]
    simp [List.countP_append, List.countP_cons]

/-- A visit to a sleeping vertex without messages changes nothing. -/
theorem visitCompute_of_asleep {job : Job α} {s v : Nat} {ws : Workspace α}
    (h : ws.isAwake v = false) : ws.visitCompute job s v = (.ok (), ws) := by
  obtain ⟨hfrontier, hmail⟩ := Bool.or_eq_false_iff.mp h
  rw [visitCompute, if_neg (by simp [hfrontier]), if_neg (by simp [hmail])]

/-- The workspace in which the effects of a call are carried out. -/
def handOver (c : Call α) (ws : Workspace α) : Workspace α :=
  { ws with
    values := ws.values.setRow c.vertex c.reply.row
    messenger := ws.messenger.afterReceiving c.vertex
    stats := { ws.stats with invocations := ws.stats.invocations + 1 }
    journal := ws.journal.push (.call c) }

/-- How a call ends after its effects. -/
def concluded (c : Call α) :
    Except Violation Unit × Workspace α → Except Fault Unit × Workspace α
  | (.error violation, ws) => (.error (.violation violation), ws)
  | (.ok (), ws) => (c.reply.outcome, ws)

/-- Making a call hands the row over, carries the effects out and ends as the reply says. -/
private theorem callCompute_spec {n : Nat} {job : Job α} {s v : Nat} {late : Bool}
    {ws : Workspace α} (h : ws.Fits n) (hv : v < n) {c : Call α}
    (hc : c = ⟨.compute, s, v, late, ws.halted.contains v, ws.messenger.inbox v,
      job.program.compute (ws.view job s v (ws.messenger.inbox v))⟩) :
    Carried n v (c.performed n) (ws.handOver c) (callCompute job s v late ws).2 ∧
      ((callCompute job s v late ws).1 = .ok () ↔ c.succeeded n = true) := by
  -- the messages are handed over before the call's own are sent
  have hfits : (ws.handOver c).Fits n := ⟨h.halted, h.frontier, h.messenger.afterReceiving _⟩
  have hvertex : c.vertex = v := by rw [hc]
  obtain ⟨hlast, hok⟩ := perform_spec hv c.reply.effects hfits
  have hcarried := carried_foldl hv (c.performed n) hfits fun e he => List.mem_takeWhile_imp he
  have hstep : callCompute job s v late ws
      = concluded c (perform v c.reply.effects (ws.handOver c)) := by
    rw [hc]
    rfl
  rw [hstep]
  rw [Call.performed, ← hlast] at hcarried
  rw [Call.succeeded, Bool.and_eq_true, ← hok]
  generalize perform v c.reply.effects (ws.handOver c) = performed at hcarried ⊢
  obtain ⟨result, last⟩ := performed
  cases result with
  | error violation => exact ⟨hcarried, by simp [concluded]⟩
  | ok _ =>
    refine ⟨hcarried, ?_⟩
    cases hreply : c.reply.outcome <;> simp [concluded, hreply, Except.toBool]

/-- A visit to a vertex that is awake, or that messages reached, makes the next call. -/
theorem called_visitCompute {n : Nat} {job : Job α} {s v : Nat} {ws : Workspace α} (h : ws.Fits n)
    (hv : v < n) (hawake : ws.isAwake v = true) :
    Called n (ws.nextCall job s v) ws (ws.visitCompute job s v).2 ∧
      ((ws.visitCompute job s v).1 = .ok () ↔ (ws.nextCall job s v).succeeded n = true) := by
  -- a late call takes the vote back first; `ws₀` is what the call starts from
  obtain ⟨ws₀, hws₀, hstep⟩ : ∃ ws₀ : Workspace α,
      ws₀ = { ws with halted :=
        if ws.frontier.contains v then ws.halted else ws.halted.erase v } ∧
      ws.visitCompute job s v = callCompute job s v (!ws.frontier.contains v) ws₀ := by
    refine ⟨_, rfl, ?_⟩
    cases hfrontier : ws.frontier.contains v with
    | true => rw [visitCompute, if_pos hfrontier]; rfl
    | false =>
      rw [isAwake, hfrontier, Bool.false_or] at hawake
      rw [visitCompute, if_neg (by simp [hfrontier]), if_pos hawake]
      rfl
  -- what becomes of the votes before the call sees them
  have hhalted (w : Nat) : ws₀.halted.contains w
      = (ws.halted.contains w && !(!ws.frontier.contains v && decide (w = v))) := by
    rw [hws₀]
    cases ws.frontier.contains v with
    | true => simp
    | false => simp [BitSet.contains_erase, eq_comm]
  have hcall : ws.nextCall job s v = ⟨.compute, s, v, !ws.frontier.contains v,
      ws₀.halted.contains v, ws₀.messenger.inbox v,
      job.program.compute (ws₀.view job s v (ws₀.messenger.inbox v))⟩ := by
    rw [hhalted, hws₀, nextCall, Bool.and_comm]
    simp [view]
  have hfits : ws₀.Fits n := by
    rw [hws₀]
    refine ⟨?_, h.frontier, h.messenger⟩
    dsimp only
    split <;> simp [h.halted]
  obtain ⟨hcarried, hok⟩ := callCompute_spec hfits hv hcall
  rw [hstep]
  refine ⟨?_, hok⟩
  generalize (callCompute job s v (!ws.frontier.contains v) ws₀).2 = ws' at hcarried ⊢
  have hframe := hcarried.frame
  subst hws₀
  exact {
    fits := hcarried.fits
    state := (congrArg Workspace.state hframe :)
    aborted := (congrArg Workspace.aborted hframe :)
    frontier := (congrArg Workspace.frontier hframe :)
    journal := (congrArg Workspace.journal hframe :)
    values := (congrArg Workspace.values hframe :)
    flag := hcarried.flag
    halted := fun w => by
      rw [hcarried.halted]
      exact congrArg (· || _) (hhalted w)
    reducer? := hcarried.reducer?.trans (Messenger.reducer?_afterReceiving _ v)
    isDoubleBuffered := hcarried.isDoubleBuffered.trans
      (Messenger.isDoubleBuffered_afterReceiving _ v)
    faces := fun s hs => hcarried.faces s (hs.afterReceiving v)
    inbox := fun hd w => by
      rw [hcarried.inbox ((Messenger.isDoubleBuffered_afterReceiving _ v).trans hd)]
      exact congrArg (·.inbox w) (Messenger.afterReceiving_of_isDoubleBuffered hd v)
    outbox := fun w => by
      rw [hcarried.outbox]
      exact congrArg (Messenger.gatherAll · _ _) (Messenger.reducer?_afterReceiving _ v)
    invocations := hcarried.invocations
    messagesSent := hcarried.messagesSent
    newlyHalted := by
      rw [hcarried.newlyHalted, hcall]
      rfl }

/-! ## What any visit keeps -/

/-- A change that does not touch the abort mark and does not lower the flag, nor raise it unless the
program holds it. -/
structure Keeps (ws ws' : Workspace α) : Prop where
  aborted : ws'.aborted = ws.aborted
  raised : ws.flag.raised = true → ws'.flag.raised = true
  /-- A flag that the program does not hold stays as it is. -/
  flag : ws.flag.heldByProgram = false → ws'.flag = ws.flag

/-- No change keeps everything. -/
theorem Keeps.refl (ws : Workspace α) : Keeps ws ws := ⟨rfl, id, fun _ => rfl⟩

/-- Two changes that keep something keep it together. -/
theorem Keeps.trans {ws ws' ws'' : Workspace α} (h : Keeps ws ws') (h' : Keeps ws' ws'') :
    Keeps ws ws'' :=
  ⟨h'.aborted.trans h.aborted, h'.raised ∘ h.raised,
    fun hheld => (h'.flag (h.flag hheld ▸ hheld)).trans (h.flag hheld)⟩

/-- Effects keep the mark and the flag, and log nothing. -/
theorem keeps_perform {vertex : Nat} (effects : List (Effect α)) (ws : Workspace α) :
    Keeps ws (perform vertex effects ws).2 ∧
      (perform vertex effects ws).2.journal = ws.journal := by
  induction effects generalizing ws with
  | nil => exact ⟨Keeps.refl ws, rfl⟩
  | cons e effects ih =>
    cases e with
    | send target value =>
      rw [perform]
      split
      · -- the message is refused, so nothing comes after it
        exact ⟨Keeps.refl ws, rfl⟩
      · obtain ⟨hkeeps, hjournal⟩ := ih (ws.post target value)
        exact ⟨⟨hkeeps.aborted, hkeeps.raised, hkeeps.flag⟩, hjournal⟩
    | voteToHalt =>
      have hvote : Keeps ws (ws.voteToHalt vertex) ∧
          (ws.voteToHalt vertex).journal = ws.journal := by
        unfold voteToHalt
        split
        · exact ⟨Keeps.refl ws, rfl⟩
        · exact ⟨⟨rfl, id, fun _ => rfl⟩, rfl⟩
      obtain ⟨hkeeps, hjournal⟩ := ih (ws.voteToHalt vertex)
      exact ⟨hvote.1.trans hkeeps, hjournal.trans hvote.2⟩
    | terminate =>
      obtain ⟨hkeeps, hjournal⟩ := ih { ws with flag := ws.flag.request }
      have hrequest : Keeps ws { ws with flag := ws.flag.request } :=
        ⟨rfl, fun h => by simp [Flag.request, h], Flag.request_of_not_held⟩
      exact ⟨hrequest.trans hkeeps, hjournal⟩

/-- The visit of a vertex logs the call `c`, and ends as it does unless a violation breaks it off.
-/
structure Logs (phase : Phase) (s v : Nat) (c : Call α) (ws : Workspace α)
    (out : Except Fault Unit × Workspace α) : Prop where
  /-- Vertices are only set up in superstep 0. -/
  superstep : (phase = .init → s = 0) → c.superstep = s
  phase : c.phase = phase
  vertex : c.vertex = v
  journal : out.2.journal = ws.journal.push (.call c)
  outcome : out.1 = c.reply.outcome ∨ ∃ violation, out.1 = .error (.violation violation)

/-- Making a call logs it and keeps the mark and the flag, also when a violation breaks it off. -/
private theorem keeps_callCompute {job : Job α} {s v : Nat} (late : Bool) (ws : Workspace α) :
    Keeps ws (callCompute job s v late ws).2 ∧
      ∃ c : Call α, Logs .compute s v c ws (callCompute job s v late ws) := by
  let c : Call α := ⟨.compute, s, v, late, ws.halted.contains v, ws.messenger.inbox v,
    job.program.compute (ws.view job s v (ws.messenger.inbox v))⟩
  have hstep : callCompute job s v late ws
      = concluded c (perform v c.reply.effects (ws.handOver c)) := rfl
  obtain ⟨hkeeps, hjournal⟩ := @keeps_perform _ v c.reply.effects (ws.handOver c)
  rw [hstep]
  -- broken off by a violation, or carried out in full
  rcases hperformed : perform v c.reply.effects (ws.handOver c) with ⟨violation | _, last⟩ <;>
    rw [hperformed] at hkeeps hjournal
  · exact ⟨⟨hkeeps.aborted, hkeeps.raised, hkeeps.flag⟩, c, fun _ => rfl, rfl, rfl, hjournal,
      .inr ⟨_, rfl⟩⟩
  · exact ⟨⟨hkeeps.aborted, hkeeps.raised, hkeeps.flag⟩, c, fun _ => rfl, rfl, rfl, hjournal,
      .inl rfl⟩

/-- Whether a visit calls the program. Every vertex is set up, and computed if it does not sleep. -/
def isCalled (phase : Phase) (ws : Workspace α) (vertex : Nat) : Bool :=
  match phase with
  | .init => true
  | .compute => ws.isAwake vertex

/-- A visit passes a sleeping vertex over, or logs one call of the vertex. -/
theorem keeps_visit (job : Job α) (phase : Phase) (s v : Nat) (ws : Workspace α) :
    Keeps ws (ws.visit job phase s v).2 ∧
      (ws.isCalled phase v = false ∧ ws.visit job phase s v = (.ok (), ws) ∨
        ws.isCalled phase v = true ∧
          ∃ c : Call α, Logs phase s v c ws (ws.visit job phase s v)) := by
  cases phase with
  | init =>
    refine ⟨⟨rfl, fun h => ?_, fun h => ?_⟩,
      .inr ⟨rfl, _, fun hs => (hs rfl).symm, rfl, rfl, rfl, .inl rfl⟩⟩ <;>
      rw [visit, visitInit] <;> dsimp only <;> split
    · simp [Flag.request, h]
    · exact h
    · exact Flag.request_of_not_held h
    · rfl
  | compute =>
    rw [visit, visitCompute, isCalled, isAwake]
    -- in the frontier, woken late, or asleep
    cases hfrontier : ws.frontier.contains v with
    | true =>
      obtain ⟨hkeeps, c, hlogs⟩ := @keeps_callCompute _ job s v false ws
      exact ⟨hkeeps, .inr ⟨rfl, c, hlogs⟩⟩
    | false =>
      cases hmail : ws.messenger.hasMail v with
      | true =>
        obtain ⟨hkeeps, c, hlogs⟩ :=
          @keeps_callCompute _ job s v true { ws with halted := ws.halted.erase v }
        exact ⟨⟨hkeeps.aborted, hkeeps.raised, hkeeps.flag⟩, .inr ⟨rfl, c, hlogs.superstep,
          hlogs.phase, hlogs.vertex, hlogs.journal, hlogs.outcome⟩⟩
      | false => exact ⟨Keeps.refl ws, .inl ⟨rfl, rfl⟩⟩

/-- A visit with a known outcome keeps the mark and the flag. -/
theorem keeps_of_visit {job : Job α} {phase : Phase} {s v : Nat} {ws ws' : Workspace α}
    {out : Except Fault Unit} (h : ws.visit job phase s v = (out, ws')) : Keeps ws ws' := by
  have hkeeps := (keeps_visit job phase s v ws).1
  rwa [h] at hkeeps

end Workspace

end Superstep
