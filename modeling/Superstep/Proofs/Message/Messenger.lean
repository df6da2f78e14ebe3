import Mathlib
import Superstep.Message.Messenger
import Superstep.Proofs.Message.Queues
import Superstep.Proofs.Storage.BitSet

/-!
# What messengers deliver

Two views describe a messenger of any kind: `inbox v`, what vertex `v` receives if it is asked now,
and `outbox v`, what is kept for the time after the next `prepare`. For the two double-buffered
kinds they are disjoint, for the asynchronous kind they are the same.

## Key results

- `Messenger.outbox_post`: a message joins the outbox of its target
- `Messenger.inbox_eq_outbox`: with the asynchronous messenger it reaches the inbox at once
- `Messenger.inbox_prepare_of_isDoubleBuffered`: `prepare` turns the outbox into the inbox
- `Messenger.hasMail_iff`, `pending_iff`: the shortcuts on heads, cursors and bits answer for the
  messages
-/

namespace Superstep

/-- The order in which two further messages are combined does not show. -/
def Reducer.IsOrderless {α : Type} (r : Reducer α) : Prop :=
  ∀ a b c, r.reduce (r.reduce c a) b = r.reduce (r.reduce c b) a

/-! ## Sides and buffers -/

@[simp] theorem Side.other_other (side : Side) : side.other.other = side := by
  cases side <;> rfl

/-- There are two sides: any side is a given one or the other. -/
theorem Side.eq_or_eq_other (side side' : Side) : side' = side ∨ side' = side.other := by
  cases side <;> cases side' <;> decide

/-- From one superstep to the next the sides change roles. -/
theorem Side.ofParity_succ (s : Nat) : ofParity (s + 1) = (ofParity s).other := by
  unfold ofParity
  -- one of the two numbers is even and the other one odd
  rcases Nat.mod_two_eq_zero_or_one s with h | h
  · rw [if_neg (by omega), if_pos h]
    rfl
  · rw [if_pos (by omega), if_neg (by omega)]
    rfl

namespace Buffers

variable {β : Type}

/-- A change on one side is read back there. -/
@[simp] theorem get_modify_self (b : Buffers β) (side : Side) (f : β → β) :
    (b.modify side f).get side = f (b.get side) := by
  cases side <;> rfl

/-- A change on one side leaves the other side alone. -/
@[simp] theorem get_modify_other (b : Buffers β) (side : Side) (f : β → β) :
    (b.modify side f).get side.other = b.get side.other := by
  cases side <;> rfl

/-- What holds on both sides still does after a change that keeps it on one. -/
theorem forall_get_modify {p : β → Prop} {b : Buffers β} (h : ∀ side, p (b.get side)) (side : Side)
    {f : β → β} (hf : ∀ c, p c → p (f c)) : ∀ side', p ((b.modify side f).get side') := by
  intro side'
  rcases side.eq_or_eq_other side' with rfl | rfl
  · rw [get_modify_self]
    exact hf _ (h _)
  · rw [get_modify_other]
    exact h _

end Buffers

/-! ## One combined value per vertex -/

namespace ReducedBuffer

variable {α : Type}

/-- A value that nothing was sent to is the identity. -/
structure Valid (n : Nat) (identity : α) (b : ReducedBuffer α) : Prop where
  values : b.values.size = n
  received : b.received.size = n
  fresh : ∀ v, v < n → b.received.contains v = false → b.values.get? v = some identity

/-- In the buffer without messages every value is the identity. -/
theorem valid_empty (n : Nat) (identity : α) : (empty n identity).Valid n identity where
  values := rfl
  received := rfl
  fresh v hv _ := by rw [empty, PagedArray.get?_replicate, if_pos hv]

/-- Nothing was sent in the buffer without messages. -/
theorem value?_empty (n : Nat) (identity : α) (v : Nat) : (empty n identity).value? v = none := by
  rw [value?, empty, BitSet.contains_empty]
  rfl

/-- A vertex has a value exactly if its bit is set: the value itself is always there. -/
theorem isSome_value? {n : Nat} {identity : α} {b : ReducedBuffer α} (h : b.Valid n identity)
    (v : Nat) : (b.value? v).isSome = b.received.contains v := by
  unfold value?
  cases hbit : b.received.contains v with
  | false => rfl
  | true =>
    -- a bit that is set belongs to a vertex that exists
    have hv : v < b.values.size := by
      rw [h.values, ← h.received]
      apply Nat.lt_of_not_le
      intro hle
      rw [b.received.contains_eq_false_of_le hle] at hbit
      cases hbit
    rw [if_pos rfl, (PagedArray.isSome_get? b.values).mpr hv]

/-- If no bit is set, no vertex has a value. -/
theorem value?_of_isEmpty {b : ReducedBuffer α} (hempty : b.received.isEmpty = true) (v : Nat) :
    b.value? v = none := by
  rw [value?, b.received.isEmpty_iff.mp hempty v]
  rfl

/-- After clearing no vertex has a value. -/
theorem value?_clear (b : ReducedBuffer α) (identity : α) (v : Nat) :
    (b.clear identity).value? v = none := by
  unfold clear
  -- a buffer in which no bit is set is not touched
  split
  · rename_i hempty
    exact value?_of_isEmpty hempty v
  · rw [value?, BitSet.contains_clear]
    rfl

/-- Clearing puts the identity back everywhere. -/
theorem Valid.clear {n : Nat} {identity : α} {b : ReducedBuffer α} (h : b.Valid n identity) :
    (b.clear identity).Valid n identity := by
  unfold ReducedBuffer.clear
  split
  · exact h
  · refine ⟨h.values, h.received, fun v hv _ => ?_⟩
    rw [PagedArray.get?_fill, if_pos (by rw [h.values]; exact hv)]

/-- A message keeps the values of vertices that nothing was sent to. -/
theorem Valid.post {n : Nat} {r : Reducer α} {b : ReducedBuffer α} (h : b.Valid n r.identity)
    (t : Nat) (x : α) : (b.post r t x).Valid n r.identity where
  values := h.values
  received := by rw [ReducedBuffer.post, BitSet.size_insert, h.received]
  fresh v hv hbit := by
    rw [ReducedBuffer.post, BitSet.contains_insert, Bool.or_eq_false_iff] at hbit
    -- the target has its bit set now
    have htv : t ≠ v := by
      rintro rfl
      simp [h.received, hv] at hbit
    rw [ReducedBuffer.post, PagedArray.get?_modify, if_neg htv]
    exact h.fresh v hv hbit.1

/-- A message is combined with what was sent to its vertex before, or with the identity. -/
theorem value?_post {n : Nat} {r : Reducer α} {b : ReducedBuffer α} (h : b.Valid n r.identity)
    {t : Nat} (ht : t < n) (x : α) (v : Nat) :
    (b.post r t x).value? v =
      if t = v then some (r.reduce ((b.value? v).getD r.identity) x) else b.value? v := by
  simp only [value?, ReducedBuffer.post, BitSet.contains_insert, PagedArray.get?_modify]
  by_cases htv : t = v
  · subst htv
    -- the target exists, so it has a current value
    obtain ⟨current, hcurrent⟩ := Option.isSome_iff_exists.mp
      ((PagedArray.isSome_get? b.values).mpr (by rw [h.values]; exact ht))
    cases hbit : b.received.contains t with
    | true => simp [hcurrent]
    | false =>
      -- nothing was sent to it, so this value is the identity
      rw [h.fresh t ht hbit, Option.some_inj] at hcurrent
      simp [h.received, ht, h.fresh t ht hbit]
  · simp [htv]

end ReducedBuffer

/-! ## Well-formed messengers -/

/-- Both queue sets are well-formed, and nothing was taken out of the one that is written. -/
structure SyncMessenger.Valid {α : Type} (n : Nat) (m : SyncMessenger α) : Prop where
  queues : ∀ side, (m.buffers.get side).Valid
  sizes : ∀ side, (m.buffers.get side).nodeCount = n
  kept : (m.buffers.get m.writing).isEmpty = false →
    ∃ v, (m.buffers.get m.writing).inbox v ≠ []

/-- Both queue sets are well-formed. -/
structure AsyncMessenger.Valid {α : Type} (n : Nat) (m : AsyncMessenger α) : Prop where
  queues : ∀ side, (m.buffers.get side).Valid
  sizes : ∀ side, (m.buffers.get side).nodeCount = n

namespace Messenger

variable {α : Type}

/-- The messenger serves `n` vertices and its buffers are well-formed. -/
def Valid (n : Nat) : Messenger α → Prop
  | .sync m => m.Valid n
  | .async m => m.Valid n
  | .reducing m => ∀ side, (m.buffers.get side).Valid n m.reducer.identity
  | .released => False

/-- The messages that a vertex will find after the next `prepare`. -/
def outbox (m : Messenger α) (v : Nat) : List α :=
  match m with
  | .sync m => (m.buffers.get m.writing).inbox v
  | .async m => m.inbox v
  | .reducing m => ((m.buffers.get m.writing).value? v).toList
  | .released => []

/-- Whether messages wait in a second buffer until the next superstep. -/
def isDoubleBuffered : Messenger α → Bool
  | .sync _ | .reducing _ => true
  | .async _ | .released => false

/-- How messages to one vertex are combined, if they are. -/
def reducer? : Messenger α → Option (Reducer α)
  | .reducing m => some m.reducer
  | _ => none

/-- The buffers are in their roles for superstep `s`. -/
def Faces (s : Nat) : Messenger α → Prop
  | .sync m => m.writing = .ofParity s
  | .reducing m => m.writing = .ofParity s
  | .async _ => True
  | .released => False

/-- Preparing superstep `s` changes the roles of the buffers, or there is nothing in them. -/
def ReadyFor (s : Nat) (m : Messenger α) : Prop :=
  match m with
  | .sync _ | .reducing _ =>
    (∃ s', m.Faces s' ∧ s = s' + 1) ∨ ∀ v, m.inbox v = [] ∧ m.outbox v = []
  | .async _ => True
  | .released => False

/-- A messenger that faces one superstep is ready for the next one. -/
theorem ReadyFor.of_faces {m : Messenger α} {s : Nat} (h : m.Faces s) : m.ReadyFor (s + 1) := by
  cases m with
  | sync m => exact .inl ⟨s, h, rfl⟩
  | async m => trivial
  | reducing m => exact .inl ⟨s, h, rfl⟩
  | released => exact h

/-- What the messages sent to one vertex amount to when it receives them. -/
def collected (r : Option (Reducer α)) (sent : List α) : List α :=
  match r with
  | none => sent.reverse
  | some r => if sent.isEmpty then [] else [r.fold sent]

/-- What a further message makes of those that were sent to its vertex before. -/
def gather (r : Option (Reducer α)) (x : α) (waiting : List α) : List α :=
  match r with
  | none => x :: waiting
  | some r => [r.reduce (waiting.headD r.identity) x]

/-- Of no messages none is received. -/
theorem collected_nil (r : Option (Reducer α)) : collected r [] = [] := by
  cases r <;> rfl

/-- One more message changes what is received as `gather` says. -/
theorem collected_concat (r : Option (Reducer α)) (sent : List α) (x : α) :
    collected r (sent ++ [x]) = gather r x (collected r sent) := by
  cases r with
  | none => simp [collected, gather]
  | some r =>
    cases sent with
    -- the first message is combined with the identity
    | nil => simp [collected, gather, Reducer.fold]
    | cons y ys => simp [collected, gather, Reducer.fold]

/-- A vertex receives nothing exactly if nothing was sent to it. -/
theorem collected_eq_nil_iff (r : Option (Reducer α)) (sent : List α) :
    collected r sent = [] ↔ sent = [] := by
  cases r with
  | none => simp [collected]
  | some r => cases sent <;> simp [collected]

/-- A value combined regardless of order does not show in which order messages were sent. -/
theorem collected_eq_of_perm {r : Reducer α} (h : r.IsOrderless) {sent sent' : List α}
    (hperm : sent.Perm sent') : collected (some r) sent = collected (some r) sent' := by
  have hfold : r.fold sent = r.fold sent' :=
    hperm.foldl_eq' (fun x _ y _ z => h x y z) r.identity
  rw [collected, collected, hperm.isEmpty_eq, hfold]

/-- Where the order in which messages are combined does not show, neither does the order in which
they were sent. -/
theorem collected_perm {r : Option (Reducer α)} (h : ∀ red, r = some red → red.IsOrderless)
    {sent sent' : List α} (hperm : sent.Perm sent') :
    (collected r sent).Perm (collected r sent') := by
  cases r with
  | none => exact (List.reverse_perm sent).trans (hperm.trans (List.reverse_perm sent').symm)
  | some red => rw [collected_eq_of_perm (h red rfl) hperm]

/-! ## A new messenger -/

/-- A new messenger is well-formed, whatever its kind. -/
theorem valid_create (n : Nat) (r : Option (Reducer α)) (isAsynchronous : Bool) :
    (create n r isAsynchronous).Valid n := by
  have hqueues (side : Side) :
      ((⟨.empty n, .empty n⟩ : Buffers (Queues α)).get side).Valid := by
    cases side <;> exact Queues.valid_empty n
  have hsizes (side : Side) :
      ((⟨.empty n, .empty n⟩ : Buffers (Queues α)).get side).nodeCount = n := by
    cases side <;> exact Queues.nodeCount_empty n
  cases r with
  | none =>
    cases isAsynchronous
    · -- an empty arena waits for nothing
      refine ⟨hqueues, hsizes, fun h => ?_⟩
      cases h
    · exact ⟨hqueues, hsizes⟩
  | some r =>
    intro side
    cases side <;> exact ReducedBuffer.valid_empty n r.identity

/-- In a new messenger nothing waits. -/
@[simp] theorem outbox_create (n : Nat) (r : Option (Reducer α)) (isAsynchronous : Bool) (v : Nat) :
    (create n r isAsynchronous).outbox v = [] := by
  cases r with
  | none => cases isAsynchronous <;> exact Queues.inbox_empty n v
  | some r => exact congrArg Option.toList (ReducedBuffer.value?_empty n r.identity v)

/-- A new messenger has nothing for anybody. -/
theorem inbox_create (n : Nat) (r : Option (Reducer α)) (isAsynchronous : Bool) (v : Nat) :
    (create n r isAsynchronous).inbox v = [] := by
  cases r with
  | none => cases isAsynchronous <;> exact Queues.inbox_empty n v
  | some r => exact congrArg Option.toList (ReducedBuffer.value?_empty n r.identity v)

/-- A new messenger is ready for any superstep, since it is empty. -/
theorem readyFor_create (n : Nat) (r : Option (Reducer α)) (isAsynchronous : Bool) (s : Nat) :
    (create n r isAsynchronous).ReadyFor s := by
  have hempty := fun v => And.intro (inbox_create n r isAsynchronous v)
    (outbox_create n r isAsynchronous v)
  cases r with
  | none =>
    cases isAsynchronous
    · exact .inr hempty
    · trivial
  | some r => exact .inr hempty

/-- A new messenger combines messages as it was told to. -/
@[simp] theorem reducer?_create (n : Nat) (r : Option (Reducer α)) (isAsynchronous : Bool) :
    (create n r isAsynchronous).reducer? = r := by
  cases r with
  | none => cases isAsynchronous <;> rfl
  | some r => rfl

/-- Only an asynchronous messenger without a reducer has no second buffer. -/
@[simp] theorem isDoubleBuffered_create (n : Nat) (r : Option (Reducer α)) (isAsynchronous : Bool) :
    (create n r isAsynchronous).isDoubleBuffered = (r.isSome || !isAsynchronous) := by
  cases r with
  | none => cases isAsynchronous <;> rfl
  | some r => rfl

/-! ## Fixed parts -/

/-- Sending does not change how messages are combined. -/
@[simp] theorem reducer?_post (m : Messenger α) (t : Nat) (x : α) :
    (m.post t x).reducer? = m.reducer? := by
  cases m <;> rfl

/-- Preparing a superstep does not change how messages are combined. -/
@[simp] theorem reducer?_prepare (m : Messenger α) (s : Nat) :
    (m.prepare s).reducer? = m.reducer? := by
  cases m <;> rfl

/-- Receiving does not change how messages are combined. -/
@[simp] theorem reducer?_afterReceiving (m : Messenger α) (v : Nat) :
    (m.afterReceiving v).reducer? = m.reducer? := by
  cases m <;> rfl

/-- Sending does not change the kind of buffering. -/
@[simp] theorem isDoubleBuffered_post (m : Messenger α) (t : Nat) (x : α) :
    (m.post t x).isDoubleBuffered = m.isDoubleBuffered := by
  cases m <;> rfl

@[simp] theorem isDoubleBuffered_prepare (m : Messenger α) (s : Nat) :
    (m.prepare s).isDoubleBuffered = m.isDoubleBuffered := by
  cases m <;> rfl

@[simp] theorem isDoubleBuffered_afterReceiving (m : Messenger α) (v : Nat) :
    (m.afterReceiving v).isDoubleBuffered = m.isDoubleBuffered := by
  cases m <;> rfl

/-- A messenger faces the superstep that it was prepared for. -/
theorem faces_prepare {n : Nat} {m : Messenger α} (h : m.Valid n) (s : Nat) :
    (m.prepare s).Faces s := by
  cases m with
  | sync m => rfl
  | async m => trivial
  | reducing m => rfl
  | released => exact h

/-- Sending does not change the roles of the buffers. -/
theorem Faces.post {m : Messenger α} {s : Nat} (h : m.Faces s) (t : Nat) (x : α) :
    (m.post t x).Faces s := by
  cases m <;> exact h

/-- Receiving does not change the roles of the buffers. -/
theorem Faces.afterReceiving {m : Messenger α} {s : Nat} (h : m.Faces s) (v : Nat) :
    (m.afterReceiving v).Faces s := by
  cases m <;> exact h

/-- A messenger serves as many vertices as its buffers have places. -/
theorem nodeCount_of_valid {n : Nat} {m : Messenger α} (h : m.Valid n) : m.nodeCount = n := by
  cases m with
  | sync m => exact h.sizes .first
  | async m => exact h.sizes .first
  | reducing m => exact (h .first).values
  | released => exact h.elim

/-! ## Requests that are refused -/

/-- Only a message to a vertex that does not exist is refused. -/
theorem refusal?_eq_none_iff {n : Nat} {m : Messenger α} (h : m.Valid n) (t : Nat) :
    m.refusal? t = none ↔ t < n := by
  have hcount := nodeCount_of_valid h
  cases m with
  | sync m => simp [refusal?, hcount]
  | async m => simp [refusal?, hcount]
  | reducing m => simp [refusal?, hcount]
  | released => exact h.elim

/-- Only the messages of a vertex that does not exist cannot be read. -/
theorem readRefusal?_eq_none_iff {n : Nat} {m : Messenger α} (h : m.Valid n) (v : Nat) :
    m.readRefusal? v = none ↔ v < n := by
  have hcount := nodeCount_of_valid h
  cases m with
  | sync m => simp [readRefusal?, hcount]
  | async m => simp [readRefusal?, hcount]
  | reducing m => simp [readRefusal?, hcount]
  | released => exact h.elim

/-- A request that is rejected changes nothing, any other one does what `accept` says. -/
theorem perform_eq (m : Messenger α) (r : Request α) :
    (m.perform r).2 = if m.rejection? r = none then (m.accept r).2 else m := by
  rw [perform]
  cases m.rejection? r <;> rfl

/-- A request to send posts the message, or changes nothing if the target does not exist. -/
theorem perform_send {n : Nat} {m : Messenger α} (h : m.Valid n) (t : Nat) (x : α) :
    (m.perform (.send t x)).2 = if t < n then m.post t x else m := by
  simp only [perform_eq, rejection?, refusal?_eq_none_iff h, accept]

/-- A request to receive takes the messages, or changes nothing if the vertex does not exist. -/
theorem perform_receive {n : Nat} {m : Messenger α} (h : m.Valid n) (v : Nat) :
    (m.perform (.receive v)).2 = if v < n then m.afterReceiving v else m := by
  simp only [perform_eq, rejection?, readRefusal?_eq_none_iff h, accept]

/-- A request to prepare a superstep is never rejected. -/
theorem perform_prepare {n : Nat} {m : Messenger α} (h : m.Valid n) (s : Nat) :
    (m.perform (.prepare s)).2 = m.prepare s := by
  cases m with
  | sync m | async m | reducing m => rfl
  | released => exact h.elim

/-! ## Sending -/

/-- Sending keeps a messenger well-formed. -/
theorem Valid.post {n : Nat} {m : Messenger α} (h : m.Valid n) {t : Nat} (ht : t < n) (x : α) :
    (m.post t x).Valid n := by
  cases m with
  | sync m =>
    refine ⟨?_, ?_, fun _ => ⟨t, ?_⟩⟩
    · exact Buffers.forall_get_modify h.queues _ fun q hq => hq.push t x
    · exact Buffers.forall_get_modify h.sizes _ fun q hq => (Queues.nodeCount_push q t x).trans hq
    · -- the arena of the written side is used now, and the message is there
      rw [SyncMessenger.post, Buffers.get_modify_self,
        Queues.inbox_push (h.queues _) (by rw [h.sizes]; exact ht), if_pos rfl]
      exact List.cons_ne_nil _ _
  | async m =>
    refine ⟨?_, ?_⟩
    · exact Buffers.forall_get_modify h.queues _ fun q hq => hq.push t x
    · exact Buffers.forall_get_modify h.sizes _ fun q hq => (Queues.nodeCount_push q t x).trans hq
  | reducing m => exact Buffers.forall_get_modify h _ fun b hb => hb.post t x
  | released => exact h.elim

/-- A message joins what waits for its target. -/
theorem outbox_post {n : Nat} {m : Messenger α} (h : m.Valid n) {t : Nat} (ht : t < n) (x : α)
    (v : Nat) : (m.post t x).outbox v =
      if t = v then gather m.reducer? x (m.outbox v) else m.outbox v := by
  cases m with
  | sync m =>
    simp only [Messenger.post, SyncMessenger.post, outbox, Buffers.get_modify_self]
    exact Queues.inbox_push (h.queues _) (by rw [h.sizes]; exact ht) x v
  | async m =>
    simp only [Messenger.post, AsyncMessenger.post, outbox, AsyncMessenger.inbox,
      Buffers.get_modify_self]
    exact Queues.inbox_push (h.queues _) (by rw [h.sizes]; exact ht) x v
  | reducing m =>
    simp only [Messenger.post, ReducingMessenger.post, outbox, Buffers.get_modify_self,
      ReducedBuffer.value?_post (h _) ht, reducer?, gather]
    split
    · cases (m.buffers.get m.writing).value? v <;> rfl
    · rfl
  | released => exact h.elim

/-- In a double-buffered messenger a message waits for the next superstep. -/
theorem inbox_post_of_isDoubleBuffered {m : Messenger α} (hd : m.isDoubleBuffered = true) (t : Nat)
    (x : α) (v : Nat) : (m.post t x).inbox v = m.inbox v := by
  cases m with
  | sync m =>
    simp only [Messenger.post, SyncMessenger.post, inbox, SyncMessenger.inbox,
      Buffers.get_modify_other]
  | async m => cases hd
  | reducing m =>
    simp only [Messenger.post, ReducingMessenger.post, inbox, ReducingMessenger.inbox,
      Buffers.get_modify_other]
  | released => cases hd

/-- The asynchronous messenger keeps one set of messages only. -/
theorem inbox_eq_outbox {m : Messenger α} (hd : m.isDoubleBuffered = false) (v : Nat) :
    m.inbox v = m.outbox v := by
  cases m with
  | sync m => cases hd
  | async m => rfl
  | reducing m => cases hd
  | released => rfl

/-! ## Receiving -/

/-- Receiving keeps a messenger well-formed. -/
theorem Valid.afterReceiving {n : Nat} {m : Messenger α} (h : m.Valid n) (v : Nat) :
    (m.afterReceiving v).Valid n := by
  cases m with
  | sync m => exact h
  | async m =>
    -- only the asynchronous messenger takes messages away
    refine ⟨?_, ?_⟩
    · exact Buffers.forall_get_modify h.queues _ fun q hq => hq.take v
    · exact Buffers.forall_get_modify h.sizes _ fun q hq => (Queues.nodeCount_take q v).trans hq
  | reducing m => exact h
  | released => exact h

/-- A double-buffered messenger does not change when a vertex receives its messages. -/
theorem afterReceiving_of_isDoubleBuffered {m : Messenger α} (hd : m.isDoubleBuffered = true)
    (v : Nat) : m.afterReceiving v = m := by
  cases m with
  | sync m => rfl
  | async m => cases hd
  | reducing m => rfl
  | released => rfl

/-- The asynchronous messenger hands a vertex everything it has for it. -/
theorem outbox_afterReceiving {m : Messenger α} (hd : m.isDoubleBuffered = false) (v w : Nat) :
    (m.afterReceiving v).outbox w = if v = w then [] else m.outbox w := by
  cases m with
  | sync m => cases hd
  | async m =>
    simp only [Messenger.afterReceiving, AsyncMessenger.take, outbox, AsyncMessenger.inbox,
      Buffers.get_modify_self]
    exact Queues.inbox_take _ v w
  | reducing m => cases hd
  | released => simp [Messenger.afterReceiving, outbox]

/-! ## Preparing a superstep -/

/-- Preparing empties the side in use and moves all it had to the other side, which is used from
then on. -/
theorem AsyncMessenger.prepare_eq (m : AsyncMessenger α) :
    m.prepare.current = m.current.other ∧
      m.prepare.buffers.get m.current = (m.buffers.get m.current).takeAll.clear ∧
      m.prepare.buffers.get m.current.other =
        (m.buffers.get m.current.other).clear.receiveAll (m.buffers.get m.current) := by
  obtain ⟨⟨a, b⟩, current⟩ := m
  cases current <;> exact ⟨rfl, rfl, rfl⟩

/-- Preparing a superstep keeps a messenger well-formed. -/
theorem Valid.prepare {n : Nat} {m : Messenger α} (h : m.Valid n) (s : Nat) :
    (m.prepare s).Valid n := by
  cases m with
  | sync m =>
    refine ⟨?_, ?_, ?_⟩
    · exact Buffers.forall_get_modify h.queues _ fun q hq => hq.clear
    · exact Buffers.forall_get_modify h.sizes _ fun q hq => (Queues.nodeCount_clear q).trans hq
    · -- the side that is written from now on was just cleared
      intro hempty
      rw [SyncMessenger.prepare, Buffers.get_modify_self, Queues.isEmpty_clear] at hempty
      cases hempty
  | async m =>
    obtain ⟨-, hleft, hused⟩ := AsyncMessenger.prepare_eq m
    have hcurrent := h.queues m.current
    have hspare := (h.queues m.current.other).clear
    have hcount : (m.buffers.get m.current.other).clear.nodeCount
        = (m.buffers.get m.current).nodeCount := by
      rw [Queues.nodeCount_clear, h.sizes, h.sizes]
    -- the side that was left is empty, the other one has everything
    constructor <;> intro side <;> rcases m.current.eq_or_eq_other side with rfl | rfl
    · rw [hleft]
      exact hcurrent.takeAll.clear
    · rw [hused]
      exact hspare.receiveAll hcurrent hcount
    · rw [hleft, Queues.nodeCount_clear, Queues.nodeCount_takeAll, h.sizes]
    · rw [hused, Queues.nodeCount_receiveAll hspare hcurrent hcount, hcount, h.sizes]
  | reducing m => exact Buffers.forall_get_modify h _ fun b hb => hb.clear
  | released => exact h.elim

/-- `prepare` of a double-buffered messenger hands over what waited and forgets what was read. -/
theorem inbox_prepare_of_isDoubleBuffered {n : Nat} {m : Messenger α} (h : m.Valid n)
    (hd : m.isDoubleBuffered = true) {s : Nat} (hs : m.ReadyFor s) (v : Nat) :
    (m.prepare s).inbox v = m.outbox v ∧ (m.prepare s).outbox v = [] := by
  cases m with
  | sync m =>
    simp only [Messenger.prepare, SyncMessenger.prepare, inbox, SyncMessenger.inbox, outbox,
      Buffers.get_modify_self, Buffers.get_modify_other]
    refine ⟨?_, Queues.inbox_clear (h.queues _) v⟩
    -- the sides change roles, or there is nothing on either of them
    rcases hs with ⟨s', hfaces, rfl⟩ | hempty
    · have hwriting : m.writing = .ofParity s' := hfaces
      rw [Side.ofParity_succ, Side.other_other, hwriting]
    · obtain ⟨hinbox, houtbox⟩ := hempty v
      simp only [inbox, SyncMessenger.inbox, outbox] at hinbox houtbox
      rcases m.writing.eq_or_eq_other (Side.ofParity s).other with hside | hside
      · rw [hside]
      · rw [hside, hinbox, houtbox]
  | async m => cases hd
  | reducing m =>
    simp only [Messenger.prepare, ReducingMessenger.prepare, inbox, ReducingMessenger.inbox,
      outbox, Buffers.get_modify_self, Buffers.get_modify_other, ReducedBuffer.value?_clear]
    refine ⟨?_, rfl⟩
    -- the same change of sides, on combined values
    rcases hs with ⟨s', hfaces, rfl⟩ | hempty
    · have hwriting : m.writing = .ofParity s' := hfaces
      rw [Side.ofParity_succ, Side.other_other, hwriting]
    · obtain ⟨hinbox, houtbox⟩ := hempty v
      simp only [inbox, ReducingMessenger.inbox, outbox] at hinbox houtbox
      rcases m.writing.eq_or_eq_other (Side.ofParity s).other with hside | hside
      · rw [hside]
      · rw [hside, hinbox, houtbox]
  | released => cases hd

/-- `prepare` of an asynchronous messenger keeps every message, each queue the other way round. -/
theorem outbox_prepare_of_not_isDoubleBuffered {n : Nat} {m : Messenger α} (h : m.Valid n)
    (hd : m.isDoubleBuffered = false) (s : Nat) (v : Nat) :
    (m.prepare s).outbox v = (m.outbox v).reverse := by
  cases m with
  | sync m => cases hd
  | async m =>
    obtain ⟨hcurrent, -, hused⟩ := AsyncMessenger.prepare_eq m
    have hcount : (m.buffers.get m.current.other).clear.nodeCount
        = (m.buffers.get m.current).nodeCount := by
      rw [Queues.nodeCount_clear, h.sizes, h.sizes]
    simp only [Messenger.prepare, outbox, AsyncMessenger.inbox, hcurrent, hused]
    -- moving a queue pushes its messages newest first, so it arrives the other way round
    rw [Queues.inbox_receiveAll (h.queues _).clear (h.queues _) hcount,
      Queues.inbox_clear (h.queues _), List.append_nil]
  | reducing m => cases hd
  | released => exact h.elim

/-- `prepare` turns what waits into what is received. -/
theorem inbox_prepare_perm {n : Nat} {m : Messenger α} (h : m.Valid n) {s : Nat}
    (hs : m.ReadyFor s) (v : Nat) : ((m.prepare s).inbox v).Perm (m.outbox v) := by
  cases hd : m.isDoubleBuffered with
  | true => rw [(inbox_prepare_of_isDoubleBuffered h hd hs v).1]
  | false =>
    -- one set of messages is both, and moving it reverses each queue
    rw [inbox_eq_outbox (by rw [isDoubleBuffered_prepare, hd]),
      outbox_prepare_of_not_isDoubleBuffered h hd]
    exact List.reverse_perm _

/-! ## Whether something waits -/

/-- The shortcut on heads and bits answers whether a vertex would receive something. -/
theorem hasMail_iff {n : Nat} {m : Messenger α} (h : m.Valid n) (v : Nat) :
    m.hasMail v = true ↔ m.inbox v ≠ [] := by
  cases m with
  | sync m => exact Queues.isSome_head_iff (h.queues _) v
  | async m => exact Queues.isSome_head_iff (h.queues _) v
  | reducing m =>
    simp only [hasMail, ReducingMessenger.hasMail, inbox, ReducingMessenger.inbox]
    -- a bit is set exactly where there is a value
    rw [← ReducedBuffer.isSome_value? (h _)]
    cases (m.buffers.get m.writing.other).value? v <;> simp
  | released => exact h.elim

/-- The shortcut on cursors, heads and bits answers whether something waits for anybody. -/
theorem pending_iff {n : Nat} {m : Messenger α} (h : m.Valid n) :
    m.pending = true ↔ ∃ v, m.outbox v ≠ [] := by
  cases m with
  | sync m =>
    simp only [pending, SyncMessenger.pending, outbox, Bool.not_eq_true']
    -- a side that was written still has every message, since it is not taken from
    refine ⟨h.kept, ?_⟩
    rintro ⟨v, hv⟩
    -- the cursor is past every message, so at zero there is none
    cases hempty : (m.buffers.get m.writing).isEmpty with
    | false => rfl
    | true => exact absurd (Queues.inbox_of_isEmpty (h.queues _) hempty v) hv
  | async m => exact Queues.hasPending_iff (h.queues _)
  | reducing m =>
    simp only [pending, ReducingMessenger.pending, outbox]
    rw [Bool.not_eq_true', ← Bool.not_eq_true, BitSet.isEmpty_iff, Classical.not_forall]
    -- a bit that is set is a value that waits
    apply exists_congr
    intro v
    rw [← ReducedBuffer.isSome_value? (h _)]
    cases (m.buffers.get m.writing).value? v <;> simp
  | released => exact h.elim

/-- Nothing waits for a vertex that does not exist. -/
theorem outbox_of_le {n : Nat} {m : Messenger α} (h : m.Valid n) {v : Nat} (hv : n ≤ v) :
    m.outbox v = [] := by
  cases m with
  | sync m => exact Queues.inbox_of_le _ (by rw [h.sizes]; exact hv)
  | async m => exact Queues.inbox_of_le _ (by rw [h.sizes]; exact hv)
  | reducing m =>
    have hbit : (m.buffers.get m.writing).received.contains v = false :=
      BitSet.contains_eq_false_of_le _ (by rw [(h _).received]; exact hv)
    rw [outbox, ReducedBuffer.value?, hbit]
    rfl
  | released => rfl

end Messenger

end Superstep
