import Mathlib
import Superstep.Proofs.Message.Messenger

/-!
# Messages that are combined on the way

A reducing messenger combines the messages to a vertex as they are sent, and keeps one value and one
bit for each. A synchronous messenger keeps every message, the latest first, and leaves it to the
reader to combine them. If a reducer is associative and commutative with a neutral identity, a
reader who only looks at the combination cannot tell which of them it was. `Messenger.Condenses`
relates two such messengers buffer by buffer, and everything that is done to both keeps it.

## Key results

- `Reducer.fold_cons`: the latest message may as well be combined last
- `Messenger.Condenses.post`, `prepare`, `afterReceiving`: the relation is kept
- `Messenger.Condenses.inbox`, `hasMail`, `pending`: what is seen of it
-/

namespace Superstep

variable {α : Type}

/-! ## Lawful reducers -/

namespace Reducer

/-- Messages may be combined in any order and in any groups. -/
structure IsLawful (r : Reducer α) : Prop where
  assoc : ∀ a b c, r.reduce (r.reduce a b) c = r.reduce a (r.reduce b c)
  comm : ∀ a b, r.reduce a b = r.reduce b a
  neutral : ∀ a, r.reduce r.identity a = a

/-- What remains of messages for a reader who asks whether there are any and what they combine to.
-/
def condense (r : Reducer α) (messages : List α) : List α :=
  if messages.isEmpty then [] else [r.fold messages]

/-- What comes first may as well come last, by commutativity at each step. -/
theorem foldl_reduce_right {r : Reducer α} (h : r.IsLawful) (start x : α) (messages : List α) :
    messages.foldl r.reduce (r.reduce start x) = r.reduce (messages.foldl r.reduce start) x := by
  induction messages generalizing start with
  | nil => rfl
  | cons y messages ih =>
    have hswap : r.reduce (r.reduce start x) y = r.reduce (r.reduce start y) x := by
      rw [h.assoc, h.comm x y, ← h.assoc]
    rw [List.foldl_cons, List.foldl_cons, hswap, ih]

/-- The latest message, which a queue has in front, may as well be combined last. -/
theorem fold_cons {r : Reducer α} (h : r.IsLawful) (x : α) (messages : List α) :
    r.fold (x :: messages) = r.reduce (r.fold messages) x :=
  foldl_reduce_right h r.identity x messages

/-- A single message combines to itself, since the identity is neutral. -/
theorem fold_singleton {r : Reducer α} (h : r.IsLawful) (x : α) : r.fold [x] = x := h.neutral x

/-- Nothing remains of no messages. -/
@[simp] theorem condense_nil (r : Reducer α) : r.condense [] = [] := rfl

/-- Of some messages one value remains. -/
@[simp] theorem condense_cons (r : Reducer α) (x : α) (messages : List α) :
    r.condense (x :: messages) = [r.fold (x :: messages)] := rfl

/-- Whether there are messages can still be told. -/
theorem condense_eq_nil_iff (r : Reducer α) (messages : List α) :
    r.condense messages = [] ↔ messages = [] := by
  cases messages <;> simp

/-- Whether there are messages can still be told, by the test. -/
theorem isEmpty_condense (r : Reducer α) (messages : List α) :
    (r.condense messages).isEmpty = messages.isEmpty := by
  cases messages <;> rfl

/-- What the messages combine to can still be told. -/
theorem fold_condense {r : Reducer α} (h : r.IsLawful) (messages : List α) :
    r.fold (r.condense messages) = r.fold messages := by
  cases messages with
  | nil => rfl
  | cons x messages => rw [condense_cons, fold_singleton h]

/-- Combining what was combined changes nothing. -/
theorem condense_condense {r : Reducer α} (h : r.IsLawful) (messages : List α) :
    r.condense (r.condense messages) = r.condense messages := by
  cases messages with
  | nil => rfl
  | cons x messages => rw [condense_cons, condense_cons, fold_singleton h]

end Reducer

/-! ## Two messengers -/

namespace Messenger

variable {n : Nat} {r : Reducer α} {m m' : Messenger α}

/-- The first messenger combines on the way what the second one keeps, and both write to the same
side. -/
inductive Condenses (n : Nat) (r : Reducer α) : Messenger α → Messenger α → Prop
  | intro {a : ReducingMessenger α} {b : SyncMessenger α} (hreducer : a.reducer = r)
      (hwriting : a.writing = b.writing) (hvalid : (reducing a).Valid n)
      (hvalid' : (sync b).Valid n)
      (hsides : ∀ side v, ((a.buffers.get side).value? v).toList
        = r.condense ((b.buffers.get side).inbox v)) :
    Condenses n r (.reducing a) (.sync b)

/-- Two new messengers are empty on either side. -/
theorem condenses_create (n : Nat) (r : Reducer α) :
    (create n (some r) false).Condenses n r (create n none false) := by
  refine .intro rfl rfl (valid_create n (some r) false) (valid_create n none false) fun side v => ?_
  -- no queue has a message and no value its bit
  cases side <;>
    exact (congrArg Option.toList (ReducedBuffer.value?_empty n r.identity v)).trans
      (congrArg r.condense (Queues.inbox_empty n v)).symm

/-- The relation is between valid messengers only. -/
theorem Condenses.valid (h : m.Condenses n r m') : m.Valid n ∧ m'.Valid n := by
  cases h with
  | intro _ _ hvalid hvalid' _ => exact ⟨hvalid, hvalid'⟩

/-! ### What is done to both -/

/-- Both empty the buffer of the superstep's parity, the one value by value if anything was received
at all, the other by its cursor. -/
theorem Condenses.prepare (h : m.Condenses n r m') (s : Nat) :
    (m.prepare s).Condenses n r (m'.prepare s) := by
  cases h with
  | @intro a b hreducer _ hvalid hvalid' hsides =>
    refine .intro hreducer rfl (hvalid.prepare s) (hvalid'.prepare s) fun side v => ?_
    rcases (Side.ofParity s).eq_or_eq_other side with rfl | rfl
    · rw [ReducingMessenger.prepare, SyncMessenger.prepare, Buffers.get_modify_self,
        Buffers.get_modify_self, ReducedBuffer.value?_clear, Queues.inbox_clear (hvalid'.queues _)]
      rfl
    · rw [ReducingMessenger.prepare, SyncMessenger.prepare, Buffers.get_modify_other,
        Buffers.get_modify_other]
      exact hsides _ v

/-- A message that one combines at once the other puts in front of its queue. -/
theorem Condenses.post (hr : r.IsLawful) (h : m.Condenses n r m') {t : Nat} (ht : t < n) (x : α) :
    (m.post t x).Condenses n r (m'.post t x) := by
  cases h with
  | @intro a b hreducer hwriting hvalid hvalid' hsides =>
    -- only the side that is written to changes
    subst hreducer
    refine .intro rfl hwriting (hvalid.post ht x) (hvalid'.post ht x) fun side v => ?_
    rw [ReducingMessenger.post, SyncMessenger.post, ← hwriting]
    rcases a.writing.eq_or_eq_other side with rfl | rfl
    · have hcount : t < (b.buffers.get a.writing).nodeCount := by
        rw [hvalid'.sizes]
        exact ht
      rw [Buffers.get_modify_self, Buffers.get_modify_self, ReducedBuffer.value?_post (hvalid _) ht,
        Queues.inbox_push (hvalid'.queues _) hcount]
      have hside := hsides a.writing v
      split
      · -- what was combined before is the combination of what waits
        rw [Reducer.condense_cons, Reducer.fold_cons hr]
        generalize (b.buffers.get a.writing).inbox v = waiting at hside ⊢
        generalize (a.buffers.get a.writing).value? v = combined at hside ⊢
        cases waiting with
        | nil =>
          obtain rfl : combined = none := Option.toList_eq_nil_iff.mp hside
          rfl
        | cons y waiting =>
          obtain rfl : combined = some (a.reducer.fold (y :: waiting)) :=
            Option.toList_eq_singleton_iff.mp hside
          rfl
      · -- a message to another vertex
        exact hside
    · rw [Buffers.get_modify_other, Buffers.get_modify_other]
      exact hsides _ v

/-- Neither messenger loses what a vertex received in a superstep. -/
theorem Condenses.afterReceiving (h : m.Condenses n r m') (v : Nat) :
    (m.afterReceiving v).Condenses n r (m'.afterReceiving v) := by
  cases h with
  | intro hreducer hwriting hvalid hvalid' hsides =>
    exact .intro hreducer hwriting hvalid hvalid' hsides

/-! ### What is seen of both -/

/-- A vertex receives combined what it would receive message by message. -/
theorem Condenses.inbox (h : m.Condenses n r m') (v : Nat) :
    m.inbox v = r.condense (m'.inbox v) := by
  cases h with
  | @intro a b _ hwriting _ _ hsides =>
    have hside : a.inbox v = r.condense ((b.buffers.get a.writing.other).inbox v) := hsides _ v
    -- both read the side they do not write to
    rw [hwriting] at hside
    exact hside

/-- A vertex is sent combined what it would be sent message by message. -/
theorem Condenses.outbox (h : m.Condenses n r m') (v : Nat) :
    m.outbox v = r.condense (m'.outbox v) := by
  cases h with
  | @intro a b _ hwriting _ _ hsides =>
    have hside : (reducing a).outbox v = r.condense ((b.buffers.get a.writing).inbox v) :=
      hsides _ v
    rw [hwriting] at hside
    exact hside

/-- The same vertices have messages. -/
theorem Condenses.hasMail (h : m.Condenses n r m') (v : Nat) : m.hasMail v = m'.hasMail v := by
  obtain ⟨hvalid, hvalid'⟩ := h.valid
  rw [Bool.eq_iff_iff, hasMail_iff hvalid, hasMail_iff hvalid', h.inbox, Ne,
    Reducer.condense_eq_nil_iff]

/-- The messengers agree on whether anything was sent. -/
theorem Condenses.pending (h : m.Condenses n r m') : m.pending = m'.pending := by
  obtain ⟨hvalid, hvalid'⟩ := h.valid
  rw [Bool.eq_iff_iff, pending_iff hvalid, pending_iff hvalid']
  refine exists_congr fun v => ?_
  rw [h.outbox, Ne, Reducer.condense_eq_nil_iff]

end Messenger

end Superstep
