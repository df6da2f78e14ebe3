import Mathlib
import Superstep.Message.Operations
import Superstep.Proofs.Storage.PagedArray
import Superstep.Proofs.Message.Messenger

/-!
# No operation of a messenger is broken off halfway

Taken effect by effect, an operation of a well-formed messenger is either broken off by its first
look at the vertex, before anything was done, or runs to its end and does what the operation as a
whole does (`Operation.Checks`). A message that is refused takes no cell, and no value is combined
without a note that something was sent.

## Key results

- `Queues.pushStepwise_checks`, `ReducedBuffer.postStepwise_checks`: sending to a vertex
- `Queues.takeStepwise_checks`, `ReducedBuffer.valueStepwise_checks`: what was sent to a vertex
- `Messenger.performStepwise_eq`: every request
-/

namespace Superstep

variable {α : Type}

namespace Operation

variable {σ τ β γ : Type}

@[simp] theorem run_pure (s : σ) (b : β) : (pure b : Operation σ β).run s = (.ok b, s) := rfl

/-- What follows an operation runs where it ended, unless it was broken off. -/
@[simp] theorem run_bind (s : σ) (e : Operation σ β) (f : β → Operation σ γ) : (e >>= f).run s =
    match e.run s with
    | (.ok b, s') => (f b).run s'
    | (.error violation, s') => (.error violation, s') := rfl

@[simp] theorem run_refuse (s : σ) (violation : Violation) :
    (refuse violation : Operation σ β).run s = (.error violation, s) := rfl

@[simp] theorem run_read (s : σ) (f : σ → Except Violation β) : (read f).run s = (f s, s) := rfl

@[simp] theorem run_change (s : σ) (f : σ → σ) : (change f).run s = (.ok (), f s) := rfl

/-- An operation on a part of an object changes this part, also if it is broken off. -/
@[simp] theorem run_on (s : σ) (part : σ → τ) (put : σ → τ → σ)
    (run : τ → Except Violation β × τ) :
    (on part put run).run s = ((run (part s)).1, put s (run (part s)).2) := rfl

/-- Operations that all answer run as one. -/
theorem run_forM {ι : Type} {e : ι → Operation σ Unit} {next : σ → ι → σ} {p : σ → Prop}
    (items : List ι)
    (hrun : ∀ s, p s → ∀ i ∈ items, (e i).run s = (.ok (), next s i) ∧ p (next s i))
    {s : σ} (hs : p s) :
    (items.forM e).run s = (.ok (), items.foldl next s) ∧ p (items.foldl next s) := by
  -- the invariant is handed from item to item
  induction items generalizing s with
  | nil => exact ⟨rfl, hs⟩
  | cons i items ih =>
    obtain ⟨hfirst, hp⟩ := hrun s hs i (List.mem_cons_self ..)
    obtain ⟨hrest, hlast⟩ := ih (fun s hs j hj => hrun s hs j (List.mem_cons_of_mem _ hj)) hp
    refine ⟨?_, hlast⟩
    change (e i >>= fun _ => items.forM e).run s = _
    rw [run_bind, hfirst]
    exact hrest

/-- Unless a condition holds the operation is broken off before anything was done. Where it holds
the operation runs to its end. -/
def Checks (e : Operation σ β) (s : σ) (condition : Prop) [Decidable condition]
    (violation : Violation) (b : β) (s' : σ) : Prop :=
  e.run s = if condition then (.ok b, s') else (.error violation, s)

variable {e : Operation σ β} {s s' : σ} {condition : Prop} [Decidable condition]
  {violation : Violation} {b : β}

/-- Where the condition holds, the operation runs to its end. -/
theorem Checks.run_of (h : e.Checks s condition violation b s') (hc : condition) :
    e.run s = (.ok b, s') :=
  h.trans (if_pos hc)

/-- Where the first part checks, the parts after it may rely on the condition. -/
theorem Checks.bind (h : e.Checks s condition violation b s') {f : β → Operation σ γ} {c : γ}
    {s'' : σ} (hf : condition → (f b).run s' = (.ok c, s'')) :
    (e >>= f).Checks s condition violation c s'' := by
  rw [Checks, run_bind, h]
  -- the rest is run only where the condition holds
  by_cases hc : condition
  · rw [if_pos hc, if_pos hc]
    exact hf hc
  · rw [if_neg hc, if_neg hc]

/-- Reading first what is there anyway does no harm. -/
theorem Checks.after_read {f : σ → γ} {g : γ → Operation σ β}
    (h : (g (f s)).Checks s condition violation b s') :
    (read (fun s => .ok (f s)) >>= g).Checks s condition violation b s' :=
  h

/-- What checks a part of an object leaves the object as it was. -/
theorem Checks.on {e : Operation τ β} (part : σ → τ) (put : σ → τ → σ) {t : τ}
    (h : e.Checks (part s) condition violation b t) (hput : put s (part s) = s) :
    (on part put e.run).Checks s condition violation b (put s t) := by
  rw [Checks, run_on, h]
  by_cases hc : condition
  · rw [if_pos hc, if_pos hc]
  · rw [if_neg hc, if_neg hc, hput]

end Operation

namespace PagedArray

variable {β γ : Type} (a : PagedArray β) {i : Nat}

/-- A cell that is there is read and replaced. -/
theorem exists_access (hi : i < a.size) (f : β → γ × β) : ∃ b, a.get? i = some b ∧
    a.read i = .ok b ∧ a.access i f = (.ok (f b).1, a.set i (f b).2) := by
  obtain ⟨b, hb⟩ := Option.isSome_iff_exists.mp ((isSome_get? a).mpr hi)
  refine ⟨b, hb, ?_, ?_⟩
  · rw [read, hb]
  · rw [access, hb]

/-- Reading a cell that is not there is refused. -/
theorem read_of_le (hi : a.size ≤ i) : a.read i = .error (.index i a.size) := by
  rw [read, (get?_eq_none_iff a).mpr hi]

/-- Replacing a cell that is not there is refused, and changes nothing. -/
theorem access_of_le (hi : a.size ≤ i) (f : β → γ × β) :
    a.access i f = (.error (.index i a.size), a) := by
  rw [access, (get?_eq_none_iff a).mpr hi]

/-- Replacing a cell by what is made of it. -/
theorem set_eq_modify_of_get? {b : β} (hb : a.get? i = some b) (f : β → β) :
    a.set i (f b) = a.modify i f := by
  -- the arrays agree cell by cell
  refine ext_get? rfl fun j => ?_
  rw [get?_set, get?_modify]
  by_cases hj : i = j
  · subst hj
    have hi : i < a.size := (isSome_get? a).mp (hb ▸ rfl)
    simp [hb, hi]
  · simp [hj]

end PagedArray

open Operation

/-! ## Queues -/

namespace Queues

variable (q : Queues α)

/-- Looking up the head of a vertex looks first whether there is the vertex. -/
theorem peek_checks (v : Nat) :
    (peek v).Checks q (v < q.nodeCount) (.index v q.nodeCount) (q.head v) q := by
  rw [Checks, peek, run_read]
  by_cases hv : v < q.nodeCount
  · obtain ⟨b, hb, hread, -⟩ := q.heads.exists_access hv fun head => (head, head)
    rw [if_pos hv, hread, head, hb]
  · rw [if_neg hv, q.heads.read_of_le (Nat.not_lt.mp hv)]
    rfl

/-- Replacing the head of a vertex that exists answers with the former head. -/
theorem run_swapHead {v : Nat} (hv : v < q.nodeCount) (next : Option Nat) :
    (swapHead v next).run q = (.ok (q.head v), ⟨q.heads.set v next, q.arena⟩) := by
  obtain ⟨b, hb, -, haccess⟩ := q.heads.exists_access hv fun head => (head, next)
  rw [swapHead, run_on, haccess, head, hb]

/-- A message takes a cell only if there is the vertex. -/
theorem pushStepwise_checks (t : Nat) (x : α) : (pushStepwise t x).Checks q (t < q.nodeCount)
    (.messageTarget t q.nodeCount) () (q.push t x) := by
  rw [Checks, pushStepwise, run_bind, run_read]
  dsimp only
  by_cases ht : t < q.nodeCount
  · -- the vertex that was checked is the one that is looked up and linked
    have hpeek (arena : Arena α) :
        (peek t).run (⟨q.heads, arena⟩ : Queues α) = (.ok (q.head t), ⟨q.heads, arena⟩) :=
      (peek_checks ⟨q.heads, arena⟩ t).run_of ht
    have hswap (arena : Arena α) :
        (swapHead t (some q.arena.cursor)).run (⟨q.heads, arena⟩ : Queues α)
          = (.ok (q.head t), ⟨q.heads.set t (some q.arena.cursor), arena⟩) :=
      run_swapHead ⟨q.heads, arena⟩ ht _
    rw [if_pos ht, if_pos ht, push, if_pos ht]
    simp only [run_bind, reserve, hpeek, writeCell, run_change, hswap, run_pure]
    rfl
  · rw [if_neg ht, if_neg ht, run_refuse]

/-- The queue of a vertex is taken only if there is the vertex. -/
theorem takeStepwise_checks (v : Nat) : (takeStepwise v).Checks q (v < q.nodeCount)
    (.index v q.nodeCount) (q.head v) (q.take v) := by
  refine (peek_checks q v).bind fun hv => ?_
  rw [take]
  -- a head is replaced only if there is one
  split
  · exact run_swapHead q hv none
  · rename_i hnone
    rw [run_pure, Option.not_isSome_iff_eq_none.mp hnone]

/-- Every message finds its vertex in queues for as many vertices. -/
theorem run_receiveAllStepwise {source target : Queues α}
    (hsize : target.nodeCount = source.nodeCount) :
    (receiveAllStepwise source).run target = (.ok (), target.receiveAll source) := by
  rw [receiveAllStepwise, receiveAll]
  split
  · rfl
  · -- two loops, and the number of vertices is the invariant of both
    refine (run_forM (p := fun q : Queues α => q.nodeCount = source.nodeCount) _
      (fun q hq v hv => ?_) hsize).1
    refine run_forM (p := fun q : Queues α => q.nodeCount = source.nodeCount) _
      (fun q hq x _ => ⟨?_, (nodeCount_push q v x).trans hq⟩) hq
    exact (pushStepwise_checks q v x).run_of (hq ▸ List.mem_range.mp hv)

end Queues

/-! ## Combined values -/

namespace ReducedBuffer

variable {n : Nat} {identity : α} {b : ReducedBuffer α}

/-- A value is combined and noted, or neither. -/
theorem postStepwise_checks (h : b.Valid n identity) (r : Reducer α) (t : Nat) (x : α) :
    (postStepwise r t x).Checks b (t < n) (.index t n) () (b.post r t x) := by
  rw [Checks, postStepwise, run_bind, run_on]
  by_cases ht : t < n
  · obtain ⟨current, hcurrent, -, haccess⟩ := b.values.exists_access (h.values ▸ ht)
      fun current => (ScalarArray.Answer.value current, r.reduce current x)
    -- the bit has a place, since the value has one
    have hnoted : b.received.perform (.set t) = (.ok .done, b.received.insert t) :=
      if_pos (h.received ▸ ht)
    -- combining is one access that reads and replaces the value
    have hupdated : ScalarArray.perform b.values (.update t fun current => r.reduce current x)
        = (.ok (.value current), b.values.modify t fun current => r.reduce current x) := by
      rw [← b.values.set_eq_modify_of_get? hcurrent]
      exact haccess
    rw [if_pos ht, hupdated]
    dsimp only
    rw [run_bind, run_on, hnoted]
    rfl
  · have hrefused := b.values.access_of_le (h.values ▸ Nat.not_lt.mp ht)
      fun current => (ScalarArray.Answer.value current, r.reduce current x)
    rw [if_neg ht, ScalarArray.perform, hrefused, h.values]

/-- Looking up the bit of a vertex looks first whether there is the vertex. -/
theorem hasReceived_checks (h : b.Valid n identity) (v : Nat) :
    (hasReceived v).Checks b (v < n) (.bit v n) (b.received.contains v) b := by
  have hget : Operation.Checks ⟨(·.perform (.get v))⟩ b.received (v < n) (.bit v n)
      (.flag (b.received.contains v)) b.received := by
    rw [Checks, ← h.received]
    rfl
  refine (hget.on _ (fun b received => ⟨b.values, received⟩) rfl).bind fun _ => ?_
  cases b.received.contains v <;> rfl

/-- The value of a vertex is read only after its bit was found. -/
theorem valueStepwise_checks (h : b.Valid n identity) (v : Nat) :
    (valueStepwise v).Checks b (v < n) (.bit v n) (b.value? v) b := by
  refine (hasReceived_checks h v).bind fun hv => ?_
  -- a vertex with a bit has a value too
  obtain ⟨x, hx, hread, -⟩ := b.values.exists_access (h.values ▸ hv) fun x => (x, x)
  rw [value?]
  split
  · rw [run_bind, run_read, hread, hx]
    rfl
  · rfl

end ReducedBuffer

/-! ## Messengers -/

section OnSide

variable {σ β : Type} {condition : Prop} [Decidable condition] {violation : Violation} {b : β}
  (side : Side)

/-- What changes neither buffer changes nothing. -/
theorem Buffers.modify_id (buffers : Buffers σ) : buffers.modify side id = buffers := by
  cases side <;> rfl

/-- An operation on one of two buffers checks what it checks on the buffer by itself. -/
theorem Buffers.onSide_checks {e : Operation σ β} {f : σ → σ} {buffers : Buffers σ}
    (h : e.Checks (buffers.get side) condition violation b (f (buffers.get side))) :
    (onSide side e).Checks buffers condition violation b (buffers.modify side f) := by
  -- putting back what is computed from a buffer is modifying it
  have hput (g : σ → σ) :
      (buffers.modify side fun _ => g (buffers.get side)) = buffers.modify side g := by
    cases side <;> rfl
  have hon := Checks.on (·.get side)
    (fun (buffers : Buffers σ) s => buffers.modify side fun _ => s) h
    ((hput id).trans (buffers.modify_id side))
  rwa [hput] at hon

variable {e : Operation (Queues α) β} {f : Queues α → Queues α}

/-- What checks on a set of queues checks on a synchronous messenger with it on one side. -/
theorem SyncMessenger.onSide_checks {m : SyncMessenger α}
    (h : e.Checks (m.buffers.get side) condition violation b (f (m.buffers.get side))) :
    (onSide side e).Checks m condition violation b ⟨m.buffers.modify side f, m.writing⟩ :=
  (Buffers.onSide_checks side h).on _ _ rfl

/-- What checks on a set of queues checks on an asynchronous messenger with it on one side. -/
theorem AsyncMessenger.onSide_checks {m : AsyncMessenger α}
    (h : e.Checks (m.buffers.get side) condition violation b (f (m.buffers.get side))) :
    (onSide side e).Checks m condition violation b ⟨m.buffers.modify side f, m.current⟩ :=
  (Buffers.onSide_checks side h).on _ _ rfl

/-- What checks on a buffer checks on a reducing messenger with it on one side. -/
theorem ReducingMessenger.onSide_checks {e : Operation (ReducedBuffer α) β}
    {f : ReducedBuffer α → ReducedBuffer α} {m : ReducingMessenger α}
    (h : e.Checks (m.buffers.get side) condition violation b (f (m.buffers.get side))) :
    (onSide side e).Checks m condition violation b
      ⟨m.reducer, m.buffers.modify side f, m.writing⟩ :=
  (Buffers.onSide_checks side h).on _ _ rfl

end OnSide

namespace SyncMessenger

variable {n : Nat} {m : SyncMessenger α}

/-- A synchronous messenger takes a message only if there is its target. -/
theorem postStepwise_checks (h : m.Valid n) (t : Nat) (x : α) :
    (postStepwise t x).Checks m (t < n) (.messageTarget t n) () (m.post t x) := by
  refine Checks.after_read (onSide_checks (f := (·.push t x)) _ ?_)
  rw [← h.sizes m.writing]
  exact Queues.pushStepwise_checks _ t x

/-- A synchronous messenger hands over the messages of a vertex and keeps them. -/
theorem receiveStepwise_checks (h : m.Valid n) (v : Nat) :
    (receiveStepwise v).Checks m (v < n) (.index v n) (m.inbox v) m := by
  have hpeek := (Queues.peek_checks (m.buffers.get m.writing.other) v).bind
    (f := fun head => .read fun q => .ok (q.arena.chain head)) fun _ => rfl
  have hside := onSide_checks (m := m) (f := id) m.writing.other hpeek
  rw [Buffers.modify_id, h.sizes] at hside
  exact Checks.after_read hside

/-- A synchronous messenger looks for mail in the buffer that is read. -/
theorem hasMailStepwise_checks (h : m.Valid n) (v : Nat) :
    (hasMailStepwise v).Checks m (v < n) (.index v n) (m.hasMail v) m := by
  have hside := onSide_checks (m := m) (f := id) m.writing.other
    (Queues.peek_checks _ v)
  rw [Buffers.modify_id, h.sizes] at hside
  exact Checks.after_read (hside.bind fun _ => rfl)

end SyncMessenger

namespace AsyncMessenger

variable {n : Nat} {m : AsyncMessenger α}

/-- Between supersteps every message is moved. -/
theorem run_prepareStepwise (h : m.Valid n) : prepareStepwise.run m = (.ok (), m.prepare) := by
  -- both sides are for as many vertices, so no message is refused on its way
  have hsizes : (m.buffers.get m.current.other).clear.nodeCount
      = (m.buffers.get m.current).nodeCount := by
    rw [Queues.nodeCount_clear, h.sizes, h.sizes]
  have hmoved := Queues.run_receiveAllStepwise hsizes
  -- on either side the effects are the same
  obtain ⟨⟨a, b⟩, current⟩ := m
  cases current <;>
    simp only [prepareStepwise, onSide, Buffers.onSide, run_bind, run_read, run_on, run_change,
      Buffers.get, Side.other] at hmoved ⊢ <;>
    rw [hmoved] <;> rfl

/-- An asynchronous messenger takes a message only if there is its target. -/
theorem postStepwise_checks (h : m.Valid n) (t : Nat) (x : α) :
    (postStepwise t x).Checks m (t < n) (.messageTarget t n) () (m.post t x) := by
  refine Checks.after_read (onSide_checks (f := (·.push t x)) _ ?_)
  rw [← h.sizes m.current]
  exact Queues.pushStepwise_checks _ t x

/-- The messages that are handed over are those that are taken away. -/
theorem receiveStepwise_checks (h : m.Valid n) (v : Nat) :
    (receiveStepwise v).Checks m (v < n) (.index v n) (m.inbox v) (m.take v) := by
  have htake := (Queues.takeStepwise_checks (m.buffers.get m.current) v).bind
    (f := fun head => .read fun q => .ok (q.arena.chain head))
    fun _ => by rw [run_read, Queues.arena_take]
  have hside := onSide_checks (m := m) (f := (·.take v)) m.current htake
  rw [h.sizes] at hside
  exact Checks.after_read hside

/-- An asynchronous messenger looks for mail in the buffer in use. -/
theorem hasMailStepwise_checks (h : m.Valid n) (v : Nat) :
    (hasMailStepwise v).Checks m (v < n) (.index v n) (m.hasMail v) m := by
  have hside := onSide_checks (m := m) (f := id) m.current (Queues.peek_checks _ v)
  rw [Buffers.modify_id, h.sizes] at hside
  exact Checks.after_read (hside.bind fun _ => rfl)

end AsyncMessenger

namespace ReducingMessenger

variable {n : Nat} {m : ReducingMessenger α}

/-- A reducing messenger combines a message only if there is its target. -/
theorem postStepwise_checks (h : (Messenger.reducing m).Valid n) (t : Nat) (x : α) :
    (postStepwise t x).Checks m (t < n) (.index t n) () (m.post t x) :=
  Checks.after_read <| Checks.after_read <|
    onSide_checks (f := (·.post m.reducer t x)) _ (ReducedBuffer.postStepwise_checks (h _) _ t x)

/-- A reducing messenger hands over the combined value of a vertex and keeps it. -/
theorem receiveStepwise_checks (h : (Messenger.reducing m).Valid n) (v : Nat) :
    (receiveStepwise v).Checks m (v < n) (.bit v n) (m.inbox v) m := by
  have hside := onSide_checks (m := m) (f := id) m.writing.other
    (ReducedBuffer.valueStepwise_checks (h _) v)
  rw [Buffers.modify_id] at hside
  exact Checks.after_read (hside.bind fun _ => rfl)

/-- A reducing messenger looks for mail among the bits of the buffer that is read. -/
theorem hasMailStepwise_checks (h : (Messenger.reducing m).Valid n) (v : Nat) :
    (hasMailStepwise v).Checks m (v < n) (.bit v n) (m.hasMail v) m := by
  have hside := onSide_checks (m := m) (f := id) m.writing.other
    (ReducedBuffer.hasReceived_checks (h _) v)
  rw [Buffers.modify_id] at hside
  exact Checks.after_read hside

end ReducingMessenger

namespace Messenger

section ByKind

variable {β : Type} {sync : Operation (SyncMessenger α) β} {async : Operation (AsyncMessenger α) β}
  {reducing : Operation (ReducingMessenger α) β} {condition : Prop} [Decidable condition]
  {violation : Violation} {b : β}

/-- What checks on a synchronous messenger checks on any messenger that is one. -/
theorem byKind_checks_sync {m m' : SyncMessenger α} (h : sync.Checks m condition violation b m') :
    (byKind sync async reducing).Checks (.sync m) condition violation b (.sync m') := by
  change ((sync.run m).1, Messenger.sync (sync.run m).2) = _
  rw [h]
  split <;> rfl

/-- What checks on an asynchronous messenger checks on any messenger that is one. -/
theorem byKind_checks_async {m m' : AsyncMessenger α}
    (h : async.Checks m condition violation b m') :
    (byKind sync async reducing).Checks (.async m) condition violation b (.async m') := by
  change ((async.run m).1, Messenger.async (async.run m).2) = _
  rw [h]
  split <;> rfl

/-- What checks on a reducing messenger checks on any messenger that is one. -/
theorem byKind_checks_reducing {m m' : ReducingMessenger α}
    (h : reducing.Checks m condition violation b m') :
    (byKind sync async reducing).Checks (.reducing m) condition violation b (.reducing m') := by
  change ((reducing.run m).1, Messenger.reducing (reducing.run m).2) = _
  rw [h]
  split <;> rfl

end ByKind

variable {n : Nat} {m : Messenger α}

/-- An operation with one check does what is done to answer a request that is refused for one
reason. -/
theorem performStepwise_of_checks {request : Request α} {condition : Prop} [Decidable condition]
    {violation : Violation} (h : (operation request).Checks m condition violation
      (m.accept request).1 (m.accept request).2)
    (hrejection : m.rejection? request = if condition then none else some violation) :
    m.performStepwise request = m.perform request := by
  rw [performStepwise, h, perform, hrejection]
  split <;> rfl

/-- Effect by effect, a request is answered as it is as a whole. -/
theorem performStepwise_eq (h : m.Valid n) (request : Request α) :
    m.performStepwise request = m.perform request := by
  obtain rfl := nodeCount_of_valid h
  -- every request that can be refused has one check, which is that of its kind of messenger
  cases request with
  | prepare superstep =>
    cases m with
    | sync m | reducing m => rfl
    | async m =>
      simp only [performStepwise, operation, run_bind, byKind,
        AsyncMessenger.run_prepareStepwise h]
      rfl
    | released => exact h.elim
  | send t x =>
    cases m with
    | sync m =>
      have hchecks := SyncMessenger.postStepwise_checks h t x
      exact performStepwise_of_checks (Checks.bind (byKind_checks_sync hchecks) fun _ => rfl) rfl
    | async m =>
      have hchecks := AsyncMessenger.postStepwise_checks h t x
      exact performStepwise_of_checks (Checks.bind (byKind_checks_async hchecks) fun _ => rfl) rfl
    | reducing m =>
      have hchecks := ReducingMessenger.postStepwise_checks h t x
      exact performStepwise_of_checks
        (Checks.bind (byKind_checks_reducing hchecks) fun _ => rfl) rfl
    | released => exact h.elim
  | receive v =>
    cases m with
    | sync m =>
      have hchecks := SyncMessenger.receiveStepwise_checks h v
      exact performStepwise_of_checks (Checks.bind (byKind_checks_sync hchecks) fun _ => rfl) rfl
    | async m =>
      have hchecks := AsyncMessenger.receiveStepwise_checks h v
      exact performStepwise_of_checks (Checks.bind (byKind_checks_async hchecks) fun _ => rfl) rfl
    | reducing m =>
      have hchecks := ReducingMessenger.receiveStepwise_checks h v
      exact performStepwise_of_checks
        (Checks.bind (byKind_checks_reducing hchecks) fun _ => rfl) rfl
    | released => exact h.elim
  | hasMail v =>
    cases m with
    | sync m =>
      have hchecks := SyncMessenger.hasMailStepwise_checks h v
      exact performStepwise_of_checks (Checks.bind (byKind_checks_sync hchecks) fun _ => rfl) rfl
    | async m =>
      have hchecks := AsyncMessenger.hasMailStepwise_checks h v
      exact performStepwise_of_checks (Checks.bind (byKind_checks_async hchecks) fun _ => rfl) rfl
    | reducing m =>
      have hchecks := ReducingMessenger.hasMailStepwise_checks h v
      exact performStepwise_of_checks
        (Checks.bind (byKind_checks_reducing hchecks) fun _ => rfl) rfl
    | released => exact h.elim
  | pending | nodeCount | allocatedBytes | release => rfl

/-- After release nothing is done either way. -/
theorem performStepwise_released (request : Request α) :
    performStepwise .released request = perform .released request := by
  cases request <;> rfl

end Messenger

end Superstep
