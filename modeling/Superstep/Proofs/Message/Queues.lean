import Mathlib
import Superstep.Message.Queues
import Superstep.Proofs.Message.Arena
import Superstep.Proofs.Storage.PagedArray

/-!
# Message queues keep what is pushed

Each operation of a set of queues is described by what it does to the queue of every vertex. The
representation is `Queues.Valid`: the arena is well-formed and every head lies below its cursor, so
that a list is never cut off and a fresh cell never joins an old list.

## Key results

- `Queues.inbox_push`, `inbox_take`, `inbox_clear`, `inbox_takeAll`, `inbox_receiveAll`: the queues
  after each operation
- `Queues.head_eq_none_iff`: a vertex has a head exactly if it has messages
- `Queues.hasPending_iff`: the scan of the heads finds a message exactly if there is one
-/

namespace Superstep

namespace Queues

variable {α : Type}

/-- Every head lies below the cursor of a well-formed arena. -/
structure Valid (q : Queues α) : Prop where
  arena : q.arena.Valid
  heads : ∀ v i, q.head v = some i → i < q.arena.cursor

/-! ## Heads -/

/-- A vertex without a place among the heads has no head, as one whose queue is empty. -/
theorem head_eq_join (q : Queues α) (v : Nat) : q.head v = (q.heads.get? v).join := by
  unfold head
  cases q.heads.get? v <;> rfl

/-- Setting a head changes it for its vertex only. -/
theorem head_set (heads : PagedArray (Option Nat)) (arena : Arena α) (v w : Nat)
    (next : Option Nat) :
    (⟨heads.set v next, arena⟩ : Queues α).head w =
      if v = w ∧ w < heads.size then next else (⟨heads, arena⟩ : Queues α).head w := by
  rw [head_eq_join, head_eq_join, PagedArray.get?_set]
  split <;> rfl

/-- Filling the heads detaches every queue. -/
theorem head_fill_none (heads : PagedArray (Option Nat)) (arena : Arena α) (v : Nat) :
    (⟨heads.fill none, arena⟩ : Queues α).head v = none := by
  rw [head_eq_join, PagedArray.get?_fill]
  split <;> rfl

/-- Only vertices have messages. -/
theorem head_of_le (q : Queues α) {v : Nat} (hv : q.nodeCount ≤ v) : q.head v = none := by
  rw [head_eq_join, (PagedArray.get?_eq_none_iff _).mpr hv]
  rfl

@[simp] theorem nodeCount_empty (n : Nat) : (empty n : Queues α).nodeCount = n := rfl

/-- A push keeps the number of vertices. -/
@[simp] theorem nodeCount_push (q : Queues α) (t : Nat) (x : α) :
    (q.push t x).nodeCount = q.nodeCount := by
  unfold push
  split <;> rfl

/-- Taking a queue keeps the number of vertices. -/
@[simp] theorem nodeCount_take (q : Queues α) (v : Nat) : (q.take v).nodeCount = q.nodeCount := by
  unfold take
  split <;> rfl

/-- Clearing keeps the number of vertices. -/
@[simp] theorem nodeCount_clear (q : Queues α) : q.clear.nodeCount = q.nodeCount := by
  unfold clear
  split <;> rfl

@[simp] theorem nodeCount_takeAll (q : Queues α) : q.takeAll.nodeCount = q.nodeCount := by
  unfold takeAll
  split <;> rfl

/-! ## Empty queues -/

/-- Empty queues have no heads. -/
theorem head_emptyWith (n shift v : Nat) : (emptyWith n shift : Queues α).head v = none := by
  rw [head_eq_join, emptyWith, PagedArray.get?_replicate]
  split <;> rfl

/-- Empty queues are well-formed, with pages of any size. -/
theorem valid_emptyWith (n shift : Nat) : (emptyWith n shift : Queues α).Valid where
  arena := Arena.valid_empty shift
  heads v i hv := by
    rw [head_emptyWith] at hv
    cases hv

/-- Empty queues are well-formed. -/
theorem valid_empty (n : Nat) : (empty n : Queues α).Valid := valid_emptyWith n _

/-- A vertex without a head has no messages. -/
theorem inbox_of_head_eq_none {q : Queues α} {v : Nat} (h : q.head v = none) : q.inbox v = [] := by
  rw [inbox, h, Arena.chain_none]

/-- A vertex has no head exactly if it has no messages. -/
theorem head_eq_none_iff {q : Queues α} (h : q.Valid) (v : Nat) :
    q.head v = none ↔ q.inbox v = [] := by
  refine ⟨inbox_of_head_eq_none, fun hnil => ?_⟩
  cases hhead : q.head v with
  | none => rfl
  | some i =>
    -- a head lies below the cursor, so its cell is there and the queue is not empty
    have hi := h.heads v i hhead
    obtain ⟨c, hc, -⟩ := h.arena.linked i hi
    rw [inbox, hhead, Arena.chain_some h.arena hi hc] at hnil
    cases hnil

/-- A vertex has a head exactly if it has messages. -/
theorem isSome_head_iff {q : Queues α} (h : q.Valid) (v : Nat) :
    (q.head v).isSome = true ↔ q.inbox v ≠ [] := by
  rw [Option.isSome_iff_ne_none, ne_eq, head_eq_none_iff h]

/-- Empty queues have no messages, with pages of any size. -/
theorem inbox_emptyWith (n shift v : Nat) : (emptyWith n shift : Queues α).inbox v = [] :=
  inbox_of_head_eq_none (head_emptyWith n shift v)

/-- Empty queues have no messages. -/
@[simp] theorem inbox_empty (n v : Nat) : (empty n : Queues α).inbox v = [] :=
  inbox_emptyWith n _ v

/-- A vertex that does not exist has no messages. -/
theorem inbox_of_le (q : Queues α) {v : Nat} (hv : q.nodeCount ≤ v) : q.inbox v = [] :=
  inbox_of_head_eq_none (q.head_of_le hv)

/-- An arena without cells leaves no queue anything. -/
theorem inbox_of_isEmpty {q : Queues α} (h : q.Valid) (hempty : q.isEmpty = true) (v : Nat) :
    q.inbox v = [] := by
  have hcursor : q.arena.cursor = 0 := by simpa [isEmpty] using hempty
  -- no index lies below a cursor of zero
  apply inbox_of_head_eq_none
  cases hhead : q.head v with
  | none => rfl
  | some i => exact absurd (h.heads v i hhead) (by omega)

/-! ## Pushing and taking -/

/-- After a push the cursor's cell is the head of the target, and the other heads are as before. -/
theorem head_push (q : Queues α) {t : Nat} (ht : t < q.nodeCount) (x : α) (v : Nat) :
    (q.push t x).head v = if t = v then some q.arena.cursor else q.head v := by
  rw [push, if_pos ht]
  rw [head_set]
  by_cases htv : t = v
  · rw [if_pos ⟨htv, htv ▸ ht⟩, if_pos htv]
  · rw [if_neg (fun hand => htv hand.1), if_neg htv]
    rfl

/-- A push puts the message into the arena, linked to the former head. -/
theorem arena_push (q : Queues α) {t : Nat} (ht : t < q.nodeCount) (x : α) :
    (q.push t x).arena = q.arena.push ⟨x, q.head t⟩ := by
  rw [push, if_pos ht]

/-- A push keeps the queues well-formed. -/
theorem Valid.push {q : Queues α} (h : q.Valid) (t : Nat) (x : α) : (q.push t x).Valid := by
  by_cases ht : t < q.nodeCount
  · constructor
    · rw [arena_push q ht]
      exact h.arena.push _ fun j hj => h.heads t j hj
    · -- the new head is the old cursor, and the cursor moves past it
      intro v i hv
      rw [head_push q ht] at hv
      rw [arena_push q ht, Arena.cursor_push]
      split at hv
      · cases hv
        omega
      · have := h.heads v i hv
        omega
  · -- a message to nobody is dropped
    rw [Queues.push, if_neg ht]
    exact h

/-- What was queued before a push runs through cells that the push keeps. -/
theorem chain_push {q : Queues α} (h : q.Valid) {t : Nat} (ht : t < q.nodeCount) (x : α)
    {next : Option Nat} (hnext : ∀ i, next = some i → i < q.arena.cursor) :
    (q.push t x).arena.chain next = q.arena.chain next := by
  -- both arenas agree on the cells below the old cursor, and links lead down
  apply Arena.chain_congr (h.push t x).arena h.arena q.arena.cursor
  · rw [arena_push q ht, Arena.cursor_push]
    omega
  · exact Nat.le_refl _
  · intro i hi
    rw [arena_push q ht, Arena.get?_push_of_lt h.arena _ hi]
  · exact hnext

/-- A push puts a message in front of its vertex's queue and leaves the other queues alone. -/
theorem inbox_push {q : Queues α} (h : q.Valid) {t : Nat} (ht : t < q.nodeCount) (x : α) (v : Nat) :
    (q.push t x).inbox v = if t = v then x :: q.inbox v else q.inbox v := by
  have hvalid := h.push t x
  rw [inbox, head_push q ht]
  split
  · rename_i htv
    subst htv
    -- the head of the target is the new cell, and its link the former head
    have hget : (q.push t x).arena.get? q.arena.cursor = some ⟨x, q.head t⟩ := by
      rw [arena_push q ht, Arena.get?_push_self h.arena]
    have hcursor : q.arena.cursor < (q.push t x).arena.cursor := by
      rw [arena_push q ht, Arena.cursor_push]
      omega
    rw [Arena.chain_some hvalid.arena hcursor hget, chain_push h ht x (h.heads t)]
    rfl
  · exact chain_push h ht x (h.heads v)

/-- Taking a queue removes its head only. -/
theorem head_take (q : Queues α) (v w : Nat) :
    (q.take v).head w = if v = w then none else q.head w := by
  unfold take
  split
  · rename_i hsome
    -- a vertex with a head exists
    have hv : v < q.heads.size := by
      apply Nat.lt_of_not_le
      intro hle
      rw [q.head_of_le hle] at hsome
      cases hsome
    rw [head_set]
    by_cases hvw : v = w
    · rw [if_pos ⟨hvw, hvw ▸ hv⟩, if_pos hvw]
    · rw [if_neg (fun hand => hvw hand.1), if_neg hvw]
  · rename_i hnone
    split
    · rename_i hvw
      -- a queue without a head is taken by doing nothing
      rw [← hvw]
      simpa using hnone
    · rfl

/-- Taking a queue leaves its cells where they are. -/
@[simp] theorem arena_take (q : Queues α) (v : Nat) : (q.take v).arena = q.arena := by
  unfold take
  split <;> rfl

/-- Taking a queue keeps the queues well-formed. -/
theorem Valid.take {q : Queues α} (h : q.Valid) (v : Nat) : (q.take v).Valid where
  arena := by rw [arena_take]; exact h.arena
  heads w i hw := by
    rw [head_take] at hw
    rw [arena_take]
    split at hw
    · cases hw
    · exact h.heads w i hw

/-- Taking a queue leaves it empty and the other queues alone. -/
theorem inbox_take (q : Queues α) (v w : Nat) :
    (q.take v).inbox w = if v = w then [] else q.inbox w := by
  rw [inbox, head_take, arena_take]
  split
  · exact Arena.chain_none _
  · rfl

/-! ## Operations on all queues -/

/-- After clearing nobody has messages. -/
theorem inbox_clear {q : Queues α} (h : q.Valid) (v : Nat) : q.clear.inbox v = [] := by
  unfold clear
  split
  · rename_i hempty
    exact inbox_of_isEmpty h hempty v
  · exact inbox_of_head_eq_none (head_fill_none _ _ v)

/-- Clearing keeps the queues well-formed. -/
theorem Valid.clear {q : Queues α} (h : q.Valid) : q.clear.Valid := by
  unfold Queues.clear
  split
  · exact h
  · refine ⟨h.arena.clear, fun v i hv => ?_⟩
    rw [head_fill_none] at hv
    cases hv

/-- After clearing no cell is in use. -/
@[simp] theorem isEmpty_clear (q : Queues α) : q.clear.isEmpty = true := by
  unfold clear
  split
  · assumption
  · rfl

/-- After every queue is detached nobody has messages. -/
theorem inbox_takeAll {q : Queues α} (h : q.Valid) (v : Nat) : q.takeAll.inbox v = [] := by
  unfold takeAll
  split
  · rename_i hempty
    exact inbox_of_isEmpty h hempty v
  · exact inbox_of_head_eq_none (head_fill_none _ _ v)

/-- Detaching every queue keeps the queues well-formed. -/
theorem Valid.takeAll {q : Queues α} (h : q.Valid) : q.takeAll.Valid := by
  unfold Queues.takeAll
  split
  · exact h
  · refine ⟨h.arena, fun v i hv => ?_⟩
    rw [head_fill_none] at hv
    cases hv

/-- Pushing messages one after the other to one vertex. -/
private theorem pushes_spec {q : Queues α} (h : q.Valid) {t : Nat} (ht : t < q.nodeCount)
    (xs : List α) :
    (xs.foldl (fun q x => q.push t x) q).Valid ∧
      (xs.foldl (fun q x => q.push t x) q).nodeCount = q.nodeCount ∧
      ∀ v, (xs.foldl (fun q x => q.push t x) q).inbox v =
        if t = v then xs.reverse ++ q.inbox v else q.inbox v := by
  -- each push puts its message in front, so the list arrives reversed
  induction xs generalizing q with
  | nil => exact ⟨h, rfl, fun v => by simp⟩
  | cons x xs ih =>
    obtain ⟨hvalid, hcount, hinbox⟩ := ih (h.push t x) (by rw [nodeCount_push]; exact ht)
    refine ⟨hvalid, by rw [List.foldl_cons, hcount, nodeCount_push], fun v => ?_⟩
    rw [List.foldl_cons, hinbox, inbox_push h ht]
    split
    · rw [List.reverse_cons, List.append_assoc]
      rfl
    · rfl

/-- Queueing every message of `source` for the vertices below `k`. -/
private theorem receive_range_spec {target : Queues α} (source : Queues α) (h : target.Valid)
    (k : Nat) (hk : k ≤ target.nodeCount) :
    let received := (List.range k).foldl
      (fun t node => (source.inbox node).foldl (fun t value => t.push node value) t) target
    received.Valid ∧ received.nodeCount = target.nodeCount ∧
      ∀ v, received.inbox v =
        if v < k then (source.inbox v).reverse ++ target.inbox v else target.inbox v := by
  -- the induction is on the vertices that were served, in ascending order
  induction k with
  | zero => exact ⟨h, rfl, fun v => by simp⟩
  | succ k ih =>
    obtain ⟨hvalid, hcount, hinbox⟩ := ih (by omega)
    obtain ⟨hvalid', hcount', hinbox'⟩ :=
      pushes_spec hvalid (t := k) (by rw [hcount]; omega) (source.inbox k)
    simp only [List.range_succ, List.foldl_append, List.foldl_cons, List.foldl_nil]
    refine ⟨hvalid', hcount'.trans hcount, fun v => ?_⟩
    rw [hinbox', hinbox]
    -- vertex `k` is served in this step, the vertices below it were before
    by_cases hkv : k = v
    · subst hkv
      simp
    · by_cases hv : v < k
      · rw [if_neg hkv, if_pos hv, if_pos (by omega)]
      · rw [if_neg hkv, if_neg hv, if_neg (by omega)]

/-- Receiving all of `source` keeps the queues well-formed and puts each queue of `source`,
reversed, in front of its own. -/
theorem receiveAll_spec {target source : Queues α} (h : target.Valid) (hsource : source.Valid)
    (hcount : target.nodeCount = source.nodeCount) :
    (target.receiveAll source).Valid ∧
      (target.receiveAll source).nodeCount = target.nodeCount ∧
      ∀ v, (target.receiveAll source).inbox v = (source.inbox v).reverse ++ target.inbox v := by
  unfold receiveAll
  split
  · rename_i hempty
    -- the shortcut: a source without cells has nothing to move
    exact ⟨h, rfl, fun v => by rw [inbox_of_isEmpty hsource hempty]; rfl⟩
  · obtain ⟨hvalid, hnodes, hinbox⟩ :=
      receive_range_spec source h source.nodeCount (Nat.le_of_eq hcount.symm)
    refine ⟨hvalid, hnodes, fun v => ?_⟩
    rw [hinbox]
    split
    · rfl
    · rename_i hv
      -- there is nothing to move for a vertex that does not exist
      rw [source.inbox_of_le (by omega)]
      rfl

/-- Receiving keeps the queues well-formed. -/
theorem Valid.receiveAll {target source : Queues α} (h : target.Valid) (hsource : source.Valid)
    (hcount : target.nodeCount = source.nodeCount) : (target.receiveAll source).Valid :=
  (receiveAll_spec h hsource hcount).1

/-- Receiving keeps the number of vertices. -/
theorem nodeCount_receiveAll {target source : Queues α} (h : target.Valid) (hsource : source.Valid)
    (hcount : target.nodeCount = source.nodeCount) :
    (target.receiveAll source).nodeCount = target.nodeCount :=
  (receiveAll_spec h hsource hcount).2.1

/-- Every queue of `source` arrives in front of what was there, its oldest message first. -/
theorem inbox_receiveAll {target source : Queues α} (h : target.Valid) (hsource : source.Valid)
    (hcount : target.nodeCount = source.nodeCount) (v : Nat) :
    (target.receiveAll source).inbox v = (source.inbox v).reverse ++ target.inbox v :=
  (receiveAll_spec h hsource hcount).2.2 v

/-! ## Whether something waits -/

/-- The scan of the heads finds something exactly if somebody has a message. -/
theorem hasPending_iff {q : Queues α} (h : q.Valid) :
    q.hasPending = true ↔ ∃ v, q.inbox v ≠ [] := by
  rw [hasPending, Bool.and_eq_true, PagedArray.any_iff]
  constructor
  · rintro ⟨-, v, head, hget, hsome⟩
    -- a head that is set leads to a message
    refine ⟨v, (isSome_head_iff h v).mp ?_⟩
    rw [head_eq_join, hget]
    exact hsome
  · rintro ⟨v, hv⟩
    constructor
    · -- a message takes a cell, so the arena is in use
      cases hempty : q.isEmpty with
      | false => rfl
      | true => exact absurd (inbox_of_isEmpty h hempty v) hv
    · -- and its vertex has a head that the scan comes across
      have hsome := (isSome_head_iff h v).mpr hv
      rw [head_eq_join] at hsome
      cases hget : q.heads.get? v with
      | none => rw [hget] at hsome; cases hsome
      | some head => rw [hget] at hsome; exact ⟨v, head, hget, hsome⟩

end Queues

end Superstep
