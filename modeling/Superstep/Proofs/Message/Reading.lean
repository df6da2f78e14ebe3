import Mathlib
import Superstep.Message.Reading
import Superstep.Proofs.Message.Messenger

/-!
# What a reading delivers

A reading goes from cell to cell of an arena in which others go on pushing. What it has left is a
chain of cells below the cursor, which no push changes and no detached head either, so that it
delivers what its vertex had when it began, whatever is sent or received in the meantime. `left` is
the view of an unfinished reading, and `Delivers` says what the steps of a reading come to.

## Key results

- `Messenger.next?_spec`: one step of a reading is one step through what it has left
- `Messenger.Holds.post`, `Holds.afterReceiving`: others do not disturb a reading
- `Messenger.hands_inbox`: a vertex receives the same messages at once and one by one
-/

namespace Superstep

variable {α : Type}

/-! ## Chains that stay -/

namespace Queues

/-- Queues that were changed so that every chain of their cells is still there. -/
structure Grows (q q' : Queues α) : Prop where
  valid : q'.Valid
  cursor_le : q.arena.cursor ≤ q'.arena.cursor
  chain : ∀ next, (∀ i, next = some i → i < q.arena.cursor) →
    q'.arena.chain next = q.arena.chain next

/-- A queue that is left alone keeps its cells. -/
theorem Grows.refl {q : Queues α} (h : q.Valid) : q.Grows q := ⟨h, Nat.le_refl _, fun _ _ => rfl⟩

/-- A new message takes a cell that was free, or none. -/
theorem grows_push {q : Queues α} (h : q.Valid) (t : Nat) (x : α) : q.Grows (q.push t x) := by
  by_cases ht : t < q.nodeCount
  · refine ⟨h.push t x, ?_, fun next hnext => chain_push h ht x hnext⟩
    rw [arena_push q ht, Arena.cursor_push]
    omega
  · rw [push, if_neg ht]
    exact .refl h

/-- Taking messages leaves the cells where they are. -/
theorem grows_take {q : Queues α} (h : q.Valid) (v : Nat) : q.Grows (q.take v) := by
  refine ⟨h.take v, ?_, fun next _ => ?_⟩
  · rw [arena_take]
  · rw [arena_take]

end Queues

namespace Messenger

/-! ## What is left to read -/

/-- The cells to be read are in use. -/
def Holds (m : Messenger α) : Unread α → Prop
  | .linked side next =>
    ∃ q, m.queues? side = some q ∧ q.Valid ∧ ∀ i, next = some i → i < q.arena.cursor
  | .single _ => True

/-- The messages that are left to read. -/
def left (m : Messenger α) : Unread α → List α
  | .linked side next =>
    match m.queues? side with
    | some q => q.arena.chain next
    | none => []
  | .single value => value.toList

/-- The messages of a reading, read or not. -/
def contents (m : Messenger α) (r : Reading α) : List α := r.taken.reverse ++ m.left r.unread

/-- Read to the end, these messages are delivered. -/
inductive Delivers (m : Messenger α) : Unread α → List α → Prop
  | done {u : Unread α} (h : m.next? u = none) : Delivers m u []
  | more {u u' : Unread α} {x : α} {xs : List α} (h : m.next? u = some (x, u'))
      (hrest : Delivers m u' xs) : Delivers m u (x :: xs)

variable {m m' : Messenger α} {u : Unread α} {n : Nat}

/-- One step of a reading is one step through what it has left. -/
theorem next?_spec (h : m.Holds u) :
    (m.left u = [] ∧ u.isEmpty = true ∧ m.next? u = none) ∨
      ∃ x u', m.left u = x :: m.left u' ∧ u.isEmpty = false ∧ m.next? u = some (x, u') ∧
        m.Holds u' := by
  cases u with
  | linked side next =>
    obtain ⟨q, hq, hvalid, hnext⟩ := h
    cases next with
    | none => exact .inl ⟨by simp [left, hq], rfl, rfl⟩
    | some i =>
      have hi := hnext i rfl
      obtain ⟨c, hc, hlinked⟩ := hvalid.arena.linked i hi
      refine .inr ⟨c.value, .linked side c.next, ?_, rfl, ?_, q, hq, hvalid, ?_⟩
      · simp [left, hq, Arena.chain_some hvalid.arena hi hc]
      · simp [next?, hq, hc]
      · -- a link leads to an older cell, which is in use too
        intro j hj
        exact Nat.lt_trans (hlinked j hj) hi
  | single value =>
    cases value with
    | none => exact .inl ⟨rfl, rfl, rfl⟩
    | some x => exact .inr ⟨x, .single none, rfl, rfl, rfl, trivial⟩

/-- A reading comes to an end, and delivers what it has left. -/
theorem delivers_left (h : m.Holds u) : m.Delivers u (m.left u) := by
  -- every step takes one message off what is left
  induction hleft : m.left u generalizing u with
  | nil =>
    rcases next?_spec h with ⟨-, -, hnext⟩ | ⟨x, u', hcons, -⟩
    · exact .done hnext
    · rw [hleft] at hcons
      cases hcons
  | cons x xs ih =>
    rcases next?_spec h with ⟨hnil, -⟩ | ⟨y, u', hcons, -, hnext, hholds⟩
    · rw [hleft] at hnil
      cases hnil
    · rw [hleft] at hcons
      obtain ⟨rfl, hrest⟩ := List.cons.inj hcons
      exact .more hnext (hrest ▸ ih hholds hrest.symm)

/-- Reading on moves messages from what is left to what was read. -/
theorem readOn_spec {r : Reading α} (h : m.Holds r.unread) :
    m.Holds (m.readOn r).unread ∧ (m.readOn r).vertex = r.vertex ∧
      m.contents (m.readOn r) = m.contents r := by
  rcases next?_spec h with ⟨-, -, hnext⟩ | ⟨x, u', hleft, -, hnext, hholds⟩
  · have hsame : m.readOn r = r := by
      rw [readOn, hnext]
    rw [hsame]
    exact ⟨h, rfl, rfl⟩
  · have hread : m.readOn r = ⟨r.vertex, x :: r.taken, u'⟩ := by
      rw [readOn, hnext]
    rw [hread]
    refine ⟨hholds, rfl, ?_⟩
    simp [contents, hleft]

/-- However much is read, what was read and what is left stay the same messages. -/
theorem readUpTo_spec (count : Nat) {r : Reading α} (h : m.Holds r.unread) :
    m.Holds (m.readUpTo count r).unread ∧ (m.readUpTo count r).vertex = r.vertex ∧
      m.contents (m.readUpTo count r) = m.contents r := by
  induction count generalizing r with
  | zero => exact ⟨h, rfl, rfl⟩
  | succ count ih =>
    rw [readUpTo]
    split
    · exact ⟨h, rfl, rfl⟩
    · obtain ⟨hholds, hvertex, hcontents⟩ := readOn_spec h
      obtain ⟨hholds', hvertex', hcontents'⟩ := ih hholds
      exact ⟨hholds', hvertex'.trans hvertex, hcontents'.trans hcontents⟩

/-! ## What others do in the meantime -/

/-- A reading is not disturbed where every chain of cells stays. -/
theorem Holds.of_grows (h : m.Holds u) (hgrows : ∀ side q, m.queues? side = some q → q.Valid →
    ∃ q', m'.queues? side = some q' ∧ q.Grows q') : m'.Holds u ∧ m'.left u = m.left u := by
  cases u with
  | linked side next =>
    obtain ⟨q, hq, hvalid, hnext⟩ := h
    obtain ⟨q', hq', hgrows⟩ := hgrows side q hq hvalid
    refine ⟨⟨q', hq', hgrows.valid, fun i hi => ?_⟩, ?_⟩
    · exact Nat.lt_of_lt_of_le (hnext i hi) hgrows.cursor_le
    · simp only [left, hq, hq']
      exact hgrows.chain next hnext
  | single value => exact ⟨trivial, rfl⟩

/-- Two buffers of which one has grown. -/
private theorem grows_modify {buffers : Buffers (Queues α)} {changed side : Side}
    {f : Queues α → Queues α} (hf : ∀ q : Queues α, q.Valid → q.Grows (f q))
    (hvalid : (buffers.get side).Valid) :
    (buffers.get side).Grows ((buffers.modify changed f).get side) := by
  rcases changed.eq_or_eq_other side with rfl | rfl
  · rw [Buffers.get_modify_self]
    exact hf _ hvalid
  · rw [Buffers.get_modify_other]
    exact .refl hvalid

/-- A reading is not disturbed by messages that are sent. -/
theorem Holds.post (h : m.Holds u) (t : Nat) (x : α) :
    (m.post t x).Holds u ∧ (m.post t x).left u = m.left u := by
  refine h.of_grows fun side q hq hvalid => ?_
  cases m with
  | sync m | async m =>
    obtain rfl := Option.some.inj hq
    exact ⟨_, rfl, grows_modify (fun q hvalid => Queues.grows_push hvalid t x) hvalid⟩
  | reducing m => cases hq
  | released => cases hq

/-- A reading is not disturbed when messages are received, those of its own vertex included. -/
theorem Holds.afterReceiving (h : m.Holds u) (v : Nat) :
    (m.afterReceiving v).Holds u ∧ (m.afterReceiving v).left u = m.left u := by
  refine h.of_grows fun side q hq hvalid => ?_
  cases m with
  | sync m => exact ⟨q, hq, .refl hvalid⟩
  | async m =>
    obtain rfl := Option.some.inj hq
    exact ⟨_, rfl, grows_modify (fun q hvalid => Queues.grows_take hvalid v) hvalid⟩
  | reducing m => cases hq
  | released => cases hq

/-! ## Beginning to read -/

/-- A reading begins with everything that its vertex would receive. -/
theorem holds_unread (h : m.Valid n) (v : Nat) :
    m.Holds (m.unread v) ∧ m.left (m.unread v) = m.inbox v := by
  cases m with
  | sync m => exact ⟨⟨_, rfl, h.queues _, (h.queues m.writing.other).heads v⟩, rfl⟩
  | async m => exact ⟨⟨_, rfl, h.queues _, (h.queues m.current).heads v⟩, rfl⟩
  | reducing m => exact ⟨trivial, rfl⟩
  | released => exact h.elim

/-- Vertex `v` is handed these messages, whether it receives them at once or reads them one by one,
and they leave the messenger `m'` behind. -/
structure Hands (m : Messenger α) (v : Nat) (inbox : List α) (m' : Messenger α) : Prop where
  atOnce : m.perform (.receive v) = (.ok (.messages inbox), m')
  oneByOne : ∃ u, m.beginReading v = (.ok ⟨v, [], u⟩, m') ∧ m'.Delivers u inbox

/-- A vertex receives the same messages at once and one by one. -/
theorem hands_inbox (h : m.Valid n) {v : Nat} (hv : v < n) :
    m.Hands v (m.inbox v) (m.afterReceiving v) := by
  have haccepts := (readRefusal?_eq_none_iff h v).mpr hv
  obtain ⟨hholds, hleft⟩ := holds_unread h v
  obtain ⟨hafter, hsame⟩ := hholds.afterReceiving v
  refine ⟨?_, m.unread v, ?_, ?_⟩
  · simp only [perform, rejection?, haccepts, accept]
  · simp only [beginReading, haccepts]
  · rw [← hleft, ← hsame]
    exact delivers_left hafter

end Messenger

end Superstep
