import Mathlib
import Superstep.Proofs.Message.Paging
import Superstep.Proofs.Message.Session

/-!
# Bytes that messengers hold

The cells that a buffer has in use are told by the requests: a message that is sent takes a cell,
and so does one that moves to the other buffer between supersteps, and clearing frees them all. The
most that a buffer ever had in use is its peak. A messenger with queues holds its estimate and the
pages for the peaks of its buffers, so that it grows only past a peak and never shrinks. A reducing
messenger holds its estimate.

## Key results

- `Usage.peak_mono`, `Usage.peak_append`: peaks over time
- `Session.booked_step`, `Session.booked_after`: the buffers keep to what the requests say
- `held_bytes`: the bytes at every moment of a history
-/

namespace Superstep

variable {α : Type} {n : Nat}

/-! ## Cells in use -/

/-- The cells that the buffers of a messenger have in use, as its requests tell. -/
structure Usage where
  /-- The side that messages are written to. -/
  writing : Side
  used : Buffers Nat
  /-- The vertices that messages wait for, once for each message. A synchronous messenger does not
  care who has received. -/
  addressees : List Nat

namespace Usage

/-- Nothing is in use. -/
def none : Usage := ⟨.first, ⟨0, 0⟩, []⟩

/-- The cells in use after one more step. -/
def step (n : Nat) (isAsynchronous : Bool) (u : Usage) : SessionStep α → Usage
  | .prepare superstep =>
    if isAsynchronous then
      -- what waits moves to the other buffer, and the one that it leaves is cleared
      ⟨u.writing.other, (u.used.modify u.writing fun _ => 0).modify u.writing.other
        fun _ => u.addressees.length, u.addressees⟩
    else ⟨.ofParity superstep, u.used.modify (.ofParity superstep) fun _ => 0, u.addressees⟩
  | .errand (.send t _) =>
    if t < n then ⟨u.writing, u.used.modify u.writing (· + 1), t :: u.addressees⟩ else u
  | .errand (.receive v) | .errand (.beginReading v) =>
    ⟨u.writing, u.used, u.addressees.filter (· ≠ v)⟩
  | .errand (.readOn _ _) => u

/-- The cells in use after a history. -/
def after (n : Nat) (isAsynchronous : Bool) (history : List (SessionStep α)) : Usage :=
  history.foldl (step n isAsynchronous) none

/-- The most cells that a buffer had in use at any moment of a history. -/
def peak (n : Nat) (isAsynchronous : Bool) (history : List (SessionStep α)) (side : Side) : Nat :=
  (Finset.range (history.length + 1)).sup fun k =>
    (after n isAsynchronous (history.take k)).used.get side

variable {isAsynchronous : Bool} {history later : List (SessionStep α)} {side : Side}

/-- The last step starts from what the earlier ones left in use. -/
theorem after_concat (history : List (SessionStep α)) (a : SessionStep α) :
    after n isAsynchronous (history ++ [a]) = (after n isAsynchronous history).step n
      isAsynchronous a :=
  List.foldl_concat ..

/-- A bound on the peak is one on every moment. -/
theorem peak_le_iff {bound : Nat} : peak n isAsynchronous history side ≤ bound ↔
    ∀ k, (after n isAsynchronous (history.take k)).used.get side ≤ bound := by
  rw [peak, Finset.sup_le_iff]
  constructor
  · intro h k
    -- beyond the history there is nothing but its end
    rcases Nat.lt_or_ge k (history.length + 1) with hk | hk
    · exact h k (Finset.mem_range.mpr hk)
    · have hall := h history.length (Finset.mem_range.mpr (Nat.lt_succ_self _))
      rwa [List.take_length, ← List.take_of_length_le (Nat.le_of_succ_le hk)] at hall
  · exact fun h k _ => h k

/-- No moment is above the peak. -/
theorem le_peak (history : List (SessionStep α)) (side : Side) (k : Nat) :
    (after n isAsynchronous (history.take k)).used.get side ≤ peak n isAsynchronous history side :=
  peak_le_iff.mp (Nat.le_refl _) k

/-- One more step raises the peak to what is in use after it, at most. -/
theorem peak_concat (history : List (SessionStep α)) (a : SessionStep α) (side : Side) :
    peak n isAsynchronous (history ++ [a]) side = max (peak n isAsynchronous history side)
      ((after n isAsynchronous (history ++ [a])).used.get side) := by
  refine Nat.le_antisymm (peak_le_iff.mpr fun k => ?_) (Nat.max_le.mpr ⟨?_, ?_⟩)
  · -- a moment of the longer history is its end or one of before
    rcases Nat.lt_or_ge history.length k with hk | hk
    · rw [List.take_of_length_le (by simpa using hk)]
      exact Nat.le_max_right _ _
    · rw [List.take_append_of_le_length hk]
      exact Nat.le_trans (le_peak history side k) (Nat.le_max_left _ _)
  · refine peak_le_iff.mpr fun k => ?_
    -- the moments of before are still there
    have hprefix : (history ++ [a]).take (min k history.length) = history.take k := by
      rw [List.take_append_of_le_length (Nat.min_le_right _ _), ← List.take_eq_take_min]
    rw [← hprefix]
    exact le_peak _ side _
  · have hall : _ ≤ peak n isAsynchronous (history ++ [a]) side :=
      le_peak (history ++ [a]) side (history ++ [a]).length
    rwa [List.take_length] at hall

/-- Peaks do not go down. -/
theorem peak_mono (history later : List (SessionStep α)) (side : Side) :
    peak n isAsynchronous history side ≤ peak n isAsynchronous (history ++ later) side := by
  -- on the later steps, each of which can only raise the peak
  induction later using List.reverseRecOn with
  | nil => rw [List.append_nil]
  | append_singleton later a ih =>
    rw [← List.append_assoc, peak_concat]
    exact Nat.le_trans ih (Nat.le_max_left _ _)

/-- Where no more is in use than at the peak before, the peak stays. -/
theorem peak_append (h : ∀ k, (after n isAsynchronous (history ++ later.take k)).used.get side
    ≤ peak n isAsynchronous history side) :
    peak n isAsynchronous (history ++ later) side = peak n isAsynchronous history side := by
  refine Nat.le_antisymm (peak_le_iff.mpr fun k => ?_) (peak_mono history later side)
  rw [List.take_append]
  -- a moment of the earlier history, or one after it
  rcases Nat.le_total k history.length with hk | hk
  · rw [Nat.sub_eq_zero_of_le hk, List.take_zero, List.append_nil]
    exact le_peak history side k
  · rw [List.take_of_length_le hk]
    exact h _

/-- Without a message nothing is in use. -/
theorem after_of_silent (h : ∀ t x, .errand (.send t x) ∈ history → n ≤ t) :
    (∀ side, (after n isAsynchronous history).used.get side = 0) ∧
      (after n isAsynchronous history).addressees = [] := by
  -- on the steps from the last one, none of which is a message that is taken
  induction history using List.reverseRecOn with
  | nil => exact ⟨fun side => by cases side <;> rfl, rfl⟩
  | append_singleton history a ih =>
    obtain ⟨hused, hwaiting⟩ := ih fun t x hmem => h t x (List.mem_append_left _ hmem)
    rw [after_concat]
    -- the step of each kind leaves nothing in use
    cases a with
    | prepare superstep =>
      rw [step]
      split
      · have hcleared := Buffers.forall_get_modify (p := (· = 0)) hused
          (after n isAsynchronous history).writing fun _ _ => rfl
        refine ⟨Buffers.forall_get_modify (p := (· = 0)) hcleared _ fun _ _ => ?_, hwaiting⟩
        rw [hwaiting, List.length_nil]
      · exact ⟨Buffers.forall_get_modify (p := (· = 0)) hused _ fun _ _ => rfl, hwaiting⟩
    | errand e =>
      cases e with
      | send t x =>
        have ht : n ≤ t := h t x (List.mem_append_right _ (List.mem_singleton_self _))
        rw [step, if_neg (Nat.not_lt.mpr ht)]
        exact ⟨hused, hwaiting⟩
      | receive v | beginReading v =>
        refine ⟨hused, ?_⟩
        rw [step, hwaiting, List.filter_nil]
      | readOn place count => exact ⟨hused, hwaiting⟩

/-- Without a message the peaks are zero. -/
theorem peak_of_silent (h : ∀ t x, .errand (.send t x) ∈ history → n ≤ t) (side : Side) :
    peak n isAsynchronous history side = 0 := by
  refine Nat.le_zero.mp (peak_le_iff.mpr fun k => ?_)
  rw [(after_of_silent fun t x hmem => h t x (List.mem_of_mem_take hmem)).1 side]

/-- Both buffers have as many cells in use as the usage says, and had as many as the peaks. -/
def Covers (u : Usage) (peak : Side → Nat) (buffers : Buffers (Queues α)) : Prop :=
  ∀ side, (buffers.get side).Charged (u.used.get side) (peak side)

/-- New buffers have no cell in use. -/
theorem covers_empty (n : Nat) :
    none.Covers (fun _ => 0) (⟨.empty n, .empty n⟩ : Buffers (Queues α)) := by
  intro side
  cases side <;> exact Queues.charged_empty n

/-- What waits moves to the other buffer. -/
theorem used_prepare (u : Usage) (superstep : Nat) :
    let u' := u.step n true (.prepare superstep : SessionStep α)
    u'.used.get u.writing = 0 ∧ u'.used.get u.writing.other = u.addressees.length := by
  obtain ⟨writing, used, addressees⟩ := u
  cases writing <;> exact ⟨rfl, rfl⟩

/-- The peaks once so many cells are in use. -/
def raise (u : Usage) (peak : Side → Nat) (side : Side) : Nat := max (peak side) (u.used.get side)

variable {u u' : Usage} {peak : Side → Nat} {buffers : Buffers (Queues α)}

/-- Where as many cells are in use as before, the peaks are the same. -/
theorem Covers.raise_of_eq (h : u.Covers peak buffers) (hused : u'.used = u.used) :
    u'.Covers (u'.raise peak) buffers := by
  intro side
  rw [raise, hused, max_eq_left (h side).used_le]
  exact h side

/-- A change on one side raises the peak there, and leaves the other side as it was. -/
theorem Covers.raise_modify (h : u.Covers peak buffers) {changed : Side} {g : Nat → Nat}
    (hused : u'.used = u.used.modify changed g) {f : Queues α → Queues α}
    (hf : (f (buffers.get changed)).Charged (g (u.used.get changed))
      (max (peak changed) (g (u.used.get changed)))) :
    u'.Covers (u'.raise peak) (buffers.modify changed f) := by
  intro side
  rw [raise, hused]
  -- the side that changed, and the other one
  rcases changed.eq_or_eq_other side with rfl | rfl
  · rw [Buffers.get_modify_self, Buffers.get_modify_self]
    exact hf
  · rw [Buffers.get_modify_other, Buffers.get_modify_other, max_eq_left (h _).used_le]
    exact h _

/-- Detaching a queue frees no cell. -/
theorem Covers.take (h : u.Covers peak buffers) (changed : Side) (v : Nat) :
    u.Covers peak (buffers.modify changed (·.take v)) := by
  intro side
  -- the buffer that the queue was in, and the other one
  rcases changed.eq_or_eq_other side with rfl | rfl
  · rw [Buffers.get_modify_self]
    exact (h _).take v
  · rw [Buffers.get_modify_other]
    exact h _

/-- The bytes of both buffers. -/
theorem Covers.queueBytes_eq (h : u.Covers peak buffers)
    (hsizes : ∀ side, (buffers.get side).nodeCount = n) :
    Messenger.queueBytes buffers = 2 * Footprint.queues n
      + (Queues.pageBytes (peak .first) + Queues.pageBytes (peak .second)) := by
  -- each buffer has its list heads, and pages for its peak
  have hfirst := (h .first).allocatedBytes_eq
  have hsecond := (h .second).allocatedBytes_eq
  rw [hsizes] at hfirst hsecond
  have hcount : buffers.first.nodeCount = n := hsizes .first
  have hcount' : buffers.second.nodeCount = n := hsizes .second
  simp only [Buffers.get] at hfirst hsecond
  rw [Messenger.queueBytes, hcount, hcount', hfirst, hsecond]
  omega

end Usage

/-! ## Messengers that keep to their usage -/

/-- The buffers of a synchronous messenger keep to a usage. -/
structure SyncMessenger.Booked (n : Nat) (u : Usage) (peak : Side → Nat) (m : SyncMessenger α) :
    Prop where
  valid : m.Valid n
  writing : m.writing = u.writing
  covers : u.Covers peak m.buffers

/-- The buffers of an asynchronous messenger keep to a usage, which also knows for whom messages
wait. -/
structure AsyncMessenger.Booked (n : Nat) (u : Usage) (peak : Side → Nat) (m : AsyncMessenger α) :
    Prop where
  valid : m.Valid n
  current : m.current = u.writing
  covers : u.Covers peak m.buffers
  waiting : ∀ v < n, (m.inbox v).length = u.addressees.count v
  inside : ∀ v ∈ u.addressees, v < n

namespace SyncMessenger

variable {u : Usage} {peak : Side → Nat} {m : SyncMessenger α}

/-- Where the messenger stays as it is, so does what it has in use. -/
theorem Booked.stay (h : m.Booked n u peak) {u' : Usage} (hwriting : u'.writing = u.writing)
    (hused : u'.used = u.used) : m.Booked n u' (u'.raise peak) :=
  ⟨h.valid, h.writing.trans hwriting.symm, h.covers.raise_of_eq hused⟩

/-- Of a synchronous messenger an errand takes a cell if it sends a message, and no cell otherwise.
-/
theorem Booked.leave (h : m.Booked n u peak) (e : Errand α) : ∃ m' : SyncMessenger α,
    Session.leave n (.sync m) e = .sync m' ∧
      m'.Booked n (u.step n false (.errand e)) ((u.step n false (.errand e)).raise peak) := by
  cases e with
  | send t x =>
    rw [Session.leave, Usage.step]
    by_cases ht : t < n
    · rw [if_pos ht, if_pos ht]
      have hvalid : (Messenger.sync (m.post t x)).Valid n :=
        Messenger.Valid.post (m := .sync m) h.valid ht x
      have hpush := (h.covers m.writing).push (by rw [h.valid.sizes]; exact ht) x
      refine ⟨m.post t x, rfl, hvalid, h.writing, ?_⟩
      exact h.covers.raise_modify (by rw [h.writing]) hpush
    · rw [if_neg ht, if_neg ht]
      exact ⟨m, rfl, h.stay rfl rfl⟩
  | receive v | beginReading v => exact ⟨m, ite_self _, h.stay rfl rfl⟩
  | readOn place count => exact ⟨m, rfl, h.stay rfl rfl⟩

/-- Getting ready for a superstep frees the cells of one side. -/
theorem Booked.prepare (h : m.Booked n u peak) (superstep : Nat) :
    let u' := u.step n false (.prepare superstep : SessionStep α)
    (m.prepare superstep).Booked n u' (u'.raise peak) := by
  have hvalid : (Messenger.sync (m.prepare superstep)).Valid n :=
    Messenger.Valid.prepare (m := .sync m) h.valid superstep
  have hclear : (m.buffers.get (.ofParity superstep)).clear.Charged 0
      (max (peak (.ofParity superstep)) 0) := by
    rw [Nat.max_zero]
    exact (h.covers _).clear
  exact ⟨hvalid, rfl, h.covers.raise_modify (g := fun _ => 0) rfl hclear⟩

end SyncMessenger

namespace AsyncMessenger

variable {u : Usage} {peak : Side → Nat} {m : AsyncMessenger α}

/-- Taking the messages of a vertex frees no cell, and nothing waits for it any more. -/
theorem Booked.take (h : m.Booked n u peak) (v : Nat) {u' : Usage}
    (hu : u' = ⟨u.writing, u.used, u.addressees.filter (· ≠ v)⟩) :
    (m.take v).Booked n u' (u'.raise peak) := by
  subst hu
  have hvalid : (Messenger.async (m.take v)).Valid n :=
    Messenger.Valid.afterReceiving (m := .async m) h.valid v
  refine ⟨hvalid, h.current, (h.covers.take _ v).raise_of_eq rfl, fun w hw => ?_, fun w hw => ?_⟩
  · -- the messages of `v` are gone, the others wait as before
    have hleft : (m.take v).inbox w = if v = w then [] else m.inbox w :=
      Messenger.outbox_afterReceiving (m := .async m) rfl v w
    rw [hleft]
    by_cases hvw : v = w
    · subst hvw
      rw [if_pos rfl, List.length_nil, List.count_eq_zero_of_not_mem (by simp)]
    · rw [if_neg hvw, h.waiting w hw, List.count_filter (by simpa using Ne.symm hvw)]
  · exact h.inside w (List.mem_of_mem_filter hw)

/-- A message that is sent takes a cell and waits for its vertex. -/
theorem Booked.post (h : m.Booked n u peak) {t : Nat} (ht : t < n) (x : α) {u' : Usage}
    (hu : u' = ⟨u.writing, u.used.modify u.writing (· + 1), t :: u.addressees⟩) :
    (m.post t x).Booked n u' (u'.raise peak) := by
  subst hu
  have hvalid : (Messenger.async (m.post t x)).Valid n :=
    Messenger.Valid.post (m := .async m) h.valid ht x
  have hpush := (h.covers m.current).push (by rw [h.valid.sizes]; exact ht) x
  refine ⟨hvalid, h.current, h.covers.raise_modify (by rw [h.current]) hpush, fun w hw => ?_,
    List.forall_mem_cons.mpr ⟨ht, h.inside⟩⟩
  have hjoined : (m.post t x).inbox w = if t = w then x :: m.inbox w else m.inbox w :=
    Messenger.outbox_post (m := .async m) h.valid ht x w
  rw [hjoined, List.count_cons]
  -- one message more for its target
  by_cases htw : t = w
  · simp [htw, h.waiting w hw]
  · simp [htw, h.waiting w hw]

/-- Of an asynchronous messenger too an errand takes a cell only if it sends a message. -/
theorem Booked.leave (h : m.Booked n u peak) (e : Errand α) : ∃ m' : AsyncMessenger α,
    Session.leave n (.async m) e = .async m' ∧
      m'.Booked n (u.step n true (.errand e)) ((u.step n true (.errand e)).raise peak) := by
  have hstay : m.Booked n u (u.raise peak) :=
    ⟨h.valid, h.current, h.covers.raise_of_eq rfl, h.waiting, h.inside⟩
  cases e with
  | send t x =>
    rw [Session.leave, Usage.step]
    by_cases ht : t < n
    · rw [if_pos ht, if_pos ht]
      exact ⟨m.post t x, rfl, h.post ht x rfl⟩
    · rw [if_neg ht, if_neg ht]
      exact ⟨m, rfl, hstay⟩
  | receive v | beginReading v =>
    rw [Session.leave, Usage.step]
    by_cases hv : v < n
    · rw [if_pos hv]
      exact ⟨m.take v, rfl, h.take v rfl⟩
    · -- nothing waits for a vertex that does not exist
      have hnone : u.addressees.filter (· ≠ v) = u.addressees := by
        refine List.filter_eq_self.mpr fun w hw => decide_eq_true ?_
        rintro rfl
        exact hv (h.inside _ hw)
      rw [if_neg hv, hnone]
      exact ⟨m, rfl, hstay⟩
  | readOn place count => exact ⟨m, rfl, hstay⟩

/-- All that waits, added up over the vertices. -/
theorem Booked.waitingBelow_eq (h : m.Booked n u peak) :
    (m.buffers.get m.current).waitingBelow n = u.addressees.length := by
  have hcounts : ((List.range n).map fun v => ((m.buffers.get m.current).inbox v).length)
      = (List.range n).map fun v => u.addressees.count v :=
    List.map_congr_left fun v hv => h.waiting v (List.mem_range.mp hv)
  -- each message is counted for its own vertex, and no other
  have hsum : ∑ v ∈ Finset.range n, (u.addressees : Multiset Nat).count v = u.addressees.length :=
    Multiset.sum_count_eq_card fun v hv => Finset.mem_range.mpr (h.inside v hv)
  rw [Queues.waitingBelow, hcounts]
  simpa [Finset.sum, Multiset.range] using hsum

/-- Between supersteps what waits moves over, and takes a cell there for each message. -/
theorem Booked.prepare (h : m.Booked n u peak) (superstep : Nat) :
    let u' := u.step n true (.prepare superstep : SessionStep α)
    m.prepare.Booked n u' (u'.raise peak) := by
  intro u'
  obtain ⟨hcurrent, hleft, hused⟩ := Messenger.AsyncMessenger.prepare_eq m
  have hvalid : (Messenger.async m.prepare).Valid n :=
    Messenger.Valid.prepare (m := .async m) h.valid superstep
  have hthere : u'.used.get m.current = 0 ∧ u'.used.get m.current.other = u.addressees.length :=
    h.current ▸ u.used_prepare superstep
  refine ⟨hvalid, hcurrent.trans (congrArg _ h.current), fun side => ?_, fun v hv => ?_, h.inside⟩
  · rw [Usage.raise]
    -- the side that is left is cleared, the other one takes what waits
    rcases m.current.eq_or_eq_other side with rfl | rfl
    · rw [hleft, hthere.1, Nat.max_zero]
      exact (h.covers _).takeAll.clear
    · have hcount : (m.buffers.get m.current.other).clear.nodeCount
          = (m.buffers.get m.current).nodeCount := by
        rw [Queues.nodeCount_clear, h.valid.sizes, h.valid.sizes]
      have hreceived := (h.covers m.current.other).clear.receiveAll (h.valid.queues _) hcount
      rw [h.valid.sizes, h.waitingBelow_eq, Nat.zero_add] at hreceived
      rw [hused, hthere.2]
      exact hreceived
  · -- as many messages as before, the other way round
    have hturned : m.prepare.inbox v = (m.inbox v).reverse :=
      Messenger.outbox_prepare_of_not_isDoubleBuffered (m := .async m) h.valid rfl superstep v
    rw [hturned, List.length_reverse]
    exact h.waiting v hv

end AsyncMessenger

/-! ## Histories -/

namespace Messenger

/-- A messenger with queues keeps to a usage. -/
def Booked (n : Nat) (isAsynchronous : Bool) (u : Usage) (peak : Side → Nat) :
    Messenger α → Prop
  | .sync m => isAsynchronous = false ∧ m.Booked n u peak
  | .async m => isAsynchronous = true ∧ m.Booked n u peak
  | .reducing _ | .released => False

variable {isAsynchronous : Bool} {u : Usage} {peak : Side → Nat} {m : Messenger α}

/-- A messenger that keeps to a usage is valid. -/
theorem Booked.valid (h : m.Booked n isAsynchronous u peak) : m.Valid n := by
  cases m with
  | sync m => exact h.2.valid
  | async m => exact h.2.valid
  | reducing m => exact h.elim
  | released => exact h.elim

/-- Each buffer of the messenger keeps to its side of the usage. -/
theorem Booked.charged (h : m.Booked n isAsynchronous u peak) {side : Side} {q : Queues α}
    (hq : m.queues? side = some q) : q.Charged (u.used.get side) (peak side) := by
  cases m with
  | sync m => exact Option.some.inj hq ▸ h.2.covers side
  | async m => exact Option.some.inj hq ▸ h.2.covers side
  | reducing m => cases hq
  | released => cases hq

/-- A messenger with queues holds its estimate and the pages for the peaks. -/
theorem Booked.allocatedBytes_eq (h : m.Booked n isAsynchronous u peak) : m.allocatedBytes
    = Footprint.messenger (.select false isAsynchronous) n
      + (Queues.pageBytes (peak .first) + Queues.pageBytes (peak .second)) := by
  cases m with
  | sync m =>
    obtain ⟨rfl, hbooked⟩ := h
    exact hbooked.covers.queueBytes_eq hbooked.valid.sizes
  | async m =>
    obtain ⟨rfl, hbooked⟩ := h
    exact hbooked.covers.queueBytes_eq hbooked.valid.sizes
  | reducing m => exact h.elim
  | released => exact h.elim

/-- A reducing messenger holds its estimate. -/
theorem allocatedBytes_of_reducer? (h : m.Valid n) {r : Reducer α} (hr : m.reducer? = some r) :
    m.allocatedBytes = Footprint.messenger .reducing n := by
  cases m with
  | sync m | async m | released => cases hr
  | reducing m =>
    have hsize : m.buffers.first.values.size = n := (h .first).values
    rw [allocatedBytes, hsize, Footprint.messenger]

/-- The request for the bytes is always answered. -/
theorem perform_allocatedBytes (m : Messenger α) :
    m.perform .allocatedBytes = (.ok (.count m.allocatedBytes), m) := by
  cases m <;> rfl

/-- What was released holds nothing, whatever it is asked for. -/
theorem allocatedBytes_released (requests : List (Request α)) :
    (requests.foldl (fun (m : Messenger α) request => (m.perform request).2)
      .released).allocatedBytes = 0 := by
  induction requests with
  | nil => rfl
  | cons request requests ih => cases request <;> exact ih

end Messenger

namespace Session

variable {isAsynchronous : Bool} {u : Usage} {peak : Side → Nat} {s : Session α}

/-- One more step of a session is booked. -/
theorem booked_step (h : s.messenger.Booked n isAsynchronous u peak) (a : SessionStep α) :
    (s.step a).messenger.Booked n isAsynchronous (u.step n isAsynchronous a)
      ((u.step n isAsynchronous a).raise peak) := by
  rw [messenger_step h.valid]
  -- a messenger with queues; the other kinds are not booked
  cases hm : s.messenger with
  | sync m =>
    rw [hm] at h
    obtain ⟨rfl, hbooked⟩ := h
    cases a with
    | prepare superstep => exact ⟨rfl, hbooked.prepare superstep⟩
    | errand e =>
      obtain ⟨m', hleave, hbooked'⟩ := hbooked.leave e
      dsimp only
      rw [hleave]
      exact ⟨rfl, hbooked'⟩
  | async m =>
    rw [hm] at h
    obtain ⟨rfl, hbooked⟩ := h
    cases a with
    | prepare superstep => exact ⟨rfl, hbooked.prepare superstep⟩
    | errand e =>
      obtain ⟨m', hleave, hbooked'⟩ := hbooked.leave e
      dsimp only
      rw [hleave]
      exact ⟨rfl, hbooked'⟩
  | reducing m | released =>
    rw [hm] at h
    exact h.elim

/-- At every moment the buffers have in use, and had at most, what the requests say. -/
theorem booked_after (n : Nat) (isAsynchronous : Bool) (history : List (SessionStep α)) :
    ((create n none isAsynchronous).after history).messenger.Booked n isAsynchronous
      (Usage.after n isAsynchronous history) (Usage.peak n isAsynchronous history) := by
  -- on the steps from the last one, as the peaks are
  induction history using List.reverseRecOn with
  | nil =>
    have hpeak : Usage.peak n isAsynchronous ([] : List (SessionStep α)) = fun _ => 0 := by
      funext side
      cases side <;> rfl
    have hvalid := Messenger.valid_create (α := α) n none isAsynchronous
    rw [hpeak]
    -- a new messenger has empty buffers, and nobody has mail
    cases isAsynchronous with
    | false => exact ⟨rfl, hvalid, rfl, Usage.covers_empty n⟩
    | true =>
      refine ⟨rfl, hvalid, rfl, Usage.covers_empty n, fun v _ => ?_, List.forall_mem_nil _⟩
      exact congrArg List.length (Queues.inbox_empty n v)
  | append_singleton history a ih =>
    have hpeak : Usage.peak n isAsynchronous (history ++ [a])
        = (Usage.after n isAsynchronous (history ++ [a])).raise
          (Usage.peak n isAsynchronous history) :=
      funext (Usage.peak_concat history a)
    rw [hpeak, after_concat, Usage.after_concat]
    exact booked_step ih a

end Session

open Session in
/-- At every moment of its history a messenger with queues holds its estimate, and for each of its
buffers a mebibyte for every 65536 cells of the buffer's peak and 32 kibibytes for every 4096 of
these. So it holds its estimate until the first message is sent, never less than before, and no more
than before as long as its buffers stay below their peaks. A reducing messenger holds its estimate.
Nothing is held after release. -/
theorem held_bytes (n : Nat) (isAsynchronous : Bool) (r : Reducer α)
    (history : List (SessionStep α)) :
    let used history side := (Usage.after n isAsynchronous history).used.get side
    let peak side := Usage.peak n isAsynchronous history side
    let pages side := (peak side + 65535) / 65536
    let extra side := 1048576 * pages side + 32768 * ((pages side + 4095) / 4096)
    let estimate := Footprint.messenger (.select false isAsynchronous) n
    let now := (create n none isAsynchronous).after history
    let reduced := (create n (some r) isAsynchronous).after history
    now.messenger.perform .allocatedBytes
      = (.ok (.count (estimate + (extra .first + extra .second))), now.messenger) ∧
    (∀ side q, now.messenger.queues? side = some q → q.arena.cursor = used history side) ∧
    ((∀ t x, .errand (.send t x) ∈ history → n ≤ t) → now.messenger.allocatedBytes = estimate) ∧
    (∀ later : List (SessionStep α),
      now.messenger.allocatedBytes ≤ (now.after later).messenger.allocatedBytes ∧
      ((∀ side k, used (history ++ later.take k) side ≤ peak side) →
        (now.after later).messenger.allocatedBytes = now.messenger.allocatedBytes)) ∧
    reduced.messenger.perform .allocatedBytes
      = (.ok (.count (Footprint.messenger .reducing n)), reduced.messenger) ∧
    ∀ (m : Messenger α) (requests : List (Messenger.Request α)),
      (requests.foldl (fun m request => (m.perform request).2)
        (m.perform .release).2).allocatedBytes = 0 := by
  intro used peak pages extra estimate now reduced
  have hbooked := booked_after (α := α) n isAsynchronous
  have hlater (later : List (SessionStep α)) :
      now.after later = (create n none isAsynchronous).after (history ++ later) :=
    (after_append _ _ _).symm
  refine ⟨?_, fun side q hq => ((hbooked history).charged hq).cursor, fun hsilent => ?_,
    fun later => ⟨?_, fun hpeak => ?_⟩, ?_, fun m => Messenger.allocatedBytes_released⟩
  · rw [Messenger.perform_allocatedBytes, (hbooked history).allocatedBytes_eq]
    rfl
  · rw [(hbooked history).allocatedBytes_eq, Usage.peak_of_silent hsilent,
      Usage.peak_of_silent hsilent]
    rfl
  · -- never less than before
    rw [hlater, (hbooked history).allocatedBytes_eq, (hbooked _).allocatedBytes_eq]
    exact Nat.add_le_add_left (Nat.add_le_add
      (Queues.pageBytes_mono (Usage.peak_mono history later .first))
      (Queues.pageBytes_mono (Usage.peak_mono history later .second))) _
  · -- and no more while below the peaks
    rw [hlater, (hbooked history).allocatedBytes_eq, (hbooked _).allocatedBytes_eq,
      Usage.peak_append (hpeak .first), Usage.peak_append (hpeak .second)]
  · -- a reducing messenger has its buffers from the start, whatever it is asked
    obtain ⟨hserves, hreducer⟩ := serves_after n (some r) isAsynchronous history
    rw [Messenger.perform_allocatedBytes,
      Messenger.allocatedBytes_of_reducer? hserves.valid hreducer]

-- One message, and one for a vertex that does not exist: the message takes a page in the buffer
-- that it is sent to, and one more when it moves to the other buffer.
example : ((Session.create 2 none true).after [.prepare 0, .errand (.send 1 5),
      .errand (.send 9 7), .prepare 1]).messenger.allocatedBytes
    = 262208 + 2 * (1048576 + 32768) := by
  rw [(Session.booked_after 2 true _).allocatedBytes_eq]
  decide

end Superstep
