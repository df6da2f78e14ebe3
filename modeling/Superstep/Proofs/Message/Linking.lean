import Mathlib
import Superstep.Proofs.Message.Queues

/-!
# How message cells are linked

A cell is reused once its arena is cleared, and nobody resets its link. What keeps the queues apart
all the same is the order of the indices. `Queues.Laid` lists the cells of every queue: each list
ends, its indices descend below the cursor, and no two lists meet. A push puts the cursor's cell in
front of one list, and every other operation only empties lists.

The second half follows any number of sets through any sequence of operations, and compares what is
queued with what the sequence says was pushed.

## Key results

- `Arena.Runs.chain_eq`: following the links reads the cells of a list, in this order
- `Queues.Laid.push`: a push extends one list by a fresh cell
- `QueueStep.sound_after`: the lists stay apart through any sequence of operations
- `queues_hold_what_was_pushed`: a queue holds what was pushed since it was last detached
-/

namespace Superstep

/-! ## Lists of cells -/

namespace Arena

variable {α : Type}

/-- Following the links from `next` passes these cells, each with its index, and ends. -/
inductive Runs (a : Arena α) : (next : Option Nat) → (cells : List (Nat × α)) → Prop
  | done : Runs a none []
  | link {i : Nat} {c : MessageCell α} {cells : List (Nat × α)} (hget : a.get? i = some c)
      (hrest : Runs a c.next cells) : Runs a (some i) ((i, c.value) :: cells)

namespace Runs

/-- A push leaves the lists below the cursor as they are. -/
theorem push {a : Arena α} (ha : a.Valid) (new : MessageCell α) {next : Option Nat}
    {cells : List (Nat × α)} (h : a.Runs next cells) (hbelow : ∀ c ∈ cells, c.1 < a.cursor) :
    (a.push new).Runs next cells := by
  -- only the cursor's cell is written, and the list does not pass it
  induction h with
  | done => exact .done
  | link hget _ ih =>
    have hold := get?_push_of_lt ha new (hbelow _ List.mem_cons_self)
    exact .link (hold.trans hget) (ih fun c hc => hbelow c (List.mem_cons_of_mem _ hc))

/-- Following the links reads the messages of the cells in this order. -/
theorem chain_eq {a : Arena α} (ha : a.Valid) {next : Option Nat} {cells : List (Nat × α)}
    (h : a.Runs next cells) (hbelow : ∀ c ∈ cells, c.1 < a.cursor) :
    a.chain next = cells.map Prod.snd := by
  induction h with
  | done => exact chain_none a
  | link hget _ ih =>
    rw [chain_some ha (hbelow _ List.mem_cons_self) hget,
      ih fun c hc => hbelow c (List.mem_cons_of_mem _ hc)]
    rfl

end Runs

/-- Every index within the capacity has a place in the root, its directory and its page. -/
theorem address_of_lt_capacity (a : Arena α) {i : Nat} (hi : i < a.capacity) :
    (address a.shift i).directory < rootSize ∧ (address a.shift i).slot < directorySize ∧
      (address a.shift i).offset < a.pageSize := by
  have hpos : 0 < 2 ^ a.shift := Nat.two_pow_pos _
  have hsize : a.pageSize = 2 ^ a.shift := by rw [pageSize, Nat.shiftLeft_eq, Nat.one_mul]
  rw [directory_address, slot_address, offset_address, hsize]
  refine ⟨?_, Nat.mod_lt _ (by decide), Nat.mod_lt _ hpos⟩
  -- the page is one of `rootSize * directorySize`
  have hpage : i / 2 ^ a.shift < rootSize * directorySize := by
    rw [Nat.div_lt_iff_lt_mul hpos, ← hsize]
    exact hi
  exact (Nat.div_lt_iff_lt_mul (by decide)).mpr hpage

end Arena

/-! ## The cells of every queue -/

namespace Queues

variable {α : Type}

/-- The queues run through these cells: their indices descend below the cursor, and no cell belongs
to two queues. -/
structure Laid (q : Queues α) (cells : Nat → List (Nat × α)) : Prop where
  runs : ∀ v, q.arena.Runs (q.head v) (cells v)
  below : ∀ v, ∀ c ∈ cells v, c.1 < q.arena.cursor
  descending : ∀ v, (cells v).Pairwise fun c d => d.1 < c.1
  apart : ∀ v w, v ≠ w → ∀ c ∈ cells v, ∀ d ∈ cells w, c.1 ≠ d.1

/-- Where no vertex has a head, there are no cells to follow. -/
theorem laid_nil {q : Queues α} (h : ∀ v, q.head v = none) : q.Laid fun _ => [] where
  runs v := by
    rw [h v]
    exact .done
  below := by simp
  descending := by simp
  apart := by simp

/-- What waits for a vertex is in its cells, in their order. -/
theorem Laid.inbox_eq {q : Queues α} {cells : Nat → List (Nat × α)} (h : q.Laid cells)
    (hq : q.Valid) (v : Nat) : q.inbox v = (cells v).map Prod.snd :=
  (h.runs v).chain_eq hq.arena (h.below v)

/-- A cell of the extended lists is the new one, or was there before. -/
private theorem mem_update_cons {cells : Nat → List (Nat × α)} {t v : Nat} {new c : Nat × α} :
    c ∈ Function.update cells t (new :: cells t) v ↔ (v = t ∧ c = new) ∨ c ∈ cells v := by
  by_cases hvt : v = t
  · subst hvt
    simp
  · simp [hvt]

/-- A cell that is left was there before. -/
private theorem mem_of_mem_update_nil {cells : Nat → List (Nat × α)} {t v : Nat} {c : Nat × α}
    (hc : c ∈ Function.update cells t [] v) : c ∈ cells v := by
  by_cases hvt : v = t
  · subst hvt
    simp at hc
  · rwa [Function.update_of_ne hvt] at hc

/-- A push puts the cursor's cell in front of the cells of its vertex. -/
theorem Laid.push {q : Queues α} {cells : Nat → List (Nat × α)} (h : q.Laid cells) (hq : q.Valid)
    {t : Nat} (ht : t < q.nodeCount) (x : α) :
    (q.push t x).Laid (Function.update cells t ((q.arena.cursor, x) :: cells t)) := by
  have harena := arena_push q ht x
  have hold (v : Nat) : (q.push t x).arena.Runs (q.head v) (cells v) := by
    rw [harena]
    exact (h.runs v).push hq.arena _ (h.below v)
  constructor
  · -- the list of each vertex runs through its cells
    intro v
    rw [head_push q ht]
    by_cases htv : t = v
    · subst htv
      rw [if_pos rfl, Function.update_self]
      refine .link (c := ⟨x, q.head t⟩) ?_ (hold t)
      rw [harena, Arena.get?_push_self hq.arena]
    · rw [if_neg htv, Function.update_of_ne (Ne.symm htv)]
      exact hold v
  · intro v c hc
    rw [harena, Arena.cursor_push]
    cases mem_update_cons.mp hc with
    | inl hnew =>
      rw [hnew.2]
      exact Nat.lt_succ_self _
    | inr hc => exact Nat.lt_succ_of_lt (h.below v c hc)
  · intro v
    by_cases hvt : v = t
    · subst hvt
      rw [Function.update_self, List.pairwise_cons]
      exact ⟨h.below v, h.descending v⟩
    · rw [Function.update_of_ne hvt]
      exact h.descending v
  · intro v w hvw c hc d hd
    -- the fresh cell lies past every cell of another queue
    rcases mem_update_cons.mp hc with ⟨hv, hnew⟩ | hc
    · rcases mem_update_cons.mp hd with ⟨hw, -⟩ | hd
      · exact absurd (hv.trans hw.symm) hvw
      · rw [hnew]
        exact (h.below w d hd).ne'
    · rcases mem_update_cons.mp hd with ⟨-, hnew⟩ | hd
      · rw [hnew]
        exact (h.below v c hc).ne
      · exact h.apart v w hvw c hc d hd

/-- Taking a queue leaves its vertex no cells. -/
theorem Laid.take {q : Queues α} {cells : Nat → List (Nat × α)} (h : q.Laid cells) (t : Nat) :
    (q.take t).Laid (Function.update cells t []) := by
  constructor
  · -- the list of each vertex that is left runs as before
    intro v
    rw [head_take, arena_take]
    by_cases htv : t = v
    · subst htv
      rw [if_pos rfl, Function.update_self]
      exact .done
    · rw [if_neg htv, Function.update_of_ne (Ne.symm htv)]
      exact h.runs v
  · intro v c hc
    rw [arena_take]
    exact h.below v c (mem_of_mem_update_nil hc)
  · intro v
    by_cases hvt : v = t
    · subst hvt
      rw [Function.update_self]
      exact .nil
    · rw [Function.update_of_ne hvt]
      exact h.descending v
  · intro v w hvw c hc d hd
    exact h.apart v w hvw c (mem_of_mem_update_nil hc) d (mem_of_mem_update_nil hd)

/-! ## Sound sets -/

/-- A set for `n` vertices on pages of `2 ^ shift` cells, whose queues are laid out apart. -/
structure Sound (n shift : Nat) (q : Queues α) : Prop where
  valid : q.Valid
  laid : ∃ cells, q.Laid cells
  nodeCount_eq : q.nodeCount = n
  shift_eq : q.arena.shift = shift

section Steps

variable {n shift : Nat} {q : Queues α}

/-- A set without messages is laid out apart. -/
theorem sound_emptyWith (n shift : Nat) : Sound n shift (emptyWith n shift : Queues α) where
  valid := valid_emptyWith n shift
  laid := ⟨_, laid_nil (head_emptyWith n shift)⟩
  nodeCount_eq := rfl
  shift_eq := rfl

/-- A push keeps the lists apart, also when it is refused. -/
theorem Sound.push (h : Sound n shift q) (t : Nat) (x : α) : Sound n shift (q.push t x) := by
  by_cases ht : t < q.nodeCount
  · obtain ⟨cells, hlaid⟩ := h.laid
    constructor
    · exact h.valid.push t x
    · exact ⟨_, hlaid.push h.valid ht x⟩
    · rw [nodeCount_push, h.nodeCount_eq]
    · rw [arena_push q ht, Arena.shift_push, h.shift_eq]
  · rw [Queues.push, if_neg ht]
    exact h

/-- Taking a queue keeps the other lists apart. -/
theorem Sound.take (h : Sound n shift q) (v : Nat) : Sound n shift (q.take v) where
  valid := h.valid.take v
  laid := by
    obtain ⟨cells, hlaid⟩ := h.laid
    exact ⟨_, hlaid.take v⟩
  nodeCount_eq := by rw [nodeCount_take, h.nodeCount_eq]
  shift_eq := by rw [arena_take, h.shift_eq]

/-- Clearing leaves no list. -/
theorem Sound.clear (h : Sound n shift q) : Sound n shift q.clear where
  valid := h.valid.clear
  laid := ⟨_, laid_nil fun v => (head_eq_none_iff h.valid.clear v).mpr (inbox_clear h.valid v)⟩
  nodeCount_eq := by rw [nodeCount_clear, h.nodeCount_eq]
  shift_eq := by
    unfold Queues.clear
    split <;> exact h.shift_eq

/-- Taking all queues leaves no list. -/
theorem Sound.takeAll (h : Sound n shift q) : Sound n shift q.takeAll where
  valid := h.valid.takeAll
  laid := ⟨_, laid_nil fun v =>
    (head_eq_none_iff h.valid.takeAll v).mpr (inbox_takeAll h.valid v)⟩
  nodeCount_eq := by rw [nodeCount_takeAll, h.nodeCount_eq]
  shift_eq := by
    unfold Queues.takeAll
    split <;> exact h.shift_eq

/-- Receiving is pushing many times. -/
theorem Sound.receiveAll (h : Sound n shift q) (source : Queues α) :
    Sound n shift (q.receiveAll source) := by
  unfold Queues.receiveAll
  split
  · exact h
  · apply List.foldlRecOn _ _ h
    intro q' hq' v _
    apply List.foldlRecOn _ _ hq'
    intro q'' hq'' x _
    exact hq''.push v x

end Steps

end Queues

/-! ## Sequences of operations -/

/-- An operation on one of several sets of queues. -/
inductive QueueStep (α : Type) where
  | push (set target : Nat) (value : α)
  | take (set vertex : Nat)
  | iterate (set vertex : Nat)
  | clear (set : Nat)
  | drain (source target : Nat) (apart : source ≠ target)

namespace QueueStep

variable {α : Type}

/-- Sets without messages, each for `n` vertices and with pages of its own size. -/
def fresh (n : Nat) (shift : Nat → Nat) : Nat → Queues α := fun set => .emptyWith n (shift set)

/-- The messages that an operation reads, and the sets after it. -/
def perform (sets : Nat → Queues α) : QueueStep α → List α × (Nat → Queues α)
  | push set target value => ([], Function.update sets set ((sets set).push target value))
  | take set vertex =>
    -- the head is detached first, and its cells are read after that
    let taken := (sets set).take vertex
    (taken.arena.chain ((sets set).head vertex), Function.update sets set taken)
  | iterate set vertex => ((sets set).inbox vertex, sets)
  | clear set => ([], Function.update sets set (sets set).clear)
  | drain source target _ =>
    let moved := (sets source).drainInto (sets target)
    ([], Function.update (Function.update sets source moved.1) target moved.2)

/-- The sets after a sequence of operations. -/
def after (sets : Nat → Queues α) (history : List (QueueStep α)) : Nat → Queues α :=
  history.foldl (fun sets step => (step.perform sets).2) sets

/-! ### What a sequence says is waiting -/

/-- The messages that an operation queues for `vertex` in `set`, in this order. A drain moves what
waits in its source, where the newest message is the first. -/
def arrivals (n : Nat) (waiting : Nat → Nat → List α) (set vertex : Nat) : QueueStep α → List α
  | push s target value => if s = set ∧ target = vertex ∧ vertex < n then [value] else []
  | drain source target _ => if target = set then waiting source vertex else []
  | _ => []

/-- Whether an operation detaches the queue of `vertex` in `set`. -/
def detaches (set vertex : Nat) : QueueStep α → Bool
  | take s v => s = set ∧ v = vertex
  | clear s => s = set
  | drain source _ _ => source = set
  | _ => false

/-- What waits after an operation, newest first: what it queues, in front of what waited before
unless that is detached. -/
def waitingAfter (n : Nat) (waiting : Nat → Nat → List α) (step : QueueStep α) (set vertex : Nat) :
    List α :=
  (step.arrivals n waiting set vertex).reverse ++
    if step.detaches set vertex then [] else waiting set vertex

/-- What waits after a sequence of operations on sets without messages, newest first. -/
def waiting (n : Nat) (history : List (QueueStep α)) : Nat → Nat → List α :=
  history.foldl (waitingAfter n) fun _ _ => []

/-- The messages that an operation should read. -/
def answer (waiting : Nat → Nat → List α) : QueueStep α → List α
  | take set vertex => waiting set vertex
  | iterate set vertex => waiting set vertex
  | _ => []

/-! ### What the sets hold -/

variable {n : Nat} {shift : Nat → Nat} {sets : Nat → Queues α}

/-- Each operation keeps the lists of every set apart. -/
theorem sound_perform (h : ∀ set, (sets set).Sound n (shift set)) (step : QueueStep α) :
    ∀ set, ((step.perform sets).2 set).Sound n (shift set) := by
  -- an operation replaces a set or two and leaves the others alone
  have hupdate {sets : Nat → Queues α} (h : ∀ set, (sets set).Sound n (shift set)) (s : Nat)
      {q : Queues α} (hq : q.Sound n (shift s)) :
      ∀ set, (Function.update sets s q set).Sound n (shift set) :=
    (Function.forall_update_iff sets fun set q => q.Sound n (shift set)).mpr
      ⟨hq, fun set _ => h set⟩
  cases step with
  | push s t x => exact hupdate h s ((h s).push t x)
  | take s v => exact hupdate h s ((h s).take v)
  | iterate s v => exact h
  | clear s => exact hupdate h s (h s).clear
  -- the source is emptied first, then the target receives
  | drain source target apart =>
    exact hupdate (hupdate h source (h source).takeAll) target ((h target).receiveAll _)

/-- The lists stay apart through any sequence of operations. -/
theorem sound_after (h : ∀ set, (sets set).Sound n (shift set)) (history : List (QueueStep α)) :
    ∀ set, (after sets history set).Sound n (shift set) := by
  induction history generalizing sets with
  | nil => exact h
  | cons step history ih => exact ih (sound_perform h step)

/-- Each operation queues and detaches what `waitingAfter` says. -/
theorem inbox_perform (h : ∀ set, (sets set).Sound n (shift set)) (step : QueueStep α)
    (set v : Nat) : ((step.perform sets).2 set).inbox v =
      waitingAfter n (fun set => (sets set).inbox) step set v := by
  cases step with
  | push s t x =>
    simp only [perform, waitingAfter, arrivals, detaches]
    by_cases hs : set = s
    · subst hs
      rw [Function.update_self]
      by_cases ht : t < n
      · rw [Queues.inbox_push (h set).valid (by rw [(h set).nodeCount_eq]; exact ht)]
        by_cases htv : t = v
        · subst htv
          simp [ht]
        · simp [htv]
      · -- a message for nobody is not queued
        have hkeep : (sets set).push t x = sets set := by
          rw [Queues.push, (h set).nodeCount_eq, if_neg ht]
        have hnone : ¬(t = v ∧ v < n) := by omega
        simp [hkeep, hnone]
    · rw [Function.update_of_ne hs]
      simp [Ne.symm hs]
  | take s w =>
    simp only [perform, waitingAfter, arrivals, detaches]
    by_cases hs : set = s
    · subst hs
      rw [Function.update_self, Queues.inbox_take]
      simp
    · rw [Function.update_of_ne hs]
      simp [Ne.symm hs]
  | iterate s w => rfl
  | clear s =>
    simp only [perform, waitingAfter, arrivals, detaches]
    by_cases hs : set = s
    · subst hs
      rw [Function.update_self, Queues.inbox_clear (h set).valid]
      simp
    · rw [Function.update_of_ne hs]
      simp [Ne.symm hs]
  | drain source target apart =>
    simp only [perform, Queues.drainInto, waitingAfter, arrivals, detaches]
    by_cases ht : set = target
    · -- the target receives in front of what it keeps
      subst ht
      have hcount : (sets set).nodeCount = (sets source).nodeCount := by
        rw [(h set).nodeCount_eq, (h source).nodeCount_eq]
      rw [Function.update_self, Queues.inbox_receiveAll (h set).valid (h source).valid hcount]
      simp [apart]
    · rw [Function.update_of_ne ht]
      by_cases hs : set = source
      · subst hs
        rw [Function.update_self, Queues.inbox_takeAll (h set).valid]
        simp [Ne.symm apart]
      · rw [Function.update_of_ne hs]
        simp [Ne.symm hs, Ne.symm ht]

theorem inbox_after (h : ∀ set, (sets set).Sound n (shift set)) (history : List (QueueStep α)) :
    (fun set => (after sets history set).inbox) =
      history.foldl (waitingAfter n) fun set => (sets set).inbox := by
  induction history generalizing sets with
  | nil => rfl
  | cons step history ih =>
    have hstep : (fun set => ((step.perform sets).2 set).inbox) =
        waitingAfter n (fun set => (sets set).inbox) step := by
      funext set v
      exact inbox_perform h step set v
    rw [List.foldl_cons, ← hstep]
    exact ih (sound_perform h step)

/-- An operation reads what waits before it. -/
theorem fst_perform (sets : Nat → Queues α) (step : QueueStep α) :
    (step.perform sets).1 = step.answer fun set => (sets set).inbox := by
  cases step with
  | take s v =>
    -- detaching a queue touches no cell
    simp only [perform, answer, Queues.arena_take, Queues.inbox]
  | _ => rfl

end QueueStep

/-! ## The queues of a sequence of operations -/

/-- A set of queues on an arena with a place for every cell. The queues are finite lists of cells
below the cursor that never meet, and their messages are those of `waiting`. -/
structure Queues.Holds {α : Type} (q : Queues α) (waiting : Nat → List α) : Prop where
  /-- From each head the links pass finitely many cells, which carry what waits. -/
  laid : ∃ cells, q.Laid cells ∧ ∀ v, (cells v).map Prod.snd = waiting v
  /-- Iterating a queue reads what waits. -/
  iterated : ∀ v, q.inbox v = waiting v
  /-- A cursor at the start leaves no head. -/
  idle : q.arena.cursor = 0 → ∀ v, q.head v = none
  /-- Every cell below the cursor is there. -/
  stored : ∀ i < q.arena.cursor, (q.arena.get? i).isSome
  /-- No two cells share a place. -/
  separate : ∀ i j, Arena.address q.arena.shift i = Arena.address q.arena.shift j → i = j
  /-- Within the capacity every cell has a place in the root, its directory and its page. -/
  placed : ∀ i < q.arena.capacity,
    (Arena.address q.arena.shift i).directory < Arena.rootSize ∧
      (Arena.address q.arena.shift i).slot < Arena.directorySize ∧
      (Arena.address q.arena.shift i).offset < q.arena.pageSize

theorem Queues.Sound.holds {α : Type} {n shift : Nat} {q : Queues α} (h : q.Sound n shift) :
    q.Holds q.inbox where
  laid := by
    obtain ⟨cells, hlaid⟩ := h.laid
    exact ⟨cells, hlaid, fun v => (hlaid.inbox_eq h.valid v).symm⟩
  iterated _ := rfl
  idle hcursor v := by
    cases hhead : q.head v with
    | none => rfl
    | some i =>
      have hi := h.valid.heads v i hhead
      omega
  stored i hi := by
    obtain ⟨c, hget, -⟩ := h.valid.arena.linked i hi
    rw [hget]
    rfl
  separate i j hsame := Arena.eq_of_address_eq (by rw [hsame]) (by rw [hsame]) (by rw [hsame])
  placed _ hi := q.arena.address_of_lt_capacity hi

/-- Through any sequence of operations on sets of queues, whatever their page sizes, each queue is a
finite list of cells of its own that holds what was queued since the queue was last detached, newest
first. Taking or iterating a queue reads just that. -/
theorem queues_hold_what_was_pushed {α : Type} (n : Nat) (shift : Nat → Nat)
    (history : List (QueueStep α)) :
    let sets := QueueStep.after (QueueStep.fresh n shift) history
    (∀ set, (sets set).nodeCount = n ∧ (sets set).arena.shift = shift set ∧
      (sets set).Holds (QueueStep.waiting n history set)) ∧
    ∀ step : QueueStep α, (step.perform sets).1 = step.answer (QueueStep.waiting n history) := by
  intro sets
  -- the history starts from sets without messages
  have hfresh : ∀ set, (QueueStep.fresh n shift set : Queues α).Sound n (shift set) :=
    fun set => Queues.sound_emptyWith n (shift set)
  have hsound := QueueStep.sound_after hfresh history
  have hwaiting : (fun set => (sets set).inbox) = QueueStep.waiting n history := by
    have hnone : (fun set => (QueueStep.fresh n shift set : Queues α).inbox) = fun _ _ => [] := by
      funext set v
      exact Queues.inbox_emptyWith n (shift set) v
    rw [QueueStep.waiting, ← hnone]
    exact QueueStep.inbox_after hfresh history
  constructor
  · intro set
    refine ⟨(hsound set).nodeCount_eq, (hsound set).shift_eq, ?_⟩
    rw [← hwaiting]
    exact (hsound set).holds
  · intro step
    rw [← hwaiting]
    exact QueueStep.fst_perform sets step

/-- A drain reads the newest message first, so the messages arrive in the other order. -/
example : QueueStep.waiting 2 [.push 0 0 'a', .push 0 1 'b', .clear 0, .push 0 1 'c',
    .push 0 1 'd', .drain 0 1 (by decide)] 1 1 = ['c', 'd'] := by
  decide

end Superstep
