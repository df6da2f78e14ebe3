import Mathlib
import Superstep.Operation
import Superstep.Proofs.Rejection
import Superstep.Proofs.Storage.BitSet

/-!
# Bit sets answer as finite sets

What a bit set answers is what the finite set of its members would answer that knows nothing of
words. Which set that is can be told from the requests alone: a bit is a member if some request
added it and no later one removed it (`BitSet.Stands`). The words hold its members bit by bit, and
nothing past the size, so that whole words may be counted.

## Key results

- `BitSet.answer_perform`: one request is answered as the finite set would answer it
- `BitSet.mem_members_afterRequests`: what is left of a bit after any requests
- `BitSet.tally_balance`: bits that came and bits that went account for the cardinality
- `bit_sets_answer_as_finite_sets`: all of it from the start on
-/

namespace Superstep

namespace BitSet

/-! ## What the requests say -/

/-- Whether a request makes the bit a member. -/
def Request.adds (i : Nat) : Request → Bool
  | .set j | .getAndSet j => j == i
  | _ => false

/-- Whether a request makes sure that the bit is no member. -/
def Request.removes (i : Nat) : Request → Bool
  | .clear j => j == i
  | .clearAll => true
  | _ => false

/-- One of the requests adds the bit, and no later one removes it. -/
def Stands (i : Nat) (history : List Request) : Prop :=
  ∃ request later, request :: later <:+ history ∧ request.adds i = true ∧
    ∀ r ∈ later, r.removes i = false

/-- Without requests no bit stands. -/
theorem not_stands_nil (i : Nat) : ¬Stands i [] := by
  rintro ⟨request, later, hsuffix, -⟩
  cases List.suffix_nil.mp hsuffix

/-- A bit stands from the first request on, or by the later ones alone. -/
theorem stands_cons {i : Nat} {request : Request} {later : List Request} :
    Stands i (request :: later) ↔
      (request.adds i = true ∧ ∀ r ∈ later, r.removes i = false) ∨ Stands i later := by
  constructor
  · rintro ⟨r, rest, hsuffix, hadds, hkept⟩
    -- the request that added the bit is the first one or a later one
    cases List.suffix_cons_iff.mp hsuffix with
    | inl hall =>
      obtain ⟨rfl, rfl⟩ := List.cons.inj hall
      exact .inl ⟨hadds, hkept⟩
    | inr hlater => exact .inr ⟨r, rest, hlater, hadds, hkept⟩
  · rintro (⟨hadds, hkept⟩ | ⟨r, rest, hsuffix, hadds, hkept⟩)
    · exact ⟨request, later, List.suffix_rfl, hadds, hkept⟩
    · exact ⟨r, rest, hsuffix.trans (List.suffix_cons request later), hadds, hkept⟩

instance decidableStands (i : Nat) : (history : List Request) → Decidable (Stands i history)
  | [] => isFalse (not_stands_nil i)
  | _ :: later =>
    have := decidableStands i later
    decidable_of_iff _ stands_cons.symm

/-- The bits below the size that stand. -/
def standing (size : Nat) (history : List Request) : Finset Nat :=
  {i ∈ Finset.range size | Stands i history}

/-- What a set of numbers below a size answers. A number that it cannot have is refused. -/
def Request.answerOf (size : Nat) (members : Finset Nat) : Request → Except Violation Answer
  | .size => .ok (.count size)
  | .get i | .getAndSet i =>
    if i < size then .ok (.flag (decide (i ∈ members))) else .error (.bit i size)
  | .set i | .clear i => if i < size then .ok .done else .error (.bit i size)
  | .clearAll => .ok .done
  | .cardinality => .ok (.count members.card)
  | .isEmpty => .ok (.flag (decide (members = ∅)))
  | .isFull => .ok (.flag (decide (members = Finset.range size)))

/-! ## Members -/

/-- The members as a finite set. -/
def members (s : BitSet) : Finset Nat := {i ∈ Finset.range s.size | s.contains i = true}

/-- Only bits below the size are members. -/
theorem lt_size_of_contains {s : BitSet} {i : Nat} (h : s.contains i = true) : i < s.size := by
  by_contra hle
  rw [s.contains_eq_false_of_le (Nat.le_of_not_lt hle)] at h
  cases h

/-- The finite set has the bits that the bit set contains. -/
@[simp] theorem mem_members {s : BitSet} {i : Nat} : i ∈ s.members ↔ s.contains i = true := by
  rw [members, Finset.mem_filter, Finset.mem_range]
  exact ⟨And.right, fun h => ⟨lt_size_of_contains h, h⟩⟩

/-- The cardinality is that of the finite set. -/
theorem card_members (s : BitSet) : s.members.card = s.cardinality := by
  -- the list of the members has none of them twice
  have hlist : s.members = s.toList.toFinset := by
    ext i
    simp
  have hnodup : s.toList.Nodup := List.nodup_range.filter _
  rw [hlist, List.toFinset_card_of_nodup hnodup, cardinality_eq_length_toList]

/-- There are no more members than the size. -/
theorem cardinality_le_size (s : BitSet) : s.cardinality ≤ s.size := by
  rw [← card_members, members]
  exact (Finset.card_filter_le _ _).trans_eq (Finset.card_range s.size)

/-- A bit set is empty if its finite set is. -/
theorem isEmpty_eq_decide (s : BitSet) : s.isEmpty = decide (s.members = ∅) := by
  rw [Bool.eq_iff_iff, decide_eq_true_iff, isEmpty_iff, Finset.eq_empty_iff_forall_notMem]
  simp

/-- A bit set is full if its finite set has every number below the size. -/
theorem isFull_eq_decide (s : BitSet) : s.isFull = decide (s.members = Finset.range s.size) := by
  rw [Bool.eq_iff_iff, decide_eq_true_iff, isFull_iff, members, Finset.filter_eq_self]
  simp

/-! ## One request -/

/-- Setting a bit adds it to the members. -/
theorem members_insert {s : BitSet} {i : Nat} (hi : i < s.size) :
    (s.insert i).members = Insert.insert i s.members := by
  ext j
  simp only [mem_members, contains_insert, hi, and_true, Finset.mem_insert, Bool.or_eq_true,
    decide_eq_true_iff]
  rw [or_comm, eq_comm]

/-- Clearing a bit removes it from the members. -/
theorem members_erase (s : BitSet) (i : Nat) : (s.erase i).members = s.members.erase i := by
  ext j
  simp only [mem_members, contains_erase, Finset.mem_erase, Bool.and_eq_true, decide_eq_true_iff]
  rw [and_comm, ne_comm]

/-- Clearing everything leaves no members. -/
theorem members_clear (s : BitSet) : s.clear.members = ∅ := by
  ext j
  simp

/-- Setting a bit past the size does nothing. -/
theorem insert_of_le {s : BitSet} {i : Nat} (hi : s.size ≤ i) : s.insert i = s := by
  rw [insert, dif_neg (Nat.not_lt.mpr hi)]

/-- Clearing a bit past the size does nothing. -/
theorem erase_of_le {s : BitSet} {i : Nat} (hi : s.size ≤ i) : s.erase i = s := by
  rw [erase, s.contains_eq_false_of_le hi, if_neg Bool.false_ne_true]

/-- A request that is refused would not have changed anything either. -/
theorem perform_snd (s : BitSet) (request : Request) :
    (s.perform request).2 = (s.accept request).2 := by
  rw [perform_eq]
  cases hfault : outOfRange? .bit s.size request.bit? with
  | none => rfl
  | some violation =>
    obtain ⟨i, hbit, hrange⟩ := Option.bind_eq_some_iff.mp hfault
    -- a request is refused only for a bit past the size
    have hle : s.size ≤ i := by
      by_contra hlt
      rw [if_pos (Nat.lt_of_not_le hlt)] at hrange
      cases hrange
    cases request with
    | get => rfl
    | set | getAndSet => cases hbit; exact (insert_of_le hle).symm
    | clear => cases hbit; exact (erase_of_le hle).symm
    | size | clearAll | cardinality | isEmpty | isFull => cases hbit

/-- No request changes the size. -/
theorem size_perform (s : BitSet) (request : Request) :
    (s.perform request).2.size = s.size := by
  rw [perform_snd, size_accept]

/-- A request is answered as the set of the members would answer it. -/
theorem answer_perform (s : BitSet) (request : Request) :
    (s.perform request).1 = request.answerOf s.size s.members := by
  -- whether a bit is a member is decided by its word
  have hmem (i : Nat) : decide (i ∈ s.members) = s.contains i := by simp
  cases request with
  | get i | getAndSet i =>
    rw [Request.answerOf, hmem, perform]
    dsimp only [Request.bit?]
    split <;> rfl
  | set i | clear i =>
    rw [Request.answerOf, perform]
    dsimp only [Request.bit?]
    split <;> rfl
  | size | clearAll => rfl
  | cardinality => rw [Request.answerOf, card_members]; rfl
  | isEmpty => rw [Request.answerOf, ← isEmpty_eq_decide]; rfl
  | isFull => rw [Request.answerOf, ← isFull_eq_decide]; rfl

/-- A request adds and removes the bits that it says. -/
theorem mem_members_perform {s : BitSet} {i : Nat} (hi : i < s.size) (request : Request) :
    i ∈ (s.perform request).2.members ↔
      request.adds i = true ∨ (i ∈ s.members ∧ request.removes i = false) := by
  rw [perform_snd, mem_members, mem_members]
  cases request with
  -- a bit is set whether or not somebody asks for what it was
  | set j | getAndSet j =>
    rw [accept, contains_insert, Bool.or_eq_true, decide_eq_true_iff, Request.adds, beq_iff_eq]
    constructor
    · rintro (hold | ⟨rfl, -⟩)
      · exact .inr ⟨hold, rfl⟩
      · exact .inl rfl
    · rintro (rfl | ⟨hold, -⟩)
      · exact .inr ⟨rfl, hi⟩
      · exact .inl hold
  | clear j => simp [accept, contains_erase, Request.adds, Request.removes]
  | clearAll => simp [accept, Request.adds, Request.removes]
  | size | get | cardinality | isEmpty | isFull => simp [accept, Request.adds, Request.removes]

/-! ## Any number of requests -/

/-- No requests change the size. -/
theorem size_afterRequests (s : BitSet) (history : List Request) :
    (afterRequests perform s history).size = s.size := by
  induction history generalizing s with
  | nil => rfl
  | cons request later ih => exact (ih _).trans (s.size_perform request)

/-- After any requests a bit is a member if it stands, or was a member and stayed one. -/
theorem mem_members_afterRequests {s : BitSet} {i : Nat} (hi : i < s.size)
    (history : List Request) : i ∈ (afterRequests perform s history).members ↔
      Stands i history ∨ (i ∈ s.members ∧ ∀ r ∈ history, r.removes i = false) := by
  -- what the first request leaves of `s` is what the later ones find
  induction history generalizing s with
  | nil =>
    have hnil := not_stands_nil i
    simp [afterRequests, hnil]
  | cons request later ih =>
    have hnext := ih (s := (s.perform request).2) (by rwa [size_perform])
    rw [mem_members_perform hi] at hnext
    change i ∈ (afterRequests perform (s.perform request).2 later).members ↔ _
    rw [hnext, stands_cons, List.forall_mem_cons]
    tauto

/-- From the start on, the members are the bits that stand. -/
theorem members_afterRequests_empty (size : Nat) (history : List Request) :
    (afterRequests perform (.empty size) history).members = standing size history := by
  ext i
  rw [standing, Finset.mem_filter, Finset.mem_range]
  by_cases hi : i < size
  · rw [mem_members_afterRequests (s := .empty size) hi]
    simp [hi]
  · -- a bit past the size is never a member
    have hle : (afterRequests perform (.empty size) history).size ≤ i := by
      rw [size_afterRequests]
      exact Nat.le_of_not_lt hi
    simp [hi, contains_eq_false_of_le _ hle]

/-! ## Bits that come and go -/

/-- The sum of what the requests count for, each in the set that it meets. -/
def tally (count : BitSet → Request → Nat) : BitSet → List Request → Nat
  | _, [] => 0
  | s, request :: later => count s request + tally count (s.perform request).2 later

/-- Counts who sets a bit and is told that it was not there. -/
def claimed (s : BitSet) : Request → Nat
  | .getAndSet i => if (s.perform (.getAndSet i)).1 = .ok (.flag false) then 1 else 0
  | _ => 0

/-- Counts who just sets a bit that is not there. -/
def placed (s : BitSet) : Request → Nat
  | .set i => if (s.perform (.get i)).1 = .ok (.flag false) then 1 else 0
  | _ => 0

/-- Counts who clears a bit that is there. -/
def cleared (s : BitSet) : Request → Nat
  | .clear i => if (s.perform (.get i)).1 = .ok (.flag true) then 1 else 0
  | _ => 0

/-- Counts the members that are removed together. -/
def swept (s : BitSet) : Request → Nat
  | .clearAll => s.toList.length
  | _ => 0

/-- A bit that exists is told to be there if it is, and another one is not told of. -/
theorem perform_get_eq_iff (s : BitSet) (i : Nat) (b : Bool) :
    (s.perform (.get i)).1 = .ok (.flag b) ↔ i < s.size ∧ s.contains i = b := by
  rw [answer_perform, Request.answerOf]
  split <;> simp_all

/-- Setting a bit makes one member more if a reader would be told that it is clear. -/
theorem cardinality_insert (s : BitSet) (i : Nat) : (s.insert i).cardinality =
    s.cardinality + if (s.perform (.get i)).1 = .ok (.flag false) then 1 else 0 := by
  simp only [perform_get_eq_iff]
  by_cases hi : i < s.size
  · rw [← card_members, members_insert hi, Finset.card_insert_eq_ite, card_members]
    cases hcontains : s.contains i <;> simp [hi, hcontains]
  · rw [insert_of_le (Nat.le_of_not_lt hi), if_neg fun h => hi h.1, Nat.add_zero]

/-- Clearing a bit makes one member less if a reader would be told that it is set. -/
theorem cardinality_erase (s : BitSet) (i : Nat) : s.cardinality =
    (s.erase i).cardinality + if (s.perform (.get i)).1 = .ok (.flag true) then 1 else 0 := by
  simp only [perform_get_eq_iff]
  rw [← card_members (s.erase i), members_erase, ← card_members]
  by_cases hcontains : s.contains i = true
  · have hmem : i ∈ s.members := mem_members.mpr hcontains
    rw [if_pos ⟨lt_size_of_contains hcontains, hcontains⟩, Finset.card_erase_add_one hmem]
  · have hmem : i ∉ s.members := fun h => hcontains (mem_members.mp h)
    rw [if_neg fun h => hcontains h.2, Finset.erase_eq_of_notMem hmem, Nat.add_zero]

/-- One request keeps the account. -/
theorem balance_perform (s : BitSet) (request : Request) :
    s.cardinality + (s.claimed request + s.placed request) =
      (s.perform request).2.cardinality + (s.cleared request + s.swept request) := by
  rw [perform_snd]
  cases request with
  | set i => simp only [accept, claimed, placed, cleared, swept, cardinality_insert]; omega
  | getAndSet i =>
    -- who sets the bit is told what a reader would be told
    have hsame : (s.perform (.getAndSet i)).1 = (s.perform (.get i)).1 := by
      rw [answer_perform, answer_perform, Request.answerOf, Request.answerOf]
    simp only [accept, claimed, placed, cleared, swept, cardinality_insert, hsame]
    omega
  | clear i =>
    have herase := s.cardinality_erase i
    simp only [accept, claimed, placed, cleared, swept]
    omega
  | clearAll =>
    have hnone : s.clear.cardinality = 0 := by rw [← card_members, members_clear, Finset.card_empty]
    simp only [accept, claimed, placed, cleared, swept, hnone, cardinality_eq_length_toList]
    omega
  | size | get | cardinality | isEmpty | isFull => rfl

/-- What was there and what came is what is there and what went. -/
theorem tally_balance (s : BitSet) (history : List Request) :
    s.cardinality + (tally claimed s history + tally placed s history) =
      (afterRequests perform s history).cardinality +
        (tally cleared s history + tally swept s history) := by
  induction history generalizing s with
  | nil => rfl
  | cons request later ih =>
    -- the first request keeps the account, and so do the later ones from there
    have hone := s.balance_perform request
    have hlater := ih (s.perform request).2
    change _ = (afterRequests perform (s.perform request).2 later).cardinality + _
    simp only [tally]
    omega

end BitSet

/-- Bit sets are finite sets to whoever asks them. After any requests the members of a bit set are
the bits below its size that were added and not removed since, and any request is answered as this
set would answer it. The bits of the words, one word after the other, tell for each number below the
size whether it is a member, and are clear from there to the end of the last word; so there are
never more members than the size. The bits that callers were the first to set, and those that were
just set while they were clear, are as many as the members, the bits that were cleared while they
were set, and the members that were removed all at once. -/
theorem bit_sets_answer_as_finite_sets (size : Nat) (history : List BitSet.Request) :
    let start := BitSet.empty size
    let s := afterRequests BitSet.perform start history
    let members := BitSet.standing size history
    (∀ request, (s.perform request).1 = request.answerOf size members) ∧
    s.bits = (List.range size).map (fun i => decide (i ∈ members)) ++
      List.replicate (64 * wordCount size - size) false ∧
    s.cardinality ≤ size ∧
    BitSet.tally BitSet.claimed start history + BitSet.tally BitSet.placed start history =
      s.cardinality + (BitSet.tally BitSet.cleared start history +
        BitSet.tally BitSet.swept start history) := by
  intro start s members
  have hsize : s.size = size := BitSet.size_afterRequests start history
  have hmembers : s.members = members := BitSet.members_afterRequests_empty size history
  refine ⟨fun request => ?_, ?_, ?_, ?_⟩
  · rw [BitSet.answer_perform, hsize, hmembers]
  · rw [BitSet.bits_eq, hsize, ← hmembers]
    simp
  · rw [← hsize]
    exact s.cardinality_le_size
  · -- at the start nothing is there
    have hnone : start.cardinality = 0 := by
      rw [← BitSet.card_members, Finset.card_eq_zero, Finset.eq_empty_iff_forall_notMem]
      simp [start]
    rw [← BitSet.tally_balance, hnone, Nat.zero_add]

-- A bit stands that was added again after it was removed; bits past the size never do.
example : BitSet.standing 65 [.set 64, .getAndSet 3, .clear 64, .set 7, .clear 7, .set 64, .set 65]
    = {3, 64} := by decide

end Superstep
