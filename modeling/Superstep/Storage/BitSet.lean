import Superstep.Storage.BitWords
import Superstep.Violation

/-!
# Bit sets

A bit set is a subset of `0 … size - 1`, packed into words. The bits of the last word past `size`
are clear, so that passes over whole words (`cardinality`, `isEmpty`) need not look at `size`.

`contains`, `insert` and `erase` are total: no set contains a bit past its size, and inserting one
there changes nothing. `perform` answers a caller and rejects such a bit with `Violation.bit`.
-/

namespace Superstep

/-- A subset of `0 … size - 1`. -/
structure BitSet where
  /-- One past the largest possible member. -/
  size : Nat
  /-- Membership, 64 bits a word. -/
  words : Array UInt64
  /-- There is a word for every bit below the size, and no further one. -/
  size_words : words.size = wordCount size
  /-- The bits past the size are clear. -/
  clear_past : ∀ i, size ≤ i → testBit words i = false
  deriving Repr, DecidableEq

namespace BitSet

/-- The empty subset of `0 … size - 1`. -/
def empty (size : Nat) : BitSet where
  size := size
  words := Array.replicate (wordCount size) 0
  size_words := Array.size_replicate
  clear_past i _ := testBit_of_forall_eq_zero (fun _ h => (Array.mem_replicate.1 h).2) i

/-- Whether `i` is a member. -/
@[inline] def contains (s : BitSet) (i : Nat) : Bool := testBit s.words i

/-- Adds `i`. -/
def insert (s : BitSet) (i : Nat) : BitSet :=
  if h : i < s.size then
    { size := s.size
      words := s.words.modify (i >>> 6) (· ||| bitMask i)
      size_words := Array.size_modify.trans s.size_words
      clear_past j hj := by
        have hij : i ≠ j := by omega
        rw [testBit_modify_or, s.clear_past j hj]
        simp [hij] }
  else s

/-- Removes `i`. -/
def erase (s : BitSet) (i : Nat) : BitSet :=
  if s.contains i then
    { size := s.size
      words := s.words.modify (i >>> 6) (· &&& ~~~bitMask i)
      size_words := Array.size_modify.trans s.size_words
      clear_past j hj := by rw [testBit_modify_and_not, s.clear_past j hj, Bool.false_and] }
  else s

/-- Removes every member. -/
def clear (s : BitSet) : BitSet where
  size := s.size
  words := s.words.map fun _ => 0
  size_words := (Array.size_map).trans s.size_words
  clear_past i _ := testBit_of_forall_eq_zero (by simp) i

/-- Nothing past the size is a member. -/
theorem contains_eq_false_of_le (s : BitSet) {i : Nat} (h : s.size ≤ i) : s.contains i = false :=
  s.clear_past i h

/-- An empty set has as many possible members as were asked for. -/
@[simp, grind =] theorem size_empty (size : Nat) : (empty size).size = size := rfl

/-- Adding a member leaves the possible members as they are. -/
@[simp, grind =] theorem size_insert (s : BitSet) (i : Nat) : (s.insert i).size = s.size := by
  rw [insert]; split <;> rfl

/-- So does removing one. -/
@[simp, grind =] theorem size_erase (s : BitSet) (i : Nat) : (s.erase i).size = s.size := by
  rw [erase]; split <;> rfl

/-- So does removing all. -/
@[simp, grind =] theorem size_clear (s : BitSet) : s.clear.size = s.size := rfl

/-- The empty set has no member. -/
@[simp, grind =] theorem contains_empty (size i : Nat) : (empty size).contains i = false :=
  testBit_of_forall_eq_zero (fun _ h => (Array.mem_replicate.1 h).2) i

/-- Nothing is left of the members. -/
@[simp, grind =] theorem contains_clear (s : BitSet) (i : Nat) : s.clear.contains i = false :=
  testBit_of_forall_eq_zero (by simp [clear]) i

/-- Adding a possible member makes it a member, and leaves the others as they are. -/
@[grind =] theorem contains_insert (s : BitSet) (i j : Nat) :
    (s.insert i).contains j = (s.contains j || decide (i = j ∧ i < s.size)) := by
  rw [insert]
  split
  · rename_i h
    have hword : i >>> 6 < s.words.size := by
      rw [s.size_words, shiftRight_6, wordCount]
      omega
    simp [contains, testBit_modify_or, hword, h]
  · rename_i h
    simp [h]

/-- Removing a number leaves the other members. -/
@[grind =] theorem contains_erase (s : BitSet) (i j : Nat) :
    (s.erase i).contains j = (s.contains j && decide (i ≠ j)) := by
  rw [erase]
  split
  · simp [contains, testBit_modify_and_not]
  · rename_i h
    by_cases hij : i = j
    · simpa [← hij] using h
    · simp [hij]

/-- Number of members. -/
def cardinality (s : BitSet) : Nat := s.words.foldl (fun n w => n + popCount w) 0

/-- Whether there is no member. -/
def isEmpty (s : BitSet) : Bool := s.words.all (· == 0)

/-- Whether every number below `size` is a member. -/
def isFull (s : BitSet) : Bool := s.cardinality == s.size

/-- The members, ascending. -/
def toList (s : BitSet) : List Nat := (List.range s.size).filter s.contains

/-- The list of members lists the members. -/
@[simp, grind =] theorem mem_toList (s : BitSet) (i : Nat) :
    i ∈ s.toList ↔ s.contains i = true := by
  rw [toList, List.mem_filter, List.mem_range]
  refine ⟨And.right, fun h => ⟨?_, h⟩⟩
  apply Nat.lt_of_not_le
  intro hle
  rw [s.contains_eq_false_of_le hle] at h
  contradiction

/-- A request to a bit set. -/
inductive Request where
  | size
  | get (bit : Nat)
  | set (bit : Nat)
  /-- Adds a bit and answers whether it was there before. -/
  | getAndSet (bit : Nat)
  | clear (bit : Nat)
  | clearAll
  | cardinality
  | isEmpty
  | isFull
  deriving Repr, DecidableEq

/-- The answer to a request. -/
inductive Answer where
  | done
  | flag (b : Bool)
  | count (n : Nat)
  deriving Repr, DecidableEq

/-- The bit that a request names, if it names one. -/
def Request.bit? : Request → Option Nat
  | .get i | .set i | .getAndSet i | .clear i => some i
  | _ => none

/-- Answers a request whose bit, if any, is in range. -/
def accept (s : BitSet) : Request → Answer × BitSet
  | .size => (.count s.size, s)
  | .get i => (.flag (s.contains i), s)
  | .set i => (.done, s.insert i)
  | .getAndSet i => let was := s.contains i; (.flag was, s.insert i)
  | .clear i => (.done, s.erase i)
  | .clearAll => (.done, s.clear)
  | .cardinality => (.count s.cardinality, s)
  | .isEmpty => (.flag s.isEmpty, s)
  | .isFull => (.flag s.isFull, s)

/-- Answers one request, rejecting a bit that is out of range. -/
def perform (s : BitSet) (r : Request) : Except Violation Answer × BitSet :=
  match r.bit? with
  | none => let (a, s) := s.accept r; (.ok a, s)
  | some i =>
    if i < s.size then let (a, s) := s.accept r; (.ok a, s) else (.error (.bit i s.size), s)

end BitSet

end Superstep
