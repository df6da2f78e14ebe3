import Mathlib
import Superstep.Storage.BitSet

/-!
# Bit sets as finite sets

The word-level passes of a bit set say what they should about its members, because the bits past
the size are clear.

## Key results

- `BitSet.bits_eq`: the bits of the words tell the members, and the rest of them is clear
- `BitSet.cardinality_eq_countP`: the word counts add up to the number of members
- `BitSet.isEmpty_iff` / `BitSet.isFull_iff`: the shortcuts on words answer for the members
- `BitSet.ext_contains`: a bit set is known by its size and its members
-/

namespace Superstep

/-! ## Bits of one word -/

/-- Bit `j` of word `k` is bit `64 * k + j` of the sequence. -/
theorem testBit_word (words : Array UInt64) (k j : Nat) (hk : k < words.size) (hj : j < 64) :
    testBit words (64 * k + j) = words[k].toNat.testBit j := by
  have hword : (64 * k + j) >>> 6 = k := by rw [shiftRight_6]; omega
  have hplace : (64 * k + j) &&& 63 = j := by rw [and_63]; omega
  simp only [testBit, hword, Array.getElem?_eq_getElem hk, and_bitMask_ne_zero, hplace]
  rfl

/-- The bits of a word, from the first place on. -/
def wordBits (w : UInt64) : List Bool := (List.range 64).map w.toNat.testBit

/-- The shortcut for zero counts the bits of a word as well. -/
theorem popCount_eq_countP_wordBits (w : UInt64) : popCount w = (wordBits w).countP id := by
  rw [wordBits, List.countP_map, popCount]
  split
  · rename_i hzero
    subst hzero
    decide
  · rfl

/-- The first `k` words hold the first bits. -/
private theorem flatMap_take_wordBits (words : Array UInt64) (k : Nat) (hk : k ≤ words.size) :
    (words.toList.take k).flatMap wordBits = (List.range (64 * k)).map (testBit words) := by
  induction k with
  | zero => rfl
  | succ k ih =>
    have hlt : k < words.toList.length := by rw [Array.length_toList]; omega
    -- one word more holds the next 64 bits
    rw [List.take_succ_eq_append_getElem hlt, List.flatMap_append, ih (by omega), Nat.mul_succ,
      List.range_add, List.map_append, List.map_map, List.flatMap_singleton, wordBits]
    congr 1
    apply List.map_congr_left
    intro j hj
    rw [Function.comp_apply, testBit_word words k j (by omega) (List.mem_range.mp hj)]
    simp

/-- A word that is not zero has a bit set. -/
private theorem exists_testBit_of_ne_zero {w : UInt64} (h : w ≠ 0) :
    ∃ j, j < 64 ∧ w.toNat.testBit j = true := by
  have hne : w.toNat ≠ 0 := fun hz => h (UInt64.toNat_inj.mp hz)
  obtain ⟨j, hj⟩ := Nat.exists_testBit_of_ne_zero hne
  refine ⟨j, ?_, hj⟩
  apply Nat.lt_of_not_le
  intro hle
  -- a place past the word would be clear
  have hlt : w.toNat < 2 ^ j :=
    Nat.lt_of_lt_of_le w.toNat_lt (Nat.pow_le_pow_right (by decide) hle)
  rw [Nat.testBit_lt_two_pow hlt] at hj
  cases hj

/-- Sequences of words that hold the same bits are equal. -/
theorem eq_of_testBit_eq {words words' : Array UInt64} (hsize : words.size = words'.size)
    (h : ∀ i, testBit words i = testBit words' i) : words = words' := by
  apply Array.ext hsize
  intro k hk hk'
  apply UInt64.toNat_inj.mp
  apply Nat.eq_of_testBit_eq
  intro j
  rcases Nat.lt_or_ge j 64 with hj | hj
  · rw [← testBit_word words k j hk hj, ← testBit_word words' k j hk' hj, h]
  · -- neither word has a bit there
    have hpow : 2 ^ 64 ≤ 2 ^ j := Nat.pow_le_pow_right (by decide) hj
    rw [Nat.testBit_lt_two_pow (Nat.lt_of_lt_of_le (UInt64.toNat_lt _) hpow),
      Nat.testBit_lt_two_pow (Nat.lt_of_lt_of_le (UInt64.toNat_lt _) hpow)]

namespace BitSet

/-! ## Counting -/

/-- All bits of all words. -/
def bits (s : BitSet) : List Bool := s.words.toList.flatMap wordBits

/-- The bits of the words tell the members, and those that are left over are clear. -/
theorem bits_eq (s : BitSet) : s.bits = (List.range s.size).map s.contains ++
    List.replicate (64 * wordCount s.size - s.size) false := by
  have hcover : s.size ≤ 64 * s.words.size := by rw [s.size_words, wordCount]; omega
  have hwords := flatMap_take_wordBits s.words s.words.size (Nat.le_refl _)
  rw [List.take_of_length_le (by simp), ← Nat.add_sub_cancel' hcover, List.range_add,
    List.map_append, List.map_map] at hwords
  rw [bits, hwords, s.size_words]
  congr 1
  rw [List.eq_replicate_iff, List.length_map, List.length_range]
  refine ⟨rfl, fun b hb => ?_⟩
  obtain ⟨j, -, rfl⟩ := List.mem_map.mp hb
  exact s.clear_past (s.size + j) (by omega)

/-- The word counts add up to the number of members. -/
theorem cardinality_eq_countP (s : BitSet) :
    s.cardinality = (List.range s.size).countP s.contains := by
  calc s.cardinality
      = (s.words.toList.map popCount).sum := by
        rw [cardinality, ← Array.foldl_toList, List.sum_eq_foldl, List.foldl_map]
    _ = s.bits.countP id := by
        rw [bits, List.countP_flatMap]
        exact congrArg _ (List.map_congr_left fun w _ => popCount_eq_countP_wordBits w)
    _ = (List.range s.size).countP s.contains := by
        -- no bit past the size is set
        rw [bits_eq, List.countP_append, List.countP_map, List.countP_replicate]
        rfl

/-- The cardinality is the length of the list of members. -/
theorem cardinality_eq_length_toList (s : BitSet) : s.cardinality = s.toList.length := by
  rw [cardinality_eq_countP, toList, List.countP_eq_length_filter]

/-- A set is full if every possible member is one. -/
theorem isFull_iff (s : BitSet) : s.isFull = true ↔ ∀ i < s.size, s.contains i = true := by
  have hall := List.countP_eq_length (l := List.range s.size) (p := s.contains)
  rw [List.length_range] at hall
  rw [isFull, beq_iff_eq, cardinality_eq_countP, hall]
  simp only [List.mem_range]

/-- A set is empty if it has no member. -/
theorem isEmpty_iff (s : BitSet) : s.isEmpty = true ↔ ∀ i, s.contains i = false := by
  simp only [isEmpty, Array.all_eq_true, beq_iff_eq]
  constructor
  · intro hzero i
    apply testBit_of_forall_eq_zero
    intro w hw
    obtain ⟨k, hk, rfl⟩ := Array.mem_iff_getElem.mp hw
    exact hzero k hk
  · -- a word that is not zero would have a member
    intro hclear k hk
    apply Classical.byContradiction
    intro hne
    obtain ⟨j, hj, hset⟩ := exists_testBit_of_ne_zero hne
    have hbit : testBit s.words (64 * k + j) = false := hclear (64 * k + j)
    rw [testBit_word s.words k j hk hj, hset] at hbit
    cases hbit

/-- A bit set is known by its size and its members. -/
theorem ext_contains {s t : BitSet} (hsize : s.size = t.size)
    (h : ∀ i, s.contains i = t.contains i) : s = t := by
  have hwords : s.words = t.words := by
    apply eq_of_testBit_eq
    · rw [s.size_words, t.size_words, hsize]
    · exact h
  cases s
  cases t
  cases hsize
  cases hwords
  rfl

end BitSet

end Superstep
