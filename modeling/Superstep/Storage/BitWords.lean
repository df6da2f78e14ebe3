/-!
# Bits packed into words

A sequence of 64-bit words holds a sequence of bits: bit `i` is bit `i &&& 63` of word `i >>> 6`.

* `testBit_modify_or`       or-ing the mask of a bit into its word sets that bit and no other
* `testBit_modify_and_not`  masking a bit out of its word clears that bit and no other
-/

namespace Superstep

/-- The number of bits set in a word. -/
def popCount (w : UInt64) : Nat :=
  if w = 0 then 0 else (List.range 64).countP fun i => w.toNat.testBit i

/-- Number of words that hold `size` bits. -/
def wordCount (size : Nat) : Nat := (size + 63) / 64

/-- The word that has only bit `i &&& 63` set. -/
@[inline] def bitMask (i : Nat) : UInt64 := (1 : UInt64) <<< (i &&& 63).toUInt64

/-- Whether bit `i` of a sequence of words is set. -/
@[inline] def testBit (words : Array UInt64) (i : Nat) : Bool :=
  match words[i >>> 6]? with
  | some w => w &&& bitMask i != 0
  | none => false

/-- A word has 64 places. -/
theorem and_63_lt (i : Nat) : i &&& 63 < 64 := Nat.lt_of_le_of_lt Nat.and_le_right (by decide)

/-- The mask takes the place in the word. -/
theorem and_63 (i : Nat) : i &&& 63 = i % 64 := Nat.and_two_pow_sub_one_eq_mod i 6

/-- The shift takes the word. -/
theorem shiftRight_6 (i : Nat) : i >>> 6 = i / 64 := Nat.shiftRight_eq_div_pow i 6

/-- A bit is its word and its place in the word. -/
theorem eq_of_word_of_place {i j : Nat} (hword : i >>> 6 = j >>> 6) (hplace : i &&& 63 = j &&& 63) :
    i = j := by
  rw [shiftRight_6, shiftRight_6] at hword
  rw [and_63, and_63] at hplace
  omega

/-- The mask of a bit is a power of two. -/
theorem toBitVec_bitMask (i : Nat) : (bitMask i).toBitVec = BitVec.twoPow 64 (i &&& 63) := by
  have hmod : (i &&& 63) % 18446744073709551616 = i &&& 63 :=
    Nat.mod_eq_of_lt (Nat.lt_trans (and_63_lt i) (by decide))
  have hshift : (BitVec.ofNat 64 (i &&& 63) % 64#64).toNat = i &&& 63 := by
    rw [BitVec.toNat_umod, BitVec.toNat_ofNat]
    exact (congrArg (· % 64) hmod).trans (Nat.mod_eq_of_lt (and_63_lt i))
  rw [bitMask, UInt64.toBitVec_shiftLeft, BitVec.twoPow]
  exact congrArg (1#64 <<< ·) hshift

/-- The test against the mask reads the bit at the place. -/
theorem and_bitMask_ne_zero (w : UInt64) (i : Nat) :
    (w &&& bitMask i != 0) = w.toBitVec.getLsbD (i &&& 63) := by
  have hzero : BitVec.twoPow 64 (i &&& 63) ≠ 0#64 := fun h => by
    have := congrArg (·.getLsbD (i &&& 63)) h
    simp [and_63_lt] at this
  rw [bne, Bool.not_eq_eq_eq_not, Bool.eq_iff_iff, beq_iff_eq, ← UInt64.toBitVec_inj,
    UInt64.toBitVec_and, toBitVec_bitMask, BitVec.and_twoPow]
  cases w.toBitVec.getLsbD (i &&& 63)
  · simp
  · simpa using hzero

/-- Setting a bit changes this bit and no other, if there is a word for it. -/
theorem testBit_modify_or (words : Array UInt64) (i j : Nat) :
    testBit (words.modify (i >>> 6) (· ||| bitMask i)) j
      = (testBit words j || decide (i = j ∧ i >>> 6 < words.size)) := by
  simp only [testBit, Array.getElem?_modify]
  -- the bits of another word stay
  by_cases hword : i >>> 6 = j >>> 6
  · cases hw : words[j >>> 6]? with
    | none =>
      have hlt : ¬j >>> 6 < words.size := by simpa using hw
      simp [hword, hlt]
    | some w =>
      have hlt : j >>> 6 < words.size := (Array.getElem?_eq_some_iff.1 hw).1
      simp only [hword, if_true, Option.map_some, and_bitMask_ne_zero, UInt64.toBitVec_or,
        toBitVec_bitMask, BitVec.getLsbD_or, BitVec.getLsbD_twoPow, hlt]
      -- and so do the other bits of the same word
      by_cases hij : i = j
      · simp [hij, and_63_lt]
      · have hplace : ¬i &&& 63 = j &&& 63 := fun h => hij (eq_of_word_of_place hword h)
        simp [hij, hplace]
  · have hij : i ≠ j := fun h => hword (by rw [h])
    simp [hword, hij]

/-- Clearing a bit changes this bit and no other. -/
theorem testBit_modify_and_not (words : Array UInt64) (i j : Nat) :
    testBit (words.modify (i >>> 6) (· &&& ~~~bitMask i)) j
      = (testBit words j && decide (i ≠ j)) := by
  simp only [testBit, Array.getElem?_modify]
  -- the bits of another word stay
  by_cases hword : i >>> 6 = j >>> 6
  · cases hw : words[j >>> 6]? with
    | none => simp [hword]
    | some w =>
      simp only [hword, if_true, Option.map_some, and_bitMask_ne_zero, UInt64.toBitVec_and,
        UInt64.toBitVec_not, toBitVec_bitMask, BitVec.getLsbD_and, BitVec.getLsbD_not,
        BitVec.getLsbD_twoPow]
      by_cases hij : i = j
      · simp [hij, and_63_lt]
      · have hplace : ¬i &&& 63 = j &&& 63 := fun h => hij (eq_of_word_of_place hword h)
        simp [hij, hplace, and_63_lt]
  · have hij : i ≠ j := fun h => hword (by rw [h])
    simp [hword, hij]

/-- Words that are zero have no bit set. -/
theorem testBit_of_forall_eq_zero {words : Array UInt64} (h : ∀ w ∈ words, w = 0) (i : Nat) :
    testBit words i = false := by
  rw [testBit]
  split
  · rename_i w hw
    simp [h w (Array.mem_of_getElem? hw)]
  · rfl

end Superstep
