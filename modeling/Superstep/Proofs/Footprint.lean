import Mathlib
import Superstep.Footprint

/-!
# Memory estimates in machine words

The estimates of `Footprint` are exact numbers. In machine words they are added up one operation
after the other, and each operation may leave the range. `Counting` is a way to add up, and each
estimate is written once for all of them, operation by operation. Two ways matter: `checked` stops
at the first operation that leaves the range, and `wrapping` drops what does not fit. Both follow
the exact numbers (`Counting.run_eq`). So no operation leaves the range exactly if the estimate
itself fits a word, and where all of them fit, more vertices never need fewer bytes.

That the product of size and width stops at the largest word does not help: the page table is added
to it, so that an estimate whose product has stopped leaves the range for certain, and what is left
of it is one less than the page table.

## Key results

- `Counting.paged_eq`, `Counting.run_eq`: a way to add up follows the exact numbers
- `fits?_paged`: an estimate fits exactly if the product and the page table do
- `run_mono`: estimates grow with the number of vertices
- `run_le`: a bound for the estimate of a run
- `estimates_in_words`: when estimates fit a word, and that they grow where they do
-/

namespace Superstep.Footprint

/-! ## The slots -/

/-- Slots may be added up from any number on. -/
theorem foldl_column {α : Type} (elements : List (Element α)) (nodeCount start : Nat) :
    elements.foldl (fun bytes e => bytes + column e.valueType nodeCount) start
      = start + (elements.map fun e => column e.valueType nodeCount).sum := by
  -- the induction is on the slots, from any number of bytes on
  induction elements generalizing start with
  | nil => rfl
  | cons e elements ih => simp [ih, Nat.add_assoc]

/-- The values of vertices take the record and the slots. -/
theorem nodeValues_eq_sum {α : Type} (schema : Schema α) (nodeCount : Nat) :
    nodeValues schema nodeCount = nodeValuesRecordBytes
      + (schema.elements.map fun e => column e.valueType nodeCount).sum :=
  foldl_column schema.elements nodeCount nodeValuesRecordBytes

/-! ## Ways to add up -/

/-- A count of bytes, if it fits a machine word. -/
def fits? (bytes : Nat) : Option Nat := if bytes < wordLimit then some bytes else none

/-- A count that fits is kept as it is. -/
theorem fits?_eq_some_iff {bytes m : Nat} :
    fits? bytes = some m ↔ bytes < wordLimit ∧ bytes = m := by
  simp [fits?]

/-- A count that does not fit leaves the range of a word. -/
theorem fits?_eq_none_iff {bytes : Nat} : fits? bytes = none ↔ wordLimit ≤ bytes := by
  simp [fits?]

/-- A way to add up counts of bytes. -/
structure Counting (ω : Type) where
  /-- A single count. -/
  word : Nat → ω
  add : ω → ω → ω
  /-- So many times a count. -/
  times : ω → Nat → ω

/-- Stops at the first count that does not fit a word. -/
def checked : Counting (Option Nat) where
  word := fits?
  add a b := a.bind fun a => b.bind fun b => fits? (a + b)
  times a factor := a.bind fun a => fits? (a * factor)

/-- Keeps of each count what fits a word. -/
def wrapping : Counting Nat where
  word := inWords
  add a b := inWords (a + b)
  times a factor := inWords (a * factor)

namespace Counting

variable {ω α : Type} (c : Counting ω)

/-- Bytes of a paged array. -/
def paged (size width : Nat) : ω :=
  c.add (c.word (saturatingMul size width)) (c.times (c.word (pageCount size)) blockReferenceBytes)

/-- Bytes of a bit set. -/
def bitSet (size : Nat) : ω := c.times (c.word (wordCount size)) wordBytes

/-- Bytes of the values of one slot. -/
def column (type : ValueType) (nodeCount : Nat) : ω :=
  match type with
  | .long | .double => c.paged nodeCount wordBytes
  | .longArray | .doubleArray => c.paged nodeCount blockReferenceBytes

/-- Bytes of the vertex values: the slots one after the other, then the record. -/
def nodeValues (schema : Schema α) (nodeCount : Nat) : ω :=
  c.add (schema.elements.foldl (fun bytes e => c.add bytes (c.column e.valueType nodeCount))
    (c.word 0)) (c.word nodeValuesRecordBytes)

/-- Bytes of one of the two buffers of a messenger. -/
def buffer (strategy : MessengerStrategy) (nodeCount : Nat) : ω :=
  match strategy with
  | .syncQueue | .asyncQueue => c.add (c.paged nodeCount wordBytes) (c.word Arena.rootBytes)
  | .reducing => c.add (c.paged nodeCount wordBytes) (c.bitSet nodeCount)

/-- Bytes of everything a run allocates. -/
def run (schema : Schema α) (nodeCount : Nat) (strategy : MessengerStrategy) : ω :=
  c.add (c.add (c.nodeValues schema nodeCount) (c.times (c.bitSet nodeCount) 2))
    (c.times (c.buffer strategy nodeCount) 2)

/-- Each operation yields what stands for the exact number. -/
structure Follows (f : Nat → ω) : Prop where
  word (a : Nat) : c.word a = f a
  add (a b : Nat) : c.add (f a) (f b) = f (a + b)
  times (a : Nat) {factor : Nat} : 0 < factor → c.times (f a) factor = f (a * factor)

variable {c} {f : Nat → ω}

/-- A paged array is estimated in words as in exact numbers. -/
theorem paged_eq (h : c.Follows f) (size width : Nat) :
    c.paged size width = f (Footprint.paged size width) := by
  rw [paged, h.word, h.word, h.times _ (by decide), h.add]
  rfl

/-- A bit set is estimated in words as in exact numbers. -/
theorem bitSet_eq (h : c.Follows f) (size : Nat) : c.bitSet size = f (Footprint.bitSet size) := by
  rw [bitSet, h.word, h.times _ (by decide)]
  rfl

/-- The values of a slot are estimated in words as in exact numbers. -/
theorem column_eq (h : c.Follows f) (type : ValueType) (nodeCount : Nat) :
    c.column type nodeCount = f (Footprint.column type nodeCount) := by
  cases type <;> exact paged_eq h nodeCount _

/-- The slots may be added up from any count on. -/
theorem foldl_column_eq (h : c.Follows f) (elements : List (Element α)) (nodeCount start : Nat) :
    elements.foldl (fun bytes e => c.add bytes (c.column e.valueType nodeCount)) (f start)
      = f (start + (elements.map fun e => Footprint.column e.valueType nodeCount).sum) := by
  induction elements generalizing start with
  | nil => rfl
  | cons e elements ih =>
    rw [List.foldl_cons, column_eq h, h.add, ih, List.map_cons, List.sum_cons, Nat.add_assoc]

/-- The values of vertices are estimated in words as in exact numbers, though the record is added
last. -/
theorem nodeValues_eq (h : c.Follows f) (schema : Schema α) (nodeCount : Nat) :
    c.nodeValues schema nodeCount = f (Footprint.nodeValues schema nodeCount) := by
  rw [nodeValues, h.word, h.word, foldl_column_eq h, h.add, nodeValues_eq_sum, Nat.zero_add,
    Nat.add_comm]

/-- So are the two buffers of a messenger, one of which is counted twice. -/
theorem times_buffer_eq (h : c.Follows f) (strategy : MessengerStrategy) (nodeCount : Nat) :
    c.times (c.buffer strategy nodeCount) 2 = f (Footprint.messenger strategy nodeCount) := by
  cases strategy
  case reducing =>
    rw [buffer, paged_eq h, bitSet_eq h, h.add, h.times _ (by decide), Nat.mul_comm]
    rfl
  all_goals
    rw [buffer, paged_eq h, h.word, h.add, h.times _ (by decide), Nat.mul_comm]
    rfl

/-- A way to add up that follows the exact numbers operation by operation does so in the end. -/
theorem run_eq (h : c.Follows f) (schema : Schema α) (nodeCount : Nat)
    (strategy : MessengerStrategy) :
    c.run schema nodeCount strategy = f (Footprint.run schema nodeCount strategy) := by
  -- part by part, in the order in which they are added up
  rw [run, nodeValues_eq h, bitSet_eq h, times_buffer_eq h, h.times _ (by decide), h.add, h.add,
    Nat.mul_comm]
  rfl

end Counting

/-- Adding up with checks follows the exact numbers: a sum fits only if all that went into it did.
-/
theorem follows_checked : checked.Follows fits? where
  word _ := rfl
  add a b := by
    -- a summand that does not fit leaves no sum that does
    simp only [checked, fits?]
    split <;> split <;> simp <;> omega
  times a factor hfactor := by
    -- a count that does not fit has no multiple that does
    have hle : a ≤ a * factor := Nat.le_mul_of_pos_right a hfactor
    simp only [checked, fits?]
    split <;> simp
    omega

/-- Adding up without checks follows the exact numbers: what was dropped on the way is dropped in
the end. -/
theorem follows_wrapping : wrapping.Follows inWords where
  word _ := rfl
  add a b := (Nat.add_mod a b wordLimit).symm
  times a factor _ := Nat.mod_mul_mod a factor wordLimit

/-! ## Estimates that fit -/

theorem pageCount_eq (size : Nat) : pageCount size = (size + 16383) / 16384 := rfl

/-- An array with cells has a page. -/
theorem pageCount_pos {size : Nat} (h : 0 < size) : 0 < pageCount size := by
  rw [pageCount_eq]
  omega

/-- A product that fits is computed. -/
theorem saturatingMul_of_lt {a b : Nat} (h : a * b < wordLimit) : saturatingMul a b = a * b := by
  unfold saturatingMul
  omega

/-- A product that does not fit stops at the largest word. -/
theorem saturatingMul_of_le {a b : Nat} (h : wordLimit ≤ a * b) :
    saturatingMul a b = wordLimit - 1 := by
  unfold saturatingMul
  omega

/-- An array whose product stops has cells. -/
theorem pos_of_wordLimit_le {size width : Nat} (h : wordLimit ≤ size * width) : 0 < size := by
  by_contra hzero
  simp [Nat.eq_zero_of_not_pos hzero, wordLimit] at h

/-- The estimate of a paged array fits a word exactly if product and page table do. That the product
stops at the largest word makes no difference, for the page table comes on top of it. -/
theorem fits?_paged (size width : Nat) : fits? (paged size width)
    = fits? (size * width + pageCount size * blockReferenceBytes) := by
  unfold paged blockReferenceBytes
  by_cases hproduct : size * width < wordLimit
  · rw [saturatingMul_of_lt hproduct]
  · have hstopped : wordLimit ≤ size * width := Nat.not_lt.mp hproduct
    have hpages := pageCount_pos (pos_of_wordLimit_le hstopped)
    -- neither of the two fits
    have hleft : fits? (wordLimit - 1 + pageCount size * 16) = none := by
      rw [fits?_eq_none_iff]
      omega
    have hright : fits? (size * width + pageCount size * 16) = none := by
      rw [fits?_eq_none_iff]
      omega
    rw [saturatingMul_of_le hstopped, hleft, hright]

/-- Once the product has stopped, what is left in a word is one less than the page table. -/
theorem inWords_paged {size width : Nat} (hsize : size < wordLimit)
    (hproduct : wordLimit ≤ size * width) :
    inWords (paged size width) = pageCount size * blockReferenceBytes - 1 := by
  have hpages := pageCount_pos (pos_of_wordLimit_le hproduct)
  -- the page table alone fits, so the sum goes over the limit once
  have htable : pageCount size * 16 < wordLimit := by
    rw [pageCount_eq]
    unfold wordLimit at hsize ⊢
    omega
  have hsum : wordLimit - 1 + pageCount size * 16 = pageCount size * 16 - 1 + wordLimit := by
    unfold wordLimit
    omega
  unfold inWords paged blockReferenceBytes
  rw [saturatingMul_of_le hproduct, hsum, Nat.add_mod_right]
  exact Nat.mod_eq_of_lt (by omega)

/-! ## More vertices -/

section Growth

variable {α : Type} {a b : Nat}

/-- An array of more cells takes no fewer bytes. -/
theorem paged_mono (hab : a ≤ b) (width : Nat) : paged a width ≤ paged b width := by
  have hproduct : a * width ≤ b * width := Nat.mul_le_mul_right width hab
  have hpages : pageCount a ≤ pageCount b := by
    rw [pageCount_eq, pageCount_eq]
    omega
  unfold paged saturatingMul blockReferenceBytes
  omega

/-- A set of more bits takes no fewer bytes. -/
theorem bitSet_mono (hab : a ≤ b) : bitSet a ≤ bitSet b := by
  unfold bitSet wordCount wordBytes
  omega

/-- A slot of more vertices takes no fewer bytes. -/
theorem column_mono (hab : a ≤ b) (type : ValueType) : column type a ≤ column type b := by
  cases type <;> exact paged_mono hab _

/-- The values of more vertices take no fewer bytes. -/
theorem nodeValues_mono (hab : a ≤ b) (schema : Schema α) :
    nodeValues schema a ≤ nodeValues schema b := by
  rw [nodeValues_eq_sum, nodeValues_eq_sum]
  exact Nat.add_le_add_left (List.sum_le_sum fun e _ => column_mono hab e.valueType) _

/-- A messenger between more vertices takes no fewer bytes. -/
theorem messenger_mono (hab : a ≤ b) (strategy : MessengerStrategy) :
    messenger strategy a ≤ messenger strategy b := by
  have hlongs := paged_mono hab wordBytes
  have hbits := bitSet_mono hab
  -- every kind is made of these two
  cases strategy <;> unfold messenger <;>
    simp only [queues, reducedBuffer, longs, doubles] <;> omega

/-- A run of more vertices takes no fewer bytes. -/
theorem run_mono (hab : a ≤ b) (schema : Schema α) (strategy : MessengerStrategy) :
    run schema a strategy ≤ run schema b strategy := by
  have hvalues := nodeValues_mono hab schema
  have hbits := bitSet_mono hab
  have hmessenger := messenger_mono hab strategy
  unfold run
  omega

/-- Where the larger count fits, the smaller one does. -/
theorem fits?_of_le {bytes : Nat} (hab : a ≤ b) (hb : fits? b = some bytes) :
    ∃ fewer ≤ bytes, fits? a = some fewer := by
  obtain ⟨hfits, rfl⟩ := fits?_eq_some_iff.mp hb
  exact ⟨a, hab, fits?_eq_some_iff.mpr ⟨by omega, rfl⟩⟩

end Growth

/-! ## A bound -/

section Bound

variable {α : Type}

/-- With cells of at most sixteen bytes, an array takes no more than seventeen bytes for each cell and
for two more. -/
theorem paged_le {width : Nat} (hwidth : width ≤ 16) (size : Nat) :
    paged size width ≤ 17 * (size + 2) := by
  have hproduct : size * width ≤ size * 16 := Nat.mul_le_mul_left size hwidth
  have hpages := pageCount_eq size
  unfold paged saturatingMul blockReferenceBytes
  omega

/-- A slot takes as much at most, whatever its type. -/
theorem column_le (type : ValueType) (nodeCount : Nat) :
    column type nodeCount ≤ 17 * (nodeCount + 2) := by
  cases type <;> exact paged_le (by decide) nodeCount

/-- The values of vertices are bounded by the number of slots. -/
theorem nodeValues_le (schema : Schema α) (nodeCount : Nat) :
    nodeValues schema nodeCount ≤ 56 + schema.elements.length * (17 * (nodeCount + 2)) := by
  have hsum := List.sum_le_card_nsmul (schema.elements.map fun e => column e.valueType nodeCount)
    (17 * (nodeCount + 2)) (by simp [column_le])
  rw [List.length_map, smul_eq_mul] at hsum
  rw [nodeValues_eq_sum]
  exact Nat.add_le_add_left hsum _

/-- Five slots more than there are stand for the bit sets and the messages. -/
theorem run_le (schema : Schema α) (nodeCount : Nat) (strategy : MessengerStrategy) :
    run schema nodeCount strategy
      ≤ (schema.elements.length + 5) * (17 * (nodeCount + 2)) + 2 * Arena.rootBytes := by
  have hvalues := nodeValues_le schema nodeCount
  have hcells := paged_le (show wordBytes ≤ 16 by decide) nodeCount
  -- a bit set takes eight bytes for every sixty-four vertices
  have hbits : bitSet nodeCount ≤ nodeCount + 8 := by
    unfold bitSet wordCount wordBytes
    omega
  rw [Nat.add_mul]
  unfold run
  cases strategy <;> unfold messenger <;>
    simp only [queues, reducedBuffer, longs, doubles] <;> omega

end Bound

/-! ## Estimates in words -/

/-- In words, an estimate is computed without leaving the range exactly if the exact number fits.
For a paged array that is the full product and the page table: once the product stops, the sum
leaves the range, and what is left is one less than the page table. Where the estimate for more
vertices is computed, the one for fewer is, and is no greater. An estimate of a run is computed for
all vertices and slots that together stay below a word. -/
theorem estimates_in_words {α : Type} :
    (∀ size width : Nat,
      checked.paged size width = fits? (size * width + pageCount size * blockReferenceBytes) ∧
      wrapping.paged size width = inWords (paged size width) ∧
      (size < wordLimit → wordLimit ≤ size * width → checked.paged size width = none ∧
        wrapping.paged size width = pageCount size * blockReferenceBytes - 1)) ∧
    (∀ a b width bytes : Nat, a ≤ b → checked.paged b width = some bytes →
      ∃ fewer ≤ bytes, checked.paged a width = some fewer) ∧
    (∀ (schema : Schema α) (n : Nat) (strategy : MessengerStrategy),
      checked.run schema n strategy = fits? (run schema n strategy) ∧
      wrapping.run schema n strategy = inWords (run schema n strategy) ∧
      ((schema.elements.length + 5) * (17 * (n + 2)) + 2 * Arena.rootBytes < wordLimit →
        checked.run schema n strategy = some (run schema n strategy))) ∧
    ∀ (schema : Schema α) (a b : Nat) (strategy : MessengerStrategy) (bytes : Nat), a ≤ b →
      checked.run schema b strategy = some bytes →
        ∃ fewer ≤ bytes, checked.run schema a strategy = some fewer := by
  have hpaged (size width : Nat) : checked.paged size width
      = fits? (size * width + pageCount size * blockReferenceBytes) := by
    rw [Counting.paged_eq follows_checked, fits?_paged]
  -- the stopped product: the sum leaves the range, and what is left was computed above
  have hstopped (size width : Nat) (hsize : size < wordLimit) (h : wordLimit ≤ size * width) :
      checked.paged size width = none ∧
        wrapping.paged size width = pageCount size * blockReferenceBytes - 1 := by
    constructor
    · rw [hpaged, fits?_eq_none_iff]
      omega
    · rw [Counting.paged_eq follows_wrapping, inWords_paged hsize h]
  have hrun (schema : Schema α) (n : Nat) (strategy : MessengerStrategy) :
      checked.run schema n strategy = fits? (run schema n strategy) :=
    Counting.run_eq follows_checked schema n strategy
  -- below the bound the exact number fits
  have hbound (schema : Schema α) (n : Nat) (strategy : MessengerStrategy)
      (h : (schema.elements.length + 5) * (17 * (n + 2)) + 2 * Arena.rootBytes < wordLimit) :
      checked.run schema n strategy = some (run schema n strategy) := by
    have hle := run_le schema n strategy
    rw [hrun, fits?_eq_some_iff]
    exact ⟨by omega, rfl⟩
  constructor
  · intro size width
    exact ⟨hpaged size width, Counting.paged_eq follows_wrapping size width, hstopped size width⟩
  constructor
  · -- what fits for more cells fits for fewer, since estimates grow
    intro a b width bytes hab hb
    rw [Counting.paged_eq follows_checked] at hb ⊢
    exact fits?_of_le (paged_mono hab width) hb
  constructor
  · intro schema n strategy
    exact ⟨hrun schema n strategy, Counting.run_eq follows_wrapping schema n strategy,
      hbound schema n strategy⟩
  · intro schema a b strategy bytes hab hb
    rw [hrun] at hb ⊢
    exact fits?_of_le (run_mono hab schema strategy) hb

/-- Ten thousand million vertices with two slots. -/
theorem estimates_in_words_run :
    checked.run (⟨[.plain "rank" .double .visible, .plain "path" .longArray .visible]⟩ :
        Schema Float) 10000000000 .reducing
      = some 405039062584 := by
  have hrun := (estimates_in_words.2.2.1 (⟨[.plain "rank" .double .visible,
    .plain "path" .longArray .visible]⟩ : Schema Float) 10000000000 .reducing).2.2 (by decide)
  rw [hrun]
  decide

/-- The largest size leaves the range, and what is left is less than what a smaller size takes. A
run without slots is estimated at fewer bytes for twice as many vertices. -/
theorem estimates_wrap :
    checked.paged 18446744073709551615 193 = none ∧
    wrapping.paged 18446744073709551615 193 = 18014398509481983 ∧
    wrapping.paged 95578501219323599 193 = 18446744073709551615 ∧
    checked.run (Schema.empty : Schema Float) 1152921504606846976 .syncQueue = none ∧
    wrapping.run (Schema.empty : Schema Float) 1152921504606846976 .syncQueue
      < wrapping.run (Schema.empty : Schema Float) 576460752303423488 .syncQueue := by
  decide

end Superstep.Footprint
