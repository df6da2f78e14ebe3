import Mathlib
import Superstep.Operation
import Superstep.Storage.PagedArray.Words
import Superstep.Proofs.Storage.PagedArray

/-!
# Paged arrays answer as flat lists

What the three kinds of arrays answer is what a list of their cells would answer that knows nothing
of pages (`performFlat`). A place in the list is a page and a place on it, and the other way round
(`LaysOut`), and each request finds its cell or is refused as it would be with the list. Whether the
cells are values or words that stand for values makes no difference: the one relation `Shows` serves
both, and one step keeps it.

## Key results

- `laysOut_pages`: the pages have a place for each index and no other
- `PagedArray.Shows.read`, `Shows.access`, `Shows.fill`: what single requests come to
- `Answers.of_step`: from one request to any number
- `arrays_answer_as_lists`: all arrays
-/

namespace Superstep

/-! ## Pages and places -/

/-- Where the cell of an index is: its page, and its place there. -/
def pageIndex (i : Nat) : Nat × Nat := (i >>> pageShift, i &&& pageMask)

/-- Pages of these lengths have a place for each of so many indices, and no other places. -/
structure LaysOut (size : Nat) (lengths : List Nat) : Prop where
  pos : ∀ length ∈ lengths, 0 < length
  sum : lengths.sum = size
  bijOn : Set.BijOn pageIndex {i | i < size}
    {place | ∃ length, lengths[place.1]? = some length ∧ place.2 < length}

/-- No page is empty. -/
theorem pos_of_mem_pageLengths {size length : Nat} (h : length ∈ pageLengths size) :
    0 < length := by
  simp only [pageLengths, List.mem_map, List.mem_range] at h
  obtain ⟨p, hp, rfl⟩ := h
  have hpos := pageSize_pos
  split
  · rename_i hlast
    -- a last page is begun only if the pages before it do not hold everything
    have hle : (p + 1) * pageSize ≤ size + (pageSize - 1) := by
      rw [hlast]
      exact Nat.div_mul_le_self ..
    rw [Nat.add_mul] at hle
    omega
  · exact hpos

/-- The pages of an array have a place for each index and no other. -/
theorem laysOut_pages {β : Type} (a : PagedArray β) :
    LaysOut a.size (a.pages.toList.map Array.size) where
  pos length h := by
    rw [a.lengths] at h
    exact pos_of_mem_pageLengths h
  sum := by
    rw [a.lengths, List.sum_eq_foldl]
    exact sum_pageLengths a.size
  bijOn := by
    refine ⟨fun i hi => ?_, fun i _ j _ h => ?_, fun place hplace => ?_⟩
    · -- every index has a place
      have hsome := (PagedArray.isSome_get? a).mpr hi
      rw [PagedArray.get?] at hsome
      cases hpage : a.pages[i >>> pageShift]? with
      | none => simp [hpage] at hsome
      | some page =>
        refine ⟨page.size, ?_, ?_⟩
        · simp [pageIndex, hpage]
        · simpa [pageIndex, hpage] using hsome
    · -- no two have the same
      exact PagedArray.eq_of_page_of_offset (congrArg Prod.fst h) (congrArg Prod.snd h)
    · -- and every place has an index
      obtain ⟨p, offset⟩ := place
      obtain ⟨length, hlength, hoffset⟩ := hplace
      have hle : length ≤ pageSize := by
        rw [a.lengths] at hlength
        exact le_pageSize_of_mem_pageLengths (List.mem_of_getElem? hlength)
      -- the index is told by the full pages before
      have hplace : pageIndex (p * pageSize + offset) = (p, offset) := by
        have hlt : offset < pageSize := Nat.lt_of_lt_of_le hoffset hle
        rw [pageIndex, shiftRight_pageShift, and_pageMask, Nat.mul_comm,
          Nat.mul_add_div pageSize_pos, Nat.mul_add_mod, Nat.div_eq_of_lt hlt,
          Nat.mod_eq_of_lt hlt, Nat.add_zero]
      refine ⟨p * pageSize + offset, ?_, hplace⟩
      rw [pageIndex, Prod.mk.injEq] at hplace
      change p * pageSize + offset < a.size
      rw [← PagedArray.isSome_get?, PagedArray.get?, hplace.1, hplace.2]
      obtain ⟨page, hpage, rfl⟩ : ∃ page, a.pages[p]? = some page ∧ page.size = length := by
        simpa using hlength
      simpa [hpage] using hoffset

/-! ## Lists -/

namespace FlatList

variable {β ω : Type}

/-- What is made of the element at an index. -/
def read (xs : List β) (index : Nat) (f : β → ω) : Except Violation ω :=
  match xs[index]? with
  | some x => .ok (f x)
  | none => .error (.index index xs.length)

/-- Replaces the element at an index by the second part of what `f` makes of it, and answers the
first. -/
def access (xs : List β) (index : Nat) (f : β → ω × β) : Except Violation ω × List β :=
  match xs[index]? with
  | some x => (.ok (f x).1, xs.set index (f x).2)
  | none => (.error (.index index xs.length), xs)

end FlatList

/-- What a list of integers answers. A sum that does not fit wraps around. -/
def LongArray.performFlat (xs : List Int64) : Request → Except Violation Answer × List Int64
  | .size => (.ok (.size xs.length), xs)
  | .get i => (FlatList.read xs i .value, xs)
  | .set i v => FlatList.access xs i fun _ => (.done, v)
  | .swap i v => FlatList.access xs i fun x => (.value x, v)
  | .compareExchange i expected v => FlatList.access xs i fun x =>
    if x = expected then (.exchanged x, v) else (.mismatch x, x)
  | .add i d => FlatList.access xs i fun x => (.value x, .ofInt (x.toInt + d.toInt))
  | .fill v => (.ok .done, List.replicate xs.length v)

/-- What a list of scalars answers. -/
def ScalarArray.performFlat {α : Type} (xs : List α) :
    Request α → Except Violation (Answer α) × List α
  | .size => (.ok (.size xs.length), xs)
  | .get i => (FlatList.read xs i .value, xs)
  | .set i v => FlatList.access xs i fun _ => (.done, v)
  | .update i f => FlatList.access xs i fun x => (.value x, f x)
  | .fill v => (.ok .done, List.replicate xs.length v)

/-- What a list of objects answers, which are missing at first. -/
def ObjectArray.performFlat {β : Type} (xs : List (Option β)) :
    Request β → Except Violation (Answer β) × List (Option β)
  | .size => (.ok (.size xs.length), xs)
  | .get i => (FlatList.read xs i .value, xs)
  | .set i v => FlatList.access xs i fun _ => (.done, some v)

/-! ## One request -/

namespace PagedArray

variable {β γ ω : Type} {encode : β → γ} {a : PagedArray γ} {xs : List β}

/-- The cells stand for the elements of the list. -/
def Shows (encode : β → γ) (a : PagedArray γ) (xs : List β) : Prop := a.toList = xs.map encode

/-- The array is as long as the list. -/
theorem Shows.size_eq (h : a.Shows encode xs) : a.size = xs.length := by
  rw [← length_toList, h, List.length_map]

/-- The cell at an index stands for the element there. -/
theorem Shows.get?_eq (h : a.Shows encode xs) (i : Nat) : a.get? i = xs[i]?.map encode := by
  rw [← getElem?_toList, h, List.getElem?_map]

/-- A new array shows a list of as many equal elements. -/
theorem shows_replicate (encode : β → γ) (size : Nat) (b : β) :
    (replicate size (encode b)).Shows encode (List.replicate size b) := by
  rw [Shows, toList_replicate, List.map_replicate]

/-- Both are filled in the same way. -/
theorem Shows.fill (h : a.Shows encode xs) (b : β) :
    (a.fill (encode b)).Shows encode (List.replicate xs.length b) := by
  rw [Shows, toList_fill, List.map_replicate, h.size_eq]

/-- A cell is read as the element that it stands for, or refused like it. -/
theorem Shows.read (h : a.Shows encode xs) (i : Nat) {f : β → ω} {g : γ → ω}
    (hfg : ∀ x, g (encode x) = f x) : (a.read i).map g = FlatList.read xs i f := by
  rw [PagedArray.read, FlatList.read, h.get?_eq, h.size_eq]
  cases xs[i]? with
  | none => rfl
  | some x => exact congrArg Except.ok (hfg x)

/-- A cell and the element that it stands for are replaced together. -/
theorem Shows.access (h : a.Shows encode xs) (i : Nat) {f : β → ω × β} {g : γ → ω × γ}
    (hfg : ∀ x, g (encode x) = ((f x).1, encode (f x).2)) :
    (a.access i g).1 = (FlatList.access xs i f).1 ∧
      (a.access i g).2.Shows encode (FlatList.access xs i f).2 := by
  rw [PagedArray.access, FlatList.access, h.get?_eq, h.size_eq]
  cases xs[i]? with
  | none => exact ⟨rfl, h⟩
  | some x =>
    dsimp only [Option.map_some]
    rw [hfg]
    refine ⟨rfl, ?_⟩
    rw [Shows, toList_set, h, List.map_set]

end PagedArray

/-! ## Any number of requests -/

section

variable {β γ ρ ω : Type} {perform : PagedArray γ → ρ → Except Violation ω × PagedArray γ}
  {flat : List β → ρ → Except Violation ω × List β} {encode : β → γ}
  {a : PagedArray γ} {xs : List β}

/-- An array and a list answer alike whatever they are asked, and the cells go on to stand for the
elements. -/
structure AnswersAs (perform : PagedArray γ → ρ → Except Violation ω × PagedArray γ)
    (flat : List β → ρ → Except Violation ω × List β) (encode : β → γ) (a : PagedArray γ)
    (xs : List β) : Prop where
  answers (requests : List ρ) : answersTo perform a requests = answersTo flat xs requests
  cells (requests : List ρ) : (afterRequests perform a requests).toList
    = (afterRequests flat xs requests).map encode

/-- An array that answers one request as the list does answers all so. -/
theorem AnswersAs.of_step
    (hstep : ∀ (a : PagedArray γ) (xs : List β) (request : ρ), a.Shows encode xs →
      (perform a request).1 = (flat xs request).1 ∧
        (perform a request).2.Shows encode (flat xs request).2)
    (h : a.Shows encode xs) : AnswersAs perform flat encode a xs := by
  refine ⟨fun requests => ?_, fun requests => ?_⟩
  · induction requests generalizing a xs with
    | nil => rfl
    | cons request requests ih =>
      obtain ⟨hanswer, hshows⟩ := hstep a xs request h
      exact congrArg₂ List.cons hanswer (ih hshows)
  · induction requests generalizing a xs with
    | nil => exact h
    | cons request requests ih => exact ih (hstep a xs request h).2

end

namespace LongArray

/-- A sum wraps around where it does not fit. -/
theorem add_eq_ofInt (x d : Int64) : x + d = .ofInt (x.toInt + d.toInt) := by
  rw [Int64.ofInt_add, Int64.ofInt_toInt, Int64.ofInt_toInt]

/-- Arrays of integers answer as lists of integers do. -/
theorem answersAs (size : Nat) (initial : Int64) :
    AnswersAs perform performFlat id (.replicate size initial) (List.replicate size initial) := by
  refine .of_step (fun a xs request h => ?_) (PagedArray.shows_replicate id size initial)
  cases request with
  | size => exact ⟨by rw [perform, performFlat, h.size_eq], h⟩
  | get i => exact ⟨h.read i fun _ => rfl, h⟩
  | set i v => exact h.access i fun _ => rfl
  | swap i v => exact h.access i fun _ => rfl
  | compareExchange i expected v => exact h.access i fun _ => rfl
  | add i d =>
    refine h.access i fun x => ?_
    rw [← add_eq_ofInt, id, id]
  | fill v => exact ⟨rfl, h.fill v⟩

/-- In words too: what is added and compared as a word is added and compared as a number. -/
theorem answersAs_words (size : Nat) (initial : Int64) :
    AnswersAs performInWords performFlat Int64.toUInt64 (.replicate size initial.toUInt64)
      (List.replicate size initial) := by
  refine .of_step (fun a xs request h => ?_) (PagedArray.shows_replicate _ size initial)
  have hback := Int64.toInt64_toUInt64
  cases request with
  | size => exact ⟨by rw [performInWords, performFlat, h.size_eq], h⟩
  | get i => exact ⟨h.read i fun x => congrArg Answer.value (hback x), h⟩
  | set i v => exact h.access i fun _ => rfl
  | swap i v =>
    refine h.access i fun x => ?_
    rw [hback]
  | compareExchange i expected v =>
    refine h.access i fun x => ?_
    -- two integers are the same if their words are
    have hsame : x.toUInt64 = expected.toUInt64 ↔ x = expected :=
      ⟨fun hwords => by rw [← hback x, hwords, hback], congrArg _⟩
    simp only [hsame, hback]
    split <;> rfl
  | add i d =>
    refine h.access i fun x => ?_
    rw [← add_eq_ofInt, hback, Int64.toUInt64_add]
  | fill v => exact ⟨rfl, h.fill v⟩

end LongArray

namespace ScalarArray

variable {α : Type}

/-- Arrays of scalars answer as lists of scalars do. -/
theorem answersAs (size : Nat) (initial : α) :
    AnswersAs perform performFlat id (.replicate size initial) (List.replicate size initial) := by
  refine .of_step (fun a xs request h => ?_) (PagedArray.shows_replicate id size initial)
  cases request with
  | size => exact ⟨by rw [perform, performFlat, h.size_eq], h⟩
  | get i => exact ⟨h.read i fun _ => rfl, h⟩
  | set i v => exact h.access i fun _ => rfl
  | update i f => exact h.access i fun _ => rfl
  | fill v => exact ⟨rfl, h.fill v⟩

/-- In words too: a scalar comes out of its word as it was put in. -/
theorem answersAs_words (code : WordCode α) (size : Nat) (initial : α) :
    AnswersAs (performInWords code) performFlat code.toWord
      (.replicate size (code.toWord initial)) (List.replicate size initial) := by
  refine .of_step (fun a xs request h => ?_) (PagedArray.shows_replicate _ size initial)
  have hback := code.ofWord_toWord
  cases request with
  | size => exact ⟨by rw [performInWords, performFlat, h.size_eq], h⟩
  | get i => exact ⟨h.read i fun x => congrArg Answer.value (hback x), h⟩
  | set i v => exact h.access i fun _ => rfl
  | update i f =>
    refine h.access i fun x => ?_
    rw [hback]
  | fill v => exact ⟨rfl, h.fill v⟩

/-- Doubles may be kept by their bits, over a page and a cell. -/
example : AnswersAs (performInWords ⟨Float.toBits, Float.ofBits, Float.ofBits_toBits⟩) performFlat
    Float.toBits (.replicate 16385 (Float.toBits 0.5)) (List.replicate 16385 0.5) :=
  answersAs_words _ 16385 0.5

end ScalarArray

/-- Arrays of objects answer as lists of objects that may be missing do. -/
theorem ObjectArray.answersAs {β : Type} (size : Nat) :
    AnswersAs (perform (β := β)) performFlat id (empty size) (List.replicate size none) := by
  refine .of_step (fun a xs request h => ?_) (PagedArray.shows_replicate id size none)
  cases request with
  | size => exact ⟨by rw [perform, performFlat, h.size_eq], h⟩
  | get i => exact ⟨h.read i fun _ => rfl, h⟩
  | set i v => exact h.access i fun _ => rfl

/-- Paged arrays are flat lists to whoever asks them. The pages of an array of any size are not
empty, are as long as the array together, and an index is told by its page and its place there, of
which there are no others. Whatever an array of integers, of scalars or of objects is asked, in
any order, it answers as a list of the same length does, and refuses what that refuses; and so it
does if integers are kept as words in two's complement, and scalars as words from which they are
read back. -/
theorem arrays_answer_as_lists {α β : Type} (code : WordCode α) (size : Nat) :
    (∀ a : PagedArray β, LaysOut a.size (a.pages.toList.map Array.size)) ∧
    (∀ initial : Int64,
      AnswersAs LongArray.perform LongArray.performFlat id
        (.replicate size initial) (List.replicate size initial) ∧
      AnswersAs LongArray.performInWords LongArray.performFlat Int64.toUInt64
        (.replicate size initial.toUInt64) (List.replicate size initial)) ∧
    (∀ initial : α,
      AnswersAs ScalarArray.perform ScalarArray.performFlat id
        (.replicate size initial) (List.replicate size initial) ∧
      AnswersAs (ScalarArray.performInWords code) ScalarArray.performFlat code.toWord
        (.replicate size (code.toWord initial)) (List.replicate size initial)) ∧
    AnswersAs (ObjectArray.perform (β := β)) ObjectArray.performFlat id
      (ObjectArray.empty size) (List.replicate size none) :=
  ⟨laysOut_pages,
    fun initial => ⟨LongArray.answersAs size initial, LongArray.answersAs_words size initial⟩,
    fun initial =>
      ⟨ScalarArray.answersAs size initial, ScalarArray.answersAs_words code size initial⟩,
    ObjectArray.answersAs size⟩

end Superstep
