import Superstep.Storage.PagedArray

/-!
# Paged arrays as flat lists

Every operation of a paged array is what the same operation does to the flat list of its cells.
After this file nothing has to look at pages.

* `getElem?_toList`   reading an index reads the flat list
* `toList_set`, `toList_modify`, `toList_fill`, `toList_replicate`
* `length_toList`     the flat list has `size` cells
-/

namespace Superstep

/-- A page has cells. -/
theorem pageSize_pos : 0 < pageSize := by decide

/-- Shifting an index divides it by the page size. -/
theorem shiftRight_pageShift (i : Nat) : i >>> pageShift = i / pageSize := by
  rw [Nat.shiftRight_eq_div_pow]; rfl

/-- Masking an index leaves what the page size does not divide. -/
theorem and_pageMask (i : Nat) : i &&& pageMask = i % pageSize :=
  Nat.and_two_pow_sub_one_eq_mod i pageShift

/-- Every page but the last is full. -/
theorem getElem?_pageLengths_of_lt {size p : Nat} (h : p + 1 < pageCount size) :
    (pageLengths size)[p]? = some pageSize := by
  have hp : p < pageCount size := by omega
  have hne : p + 1 ≠ pageCount size := by omega
  simp [pageLengths, hp, hne]

/-- There are as many lengths as pages. -/
theorem length_pageLengths (size : Nat) : (pageLengths size).length = pageCount size := by
  simp [pageLengths]

/-- No page is longer than a full one. -/
theorem le_pageSize_of_mem_pageLengths {size n : Nat} (h : n ∈ pageLengths size) :
    n ≤ pageSize := by
  simp only [pageLengths, List.mem_map, List.mem_range] at h
  obtain ⟨p, hp, rfl⟩ := h
  split
  · rename_i hlast
    -- the last page ends where the array does
    have hsize : size + (pageSize - 1) < (pageCount size + 1) * pageSize :=
      Nat.lt_mul_of_div_lt (Nat.lt_succ_self _) pageSize_pos
    rw [← hlast, Nat.add_mul, Nat.add_mul] at hsize
    have := pageSize_pos
    omega
  · exact Nat.le_refl _

/-- The lengths of all pages add up to the size. -/
theorem sum_pageLengths (size : Nat) : (pageLengths size).foldl (· + ·) 0 = size := by
  have hpos := pageSize_pos
  -- the sum of the first `k` pages, as long as the last one is not among them
  have full (k : Nat) (hk : k < pageCount size) :
      ((List.range k).map fun p =>
        if p + 1 = pageCount size then size - p * pageSize else pageSize).foldl (· + ·) 0
        = k * pageSize := by
    induction k with
    | zero => simp
    | succ k ih =>
      have hne : k + 1 ≠ pageCount size := by omega
      rw [List.range_succ, List.map_append, List.foldl_append, ih (by omega)]
      simp [hne, Nat.add_mul]
  rcases Nat.eq_zero_or_pos (pageCount size) with h | h
  · have hzero : size = 0 := by
      simp only [pageCount, Nat.div_eq_zero_iff] at h
      omega
    subst hzero
    simp [pageLengths, h]
  · -- the full pages, and the last one with what is left
    obtain ⟨k, hk⟩ : ∃ k, pageCount size = k + 1 := ⟨pageCount size - 1, by omega⟩
    have hlast : k * pageSize ≤ size := by
      have := Nat.div_mul_le_self (size + (pageSize - 1)) pageSize
      simp only [pageCount] at hk
      rw [hk, Nat.add_mul] at this
      omega
    have hfull := full k (by omega)
    rw [hk] at hfull
    simp only [pageLengths, hk, List.range_succ, List.map_append, List.foldl_append, hfull]
    simp
    omega

/-- Reading a concatenation of pages, all full but the last, by page and offset. -/
theorem getElem?_flatten_of_lengths {β : Type} (full : Nat) (hfull : 0 < full) (i : Nat)
    (pages : List (List β))
    (hinner : ∀ p, p + 1 < pages.length → pages[p]?.map List.length = some full)
    (hle : ∀ page ∈ pages, page.length ≤ full) :
    pages.flatten[i]? = pages[i / full]?.bind (·[i % full]?) := by
  induction pages generalizing i with
  | nil => simp
  | cons page rest ih =>
    have hpage : page.length ≤ full := hle page (by simp)
    -- an index below the page size is on the first page
    rcases Nat.lt_or_ge i full with hi | hi
    · rw [Nat.div_eq_of_lt hi, Nat.mod_eq_of_lt hi]
      rcases Nat.lt_or_ge i page.length with hip | hip
      · simp [List.getElem?_append_left hip]
      · -- only the last page is short, and nothing follows it
        have hrest : rest = [] := by
          cases rest with
          | nil => rfl
          | cons next rest =>
            have := hinner 0 (by simp)
            simp at this
            omega
        subst hrest
        simp
    · -- any other index is on a later page, one page earlier in the rest
      have hdiv : i / full = (i - full) / full + 1 := by
        rw [Nat.div_eq i full, if_pos ⟨hfull, hi⟩]
      have hmod : i % full = (i - full) % full := Nat.mod_eq_sub_mod hi
      cases rest with
      | nil =>
        simp only [List.flatten_cons, List.flatten_nil, List.append_nil, hdiv]
        simp
        omega
      | cons next rest =>
        have hlen : page.length = full := by
          have := hinner 0 (by simp)
          simpa using this
        rw [List.flatten_cons, List.getElem?_append_right (by omega), hlen,
          ih (i - full) (fun p hp => by simpa using hinner (p + 1) (by simpa using hp))
            (fun page hmem => hle page (by simp [hmem])), hdiv, hmod]
        simp

namespace PagedArray

variable {β : Type} (a : PagedArray β)

/-- There are as many pages as the size asks for. -/
theorem length_pages : a.pages.size = pageCount a.size := by
  have := congrArg List.length a.lengths
  simpa [length_pageLengths] using this

/-- Reading an index reads the flat list. -/
@[simp, grind =] theorem getElem?_toList (i : Nat) : a.toList[i]? = a.get? i := by
  rw [toList, getElem?_flatten_of_lengths pageSize pageSize_pos]
  · simp only [get?, shiftRight_pageShift, and_pageMask, List.getElem?_map, Array.getElem?_toList]
    cases a.pages[i / pageSize]? <;> simp
  · intro p hp
    simp only [List.length_map, Array.length_toList, length_pages] at hp
    have hlen := getElem?_pageLengths_of_lt hp
    rw [← a.lengths, List.getElem?_map] at hlen
    simp only [List.getElem?_map, Array.getElem?_toList] at hlen ⊢
    cases h : a.pages[p]? with
    | none => simp [h] at hlen
    | some page => simpa [h] using hlen
  · intro page hpage
    simp only [List.mem_map] at hpage
    obtain ⟨array, hmem, rfl⟩ := hpage
    refine @le_pageSize_of_mem_pageLengths a.size _ ?_
    rw [← a.lengths, Array.length_toList]
    exact List.mem_map_of_mem hmem

/-- The flat list has `size` cells. -/
@[simp, grind =] theorem length_toList : a.toList.length = a.size := by
  have hsum := sum_pageLengths a.size
  rw [← a.lengths, List.foldl_map] at hsum
  rw [toList, List.length_flatten]
  simpa [List.sum_eq_foldl, List.foldl_map] using hsum

/-- There is no cell past the size. -/
theorem get?_eq_none_iff {i : Nat} : a.get? i = none ↔ a.size ≤ i := by
  rw [← getElem?_toList, List.getElem?_eq_none_iff, length_toList]

/-- There is a cell at every index below the size. -/
theorem isSome_get? {i : Nat} : (a.get? i).isSome = true ↔ i < a.size := by
  rw [Option.isSome_iff_ne_none, ne_eq, get?_eq_none_iff, Nat.not_le]

/-- An index is its page and its offset. -/
theorem eq_of_page_of_offset {i j : Nat} (hpage : i >>> pageShift = j >>> pageShift)
    (hoffset : i &&& pageMask = j &&& pageMask) : i = j := by
  rw [shiftRight_pageShift, shiftRight_pageShift] at hpage
  rw [and_pageMask, and_pageMask] at hoffset
  rw [← Nat.div_add_mod i pageSize, ← Nat.div_add_mod j pageSize, hpage, hoffset]

/-- Applying a function to a cell changes this cell only. -/
theorem get?_modify (i j : Nat) (f : β → β) :
    (a.modify i f).get? j = if i = j then (a.get? j).map f else a.get? j := by
  simp only [get?, modify, Array.getElem?_modify]
  -- the cells of other pages are left alone, and the other cells of the page
  by_cases hpage : i >>> pageShift = j >>> pageShift
  · simp only [hpage, if_true]
    cases a.pages[j >>> pageShift]? with
    | none => simp
    | some page =>
      simp only [Option.map_some, Array.getElem?_modify]
      by_cases hoffset : i &&& pageMask = j &&& pageMask
      · simp [eq_of_page_of_offset hpage hoffset]
      · have hne : i ≠ j := fun h => hoffset (by rw [h])
        simp [hoffset, hne]
  · have hne : i ≠ j := fun h => hpage (by rw [h])
    simp [hpage, hne]

/-- Storing in a cell forgets what was there. -/
theorem set_eq_modify (i : Nat) (b : β) : a.set i b = a.modify i fun _ => b := rfl

@[simp] theorem size_replicate (n : Nat) (b : β) : (replicate n b).size = n := rfl

@[simp] theorem size_modify (i : Nat) (f : β → β) : (a.modify i f).size = a.size := rfl

@[simp] theorem size_set (i : Nat) (b : β) : (a.set i b).size = a.size := rfl

@[simp] theorem size_fill (b : β) : (a.fill b).size = a.size := rfl

/-- Applying a function to a cell applies it in the flat list. -/
@[simp, grind =] theorem toList_modify (i : Nat) (f : β → β) :
    (a.modify i f).toList = a.toList.modify i f := by
  apply List.ext_getElem?
  intro j
  rw [getElem?_toList, get?_modify, List.getElem?_modify, getElem?_toList]
  split <;> simp

/-- Storing in a cell stores in the flat list. -/
@[simp, grind =] theorem toList_set (i : Nat) (b : β) : (a.set i b).toList = a.toList.set i b := by
  rw [set_eq_modify, toList_modify]
  apply List.ext_getElem?
  intro j
  rw [List.getElem?_modify, List.getElem?_set]
  by_cases h : i = j
  · subst h
    by_cases hi : i < a.toList.length <;> simp_all
  · simp [h]

/-- Filling replaces every element of the flat list. -/
@[simp, grind =] theorem toList_fill (b : β) : (a.fill b).toList = List.replicate a.size b := by
  apply List.eq_replicate_iff.2
  constructor
  · simp
  · intro c hc
    simp only [toList, fill, List.mem_flatten, List.mem_map, Array.toList_map] at hc
    -- every page is filled
    obtain ⟨cells, ⟨page, ⟨old, -, rfl⟩, rfl⟩, hc⟩ := hc
    rw [Array.toList_map, List.mem_map] at hc
    obtain ⟨_, -, rfl⟩ := hc
    rfl

/-- A new array holds the same element everywhere. -/
@[simp, grind =] theorem toList_replicate (n : Nat) (b : β) :
    (replicate n b).toList = List.replicate n b := by
  apply List.eq_replicate_iff.2
  constructor
  · simp
  · intro c hc
    simp only [toList, replicate, List.mem_flatten, List.mem_map] at hc
    -- every page holds the element in all of its cells
    obtain ⟨cells, ⟨page, ⟨length, -, rfl⟩, rfl⟩, hc⟩ := hc
    rw [Array.toList_replicate] at hc
    exact List.eq_of_mem_replicate hc

/-- Storing in a cell changes this cell only, and nothing past the size. -/
theorem get?_set (i j : Nat) (b : β) :
    (a.set i b).get? j = if i = j ∧ j < a.size then some b else a.get? j := by
  rw [set_eq_modify, get?_modify]
  by_cases h : i = j
  · by_cases hj : j < a.size
    · obtain ⟨c, hc⟩ := Option.isSome_iff_exists.1 ((isSome_get? a).2 hj)
      simp [h, hj, hc]
    · simp [h, hj, (get?_eq_none_iff a).2 (Nat.le_of_not_lt hj)]
  · simp [h]

/-- After filling every cell holds the element. -/
theorem get?_fill (i : Nat) (b : β) :
    (a.fill b).get? i = if i < a.size then some b else none := by
  rw [← getElem?_toList, toList_fill, List.getElem?_replicate]

/-- A new array holds the element in every cell. -/
theorem get?_replicate (n i : Nat) (b : β) :
    (replicate n b).get? i = if i < n then some b else none := by
  rw [← getElem?_toList, toList_replicate, List.getElem?_replicate]

end PagedArray

end Superstep
