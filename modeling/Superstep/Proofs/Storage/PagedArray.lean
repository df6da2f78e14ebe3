import Mathlib
import Superstep.Storage.PagedArray.Lemmas

/-!
# Paged arrays by their cells

What a paged array answers about all its cells, and that nothing but its cells distinguishes it from
another one of the same size.
-/

namespace Superstep

namespace PagedArray

variable {β : Type}

/-- The search page by page is a search in the flat list. -/
theorem any_eq_any_toList (a : PagedArray β) (p : β → Bool) : a.any p = a.toList.any p := by
  rw [any, toList, List.any_flatten, List.any_map, ← Array.any_toList]
  congr 1
  funext page
  rw [Function.comp_apply, Array.any_toList]

theorem any_iff (a : PagedArray β) (p : β → Bool) :
    a.any p = true ↔ ∃ i b, a.get? i = some b ∧ p b = true := by
  rw [any_eq_any_toList, List.any_eq_true]
  constructor
  · rintro ⟨b, hmem, hb⟩
    obtain ⟨i, hi⟩ := List.mem_iff_getElem?.mp hmem
    exact ⟨i, b, by rw [← getElem?_toList, hi], hb⟩
  · rintro ⟨i, b, hget, hb⟩
    rw [← getElem?_toList] at hget
    exact ⟨b, List.mem_of_getElem? hget, hb⟩

/-- A paged array is known by its size and its cells. -/
theorem ext_get? {a b : PagedArray β} (hsize : a.size = b.size)
    (h : ∀ i, a.get? i = b.get? i) : a = b := by
  have hcells : a.toList = b.toList := by
    apply List.ext_getElem?
    intro i
    rw [getElem?_toList, getElem?_toList, h i]
  have hlengths : a.pages.toList.map Array.size = b.pages.toList.map Array.size := by
    rw [a.lengths, b.lengths, hsize]
  -- equal concatenations of pages of equal lengths are made of equal pages
  have hpages : a.pages = b.pages := by
    apply Array.toList_inj.mp
    apply (List.map_inj_right fun _ _ => Array.toList_inj.mp).mp
    apply List.eq_iff_flatten_eq.mpr
    refine ⟨hcells, ?_⟩
    simpa [Function.comp_def] using hlengths
  cases a
  cases b
  cases hsize
  cases hpages
  rfl

end PagedArray

end Superstep
