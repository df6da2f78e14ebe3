import Superstep.Violation

/-!
# Paged arrays

A paged array is a sequence of fixed length cut into pages of `pageSize` cells, of which only the
last may be shorter. Cell `i` lies on page `i >>> pageShift` at offset `i &&& pageMask`. The view of
a paged array is the flat list `toList` of its cells.

Reading and writing come in two forms. `get?`, `set` and `modify` are total: past the end there is
nothing to read, and writing there changes nothing. `read` and `access` answer a caller: they
reject an index past the end with `Violation.index` and then leave the array as it was.
-/

namespace Superstep

/-- Number of index bits that address a cell within its page. -/
def pageShift : Nat := 14

/-- Number of cells of a full page. -/
def pageSize : Nat := 1 <<< pageShift

/-- The index bits that address a cell within its page. -/
def pageMask : Nat := pageSize - 1

/-- Number of pages of an array of `size` cells. -/
def pageCount (size : Nat) : Nat := (size + (pageSize - 1)) / pageSize

/-- Lengths of the pages of an array of `size` cells: all full but the last. -/
def pageLengths (size : Nat) : List Nat :=
  (List.range (pageCount size)).map fun p =>
    if p + 1 = pageCount size then size - p * pageSize else pageSize

/-- A sequence of fixed length, stored in pages. -/
structure PagedArray (β : Type) where
  /-- Number of cells. -/
  size : Nat
  /-- The cells, page by page. -/
  pages : Array (Array β)
  /-- Every page has the length that the number of cells asks for. -/
  lengths : pages.toList.map Array.size = pageLengths size
  deriving Repr

namespace PagedArray

variable {β γ : Type}

theorem map_size_modify (pages : Array (Array β)) (p : Nat) (f : Array β → Array β)
    (hf : ∀ page, (f page).size = page.size) :
    (pages.modify p f).toList.map Array.size = pages.toList.map Array.size := by
  apply List.ext_getElem
  · simp
  · intro i h₁ h₂
    simp only [List.getElem_map, Array.getElem_toList, Array.getElem_modify]
    split
    · exact hf _
    · rfl

/-- The array of `size` cells that all hold `b`. -/
def replicate (size : Nat) (b : β) : PagedArray β where
  size := size
  pages := ((pageLengths size).map fun length => Array.replicate length b).toArray
  lengths := by simp [Function.comp_def]

/-- The cells in index order. -/
def toList (a : PagedArray β) : List β := (a.pages.toList.map Array.toList).flatten

/-- The cell at `index`, if there is one. -/
@[inline] def get? (a : PagedArray β) (index : Nat) : Option β :=
  match a.pages[index >>> pageShift]? with
  | some page => page[index &&& pageMask]?
  | none => none

/-- Applies `f` to the cell at `index`. -/
@[inline] def modify (a : PagedArray β) (index : Nat) (f : β → β) : PagedArray β where
  size := a.size
  pages := a.pages.modify (index >>> pageShift) fun page => page.modify (index &&& pageMask) f
  lengths := (map_size_modify _ _ _ fun _ => Array.size_modify).trans a.lengths

/-- Stores `b` at `index`. -/
@[inline] def set (a : PagedArray β) (index : Nat) (b : β) : PagedArray β where
  size := a.size
  pages := a.pages.modify (index >>> pageShift) fun page =>
    page.setIfInBounds (index &&& pageMask) b
  lengths := (map_size_modify _ _ _ fun _ => Array.size_setIfInBounds).trans a.lengths

/-- Stores `b` in every cell. -/
def fill (a : PagedArray β) (b : β) : PagedArray β where
  size := a.size
  pages := a.pages.map fun page => page.map fun _ => b
  lengths := by simpa [Function.comp_def] using a.lengths

/-- Whether some cell has a property. -/
def any (a : PagedArray β) (p : β → Bool) : Bool := a.pages.any fun page => page.any p

/-- The cell at `index`. -/
def read (a : PagedArray β) (index : Nat) : Except Violation β :=
  match a.get? index with
  | some b => .ok b
  | none => .error (.index index a.size)

/-- Rejects an index that no cell has. -/
def check (a : PagedArray β) (index : Nat) : Except Violation Unit :=
  if index < a.size then .ok () else .error (.index index a.size)

/-- Replaces the cell at `index` by the second part of what `f` makes of it, and answers the
first. -/
def access (a : PagedArray β) (index : Nat) (f : β → γ × β) :
    Except Violation γ × PagedArray β :=
  match a.get? index with
  | some b => (.ok (f b).1, a.set index (f b).2)
  | none => (.error (.index index a.size), a)

end PagedArray

/-- An array of 64-bit integers. -/
abbrev LongArray := PagedArray Int64

/-- An array of scalars. -/
abbrev ScalarArray (α : Type) := PagedArray α

/-- An array whose cells are empty until a value is stored. -/
abbrev ObjectArray (β : Type) := PagedArray (Option β)

namespace LongArray

/-- A request to an array of 64-bit integers. -/
inductive Request where
  | size
  | get (index : Nat)
  | set (index : Nat) (value : Int64)
  /-- Stores a value and answers the previous one. -/
  | swap (index : Nat) (value : Int64)
  /-- Stores `replacement` if the cell holds `expected`. -/
  | compareExchange (index : Nat) (expected replacement : Int64)
  /-- Adds to the cell, wrapping around the 64-bit range, and answers the previous value. -/
  | add (index : Nat) (delta : Int64)
  | fill (value : Int64)
  deriving Repr, DecidableEq

/-- The answer to a request. -/
inductive Answer where
  | done
  | size (n : Nat)
  | value (v : Int64)
  /-- The cell held the expected value, which was replaced. -/
  | exchanged (previous : Int64)
  /-- The cell held another value and was left alone. -/
  | mismatch (actual : Int64)
  deriving Repr, DecidableEq

/-- Answers one request. -/
def perform (a : LongArray) : Request → Except Violation Answer × LongArray
  | .size => (.ok (.size a.size), a)
  | .get i => ((a.read i).map .value, a)
  | .set i v => a.access i fun _ => (.done, v)
  | .swap i v => a.access i fun b => (.value b, v)
  | .compareExchange i expected v =>
    a.access i fun b => if b = expected then (.exchanged b, v) else (.mismatch b, b)
  | .add i d => a.access i fun b => (.value b, b + d)
  | .fill v => (.ok .done, a.fill v)

end LongArray

namespace ScalarArray

variable {α : Type}

/-- A request to an array of scalars. -/
inductive Request (α : Type) where
  | size
  | get (index : Nat)
  | set (index : Nat) (value : α)
  /-- Replaces a cell by what `f` makes of it, and answers the previous value. -/
  | update (index : Nat) (f : α → α)
  | fill (value : α)

/-- The answer to a request. -/
inductive Answer (α : Type) where
  | done
  | size (n : Nat)
  | value (v : α)

/-- Answers one request. -/
def perform (a : ScalarArray α) : Request α → Except Violation (Answer α) × ScalarArray α
  | .size => (.ok (.size a.size), a)
  | .get i => ((a.read i).map .value, a)
  | .set i v => a.access i fun _ => (.done, v)
  | .update i f => a.access i fun b => (.value b, f b)
  | .fill v => (.ok .done, a.fill v)

end ScalarArray

namespace ObjectArray

variable {β : Type}

/-- The array of `size` empty cells. -/
def empty (size : Nat) : ObjectArray β := PagedArray.replicate size none

/-- Indices of the cells that hold a value, ascending. -/
def stored (a : ObjectArray β) : List Nat :=
  (List.range a.size).filter fun i => ((a.get? i).bind id).isSome

/-- A request to an array of objects. -/
inductive Request (β : Type) where
  | size
  | get (index : Nat)
  | set (index : Nat) (value : β)

/-- The answer to a request. -/
inductive Answer (β : Type) where
  | done
  | size (n : Nat)
  | value (v : Option β)

/-- Answers one request. -/
def perform (a : ObjectArray β) : Request β → Except Violation (Answer β) × ObjectArray β
  | .size => (.ok (.size a.size), a)
  | .get i => ((a.read i).map .value, a)
  | .set i v => a.access i fun _ => (.done, some v)

end ObjectArray

end Superstep
