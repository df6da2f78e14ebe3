/-!
# Arenas of message cells

An arena stores message cells under ascending indices. It is paged like a book with an index: cell
`i` lies on page `i >>> shift`, pages are listed in directories of `directorySize`, and a root lists
the directories. Directories and pages are installed when a cell on them is first written, so an
arena pays for its root and for what it uses.

Cells are never given back one by one. `clear` forgets all of them at once and keeps the pages, so a
page may hold cells from before: only cells below `cursor` count.

A root lists `rootSize` directories, so an arena has room for `capacity` cells. This limit is not
modelled: `push` does not look at it, an arena is taken to be cleared before it is full, and that a
message beyond the capacity is a violation is left out.
-/

namespace Superstep

/-- A message and the link to the message queued before it, if any. -/
structure MessageCell (α : Type) where
  value : α
  next : Option Nat
  deriving Repr

/-- Where a cell lies: its directory, its page within the directory, its place on the page. -/
structure CellAddress where
  directory : Nat
  slot : Nat
  offset : Nat
  deriving Repr, DecidableEq

/-- Storage for message cells. -/
structure Arena (α : Type) where
  /-- Number of cells in use, and the index of the next one. -/
  cursor : Nat
  /-- Number of index bits that address a cell within its page. -/
  shift : Nat
  /-- The installed directories, each with its installed pages. -/
  directories : Array (Array (Array (MessageCell α)))

namespace Arena

variable {α : Type}

/-- Number of page-index bits that address a page within its directory. -/
def directoryShift : Nat := 12

/-- Number of pages that a directory has room for. -/
def directorySize : Nat := 1 <<< directoryShift

/-- Number of directories that the root has room for. -/
def rootSize : Nat := 1 <<< 14

/-- The page size of arenas that messengers use, as a number of index bits. -/
def defaultShift : Nat := 16

/-- The arena without cells. -/
def empty (shift : Nat) : Arena α := ⟨0, shift, #[]⟩

/-- Number of cells of a page. -/
def pageSize (a : Arena α) : Nat := 1 <<< a.shift

/-- Number of cells that the root can address, `2 ^ 42` with the default page size. No cell has a
place beyond it. -/
def capacity (a : Arena α) : Nat := rootSize * directorySize * a.pageSize

/-- Where the cell with this index lies. -/
@[inline] def address (shift index : Nat) : CellAddress :=
  -- from the top: directory, page within the directory, cell within the page
  let page := index >>> shift
  ⟨page >>> directoryShift, page &&& (directorySize - 1), index &&& ((1 <<< shift) - 1)⟩

/-- The cell at an index, if its page is installed. -/
def get? (a : Arena α) (index : Nat) : Option (MessageCell α) :=
  let at_ := address a.shift index
  match a.directories[at_.directory]? with
  | none => none
  | some pages =>
    match pages[at_.slot]? with
    | none => none
    | some page => page[at_.offset]?

/-- Installs the directory and the page of an address. A new page is filled with `filler`. -/
def install (a : Arena α) (at_ : CellAddress) (filler : MessageCell α) : Arena α :=
  -- cells are written in ascending order, so what is missing comes right after what is installed
  let directories :=
    if at_.directory < a.directories.size then a.directories else a.directories.push #[]
  ⟨a.cursor, a.shift, directories.modify at_.directory fun pages =>
    if at_.slot < pages.size then pages else pages.push (.replicate (1 <<< a.shift) filler)⟩

/-- Writes a cell on an installed page. -/
def write (a : Arena α) (at_ : CellAddress) (c : MessageCell α) : Arena α :=
  ⟨a.cursor, a.shift, a.directories.modify at_.directory fun pages =>
    pages.modify at_.slot fun page => page.setIfInBounds at_.offset c⟩

/-- Puts a cell at the cursor, which is taken to be within the capacity, and moves the cursor on. -/
def push (a : Arena α) (c : MessageCell α) : Arena α :=
  let at_ := address a.shift a.cursor
  let a := (a.install at_ c).write at_ c
  ⟨a.cursor + 1, a.shift, a.directories⟩

/-- Forgets every cell and keeps the pages. -/
def clear (a : Arena α) : Arena α := ⟨0, a.shift, a.directories⟩

/-- The messages that are linked from `next`, put in front of `later` in reverse. At most `fuel`
links are followed. -/
def collect (a : Arena α) : (fuel : Nat) → (next : Option Nat) → (later : List α) → List α
  | 0, _, later => later
  | _ + 1, none, later => later
  | fuel + 1, some i, later =>
    match a.get? i with
    | some c => collect a fuel c.next (c.value :: later)
    | none => later

/-- The messages that are linked from `next`, in link order. A link always leads to an older cell,
so there are at most as many as cells in use. -/
def chain (a : Arena α) (next : Option Nat) : List α := (a.collect a.cursor next []).reverse

/-- Bytes of a pointer. -/
def pointerBytes : Nat := 8

/-- Bytes of a message cell. -/
def cellBytes : Nat := 16

/-- Bytes of the root. -/
def rootBytes : Nat := rootSize * pointerBytes

/-- Bytes held: the root, and the installed directories and pages. -/
def allocatedBytes (a : Arena α) : Nat :=
  let directoryBytes := directorySize * pointerBytes
  let pageBytes := a.pageSize * cellBytes
  a.directories.foldl (fun bytes pages => bytes + (directoryBytes + pages.size * pageBytes))
    rootBytes

end Arena

end Superstep
