import Mathlib
import Superstep.Footprint
import Superstep.Proofs.Message.Queues

/-!
# Pages follow the largest number of cells

Clearing an arena keeps its pages, so that what it holds depends on the most cells that it ever had
in use, its peak, and on nothing else. A push that stays below the peak finds its page installed,
and one that goes past it installs at most one page. `Arena.Paged` says that exactly the pages for
the peak are there, and `Queues.Charged` says what each operation on queues does to cells and peak.

## Key results

- `Arena.Installed.allocatedBytes_eq`: the bytes of an arena are told by the number of its pages
- `Arena.Paged.push`, `Paged.clear`: the pages are those for the peak
- `Queues.Charged.push`, `Charged.clear`, `Charged.receiveAll`: what operations on queues cost
-/

namespace Superstep

namespace Arena

variable {α : Type} {a b : Arena α} {p peak : Nat}

/-! ## Bytes -/

/-- The pages of the first `k` directories, all of which but the last are full. -/
theorem sum_min_pages (p k : Nat) :
    ((List.range k).map fun d => min 4096 (p - d * 4096)).sum = min p (k * 4096) := by
  -- directory `k` has what the ones before it leave, or is full
  induction k with
  | zero => simp
  | succ k ih =>
    rw [List.range_succ, List.map_append, List.sum_append, ih, List.map_singleton,
      List.sum_singleton]
    omega

/-- The directories have the installed pages, and no others. -/
theorem Installed.sum_pages (h : a.Installed p) :
    (a.directories.toList.map Array.size).sum = p := by
  -- the sizes of the directories are those that the number of pages asks for
  have hsizes : a.directories.toList.map Array.size
      = (List.range ((p + 4095) / 4096)).map fun d => min 4096 (p - d * 4096) := by
    refine List.ext_getElem (by simp [h.directories]) fun d hd hd' => ?_
    have hlt : d < a.directories.size := by simpa using hd
    simpa using h.slots d _ (Array.getElem?_eq_getElem hlt)
  rw [hsizes, sum_min_pages]
  omega

/-- Each directory counts with its slots and its pages. -/
theorem foldl_directoryBytes (pageBytes start : Nat)
    (directories : List (Array (Array (MessageCell α)))) :
    directories.foldl (fun bytes pages => bytes + (32768 + pages.size * pageBytes)) start
      = start + (32768 * directories.length + (directories.map Array.size).sum * pageBytes) := by
  induction directories generalizing start with
  | nil => simp
  | cons pages directories ih =>
    rw [List.foldl_cons, ih, List.length_cons, List.map_cons, List.sum_cons, Nat.add_mul]
    omega

/-- An arena holds its root, the directories of its pages and the pages. -/
theorem Installed.allocatedBytes_eq (h : a.Installed p) : a.allocatedBytes
    = rootBytes + (32768 * ((p + 4095) / 4096) + p * (2 ^ a.shift * cellBytes)) := by
  have hpage : a.pageSize * cellBytes = 2 ^ a.shift * cellBytes := by
    rw [pageSize, Nat.shiftLeft_eq, Nat.one_mul]
  have hfold := foldl_directoryBytes (a.pageSize * cellBytes) rootBytes a.directories.toList
  rw [h.sum_pages, Array.length_toList, h.directories, hpage] at hfold
  rw [allocatedBytes, ← Array.foldl_toList, hpage]
  exact hfold

/-! ## The peak -/

/-- Number of pages that so many cells lie on. -/
def pagesFor (shift cells : Nat) : Nat := (cells + (2 ^ shift - 1)) / 2 ^ shift

/-- The cell after so many cells lies on the page of its index. -/
theorem pagesFor_succ (shift cells : Nat) :
    pagesFor shift (cells + 1) = cells / 2 ^ shift + 1 := by
  have hpos : 0 < 2 ^ shift := Nat.two_pow_pos shift
  have hsum : cells + 1 + (2 ^ shift - 1) = cells + 2 ^ shift := by omega
  rw [pagesFor, hsum, Nat.add_div_right _ hpos]

/-- More cells lie on no fewer pages. -/
theorem pagesFor_mono {shift i j : Nat} (hij : i ≤ j) : pagesFor shift i ≤ pagesFor shift j :=
  Nat.div_le_div_right (Nat.add_le_add_right hij _)

/-- Which pages are installed is a matter of the directories alone. -/
theorem Installed.congr (h : a.Installed p) (hshift : b.shift = a.shift)
    (hdirectories : b.directories = a.directories) : b.Installed p where
  directories := hdirectories ▸ h.directories
  slots := hdirectories ▸ h.slots
  cells := by
    rw [hdirectories, hshift]
    exact h.cells

/-- The pages for the peak are installed, and no others. -/
structure Paged (peak : Nat) (a : Arena α) : Prop where
  cursor_le : a.cursor ≤ peak
  installed : a.Installed (pagesFor a.shift peak)

/-- An arena without cells has no pages. -/
theorem paged_empty (shift : Nat) : (empty shift : Arena α).Paged 0 where
  cursor_le := Nat.le_refl 0
  installed := by
    have hzero : pagesFor shift 0 = 0 := by
      have hpos : 0 < 2 ^ shift := Nat.two_pow_pos shift
      rw [pagesFor, Nat.div_eq_of_lt (by omega)]
    rw [show (empty shift : Arena α).shift = shift from rfl, hzero]
    exact installed_empty shift

/-- The cell at the cursor is on an installed page or on the next one. -/
theorem Paged.installed_install (h : a.Paged peak) (c : MessageCell α) :
    (a.install (address a.shift a.cursor) c).Installed
      (pagesFor a.shift (max peak (a.cursor + 1))) := by
  have hpage := pagesFor_succ a.shift a.cursor
  rcases Nat.lt_or_eq_of_le h.cursor_le with hlt | heq
  · -- so many cells were in use before
    rw [max_eq_left hlt]
    -- the page of the cursor is among those for the peak
    have hthere : a.cursor / 2 ^ a.shift < pagesFor a.shift peak := by
      have hle : pagesFor a.shift (a.cursor + 1) ≤ pagesFor a.shift peak := pagesFor_mono hlt
      omega
    rw [h.installed.install_of_lt hthere c]
    exact h.installed
  · rw [max_eq_right (by omega), hpage]
    have hinstalled := h.installed
    rw [← heq] at hinstalled
    have hle : a.cursor / 2 ^ a.shift ≤ pagesFor a.shift a.cursor :=
      Nat.div_le_div_right (Nat.le_add_right ..)
    have hge : pagesFor a.shift a.cursor ≤ pagesFor a.shift (a.cursor + 1) :=
      pagesFor_mono (Nat.le_add_right _ 1)
    -- the page that the cursor has come to was begun, or is the next one
    rcases Nat.lt_or_eq_of_le hle with hbegun | hnext
    · rw [hinstalled.install_of_lt hbegun c]
      rwa [show a.cursor / 2 ^ a.shift + 1 = pagesFor a.shift a.cursor by omega]
    · rw [hnext]
      exact (hinstalled.install_next hnext c).1

/-- A push leaves the pages for the new peak. -/
theorem Paged.push (h : a.Paged peak) (c : MessageCell α) :
    (a.push c).Paged (max peak (a.cursor + 1)) where
  cursor_le := Nat.le_max_right _ _
  installed := ((h.installed_install c).write (address a.shift a.cursor) c).congr rfl
    (directories_push a c)

/-- Clearing an arena keeps its pages, and its peak. -/
theorem Paged.clear (h : a.Paged peak) : a.clear.Paged peak where
  cursor_le := Nat.zero_le _
  installed := h.installed.congr rfl rfl

end Arena

namespace Queues

variable {α : Type} {q : Queues α} {used peak : Nat}

/-- So many cells are in use and were at most, in an arena with pages of the size that messengers
use. -/
structure Charged (used peak : Nat) (q : Queues α) : Prop where
  shift : q.arena.shift = Arena.defaultShift
  cursor : q.arena.cursor = used
  paged : q.arena.Paged peak

/-- New queues use no cells. -/
theorem charged_empty (n : Nat) : (empty n : Queues α).Charged 0 0 :=
  ⟨rfl, rfl, Arena.paged_empty _⟩

/-- No more cells are in use than were at most. -/
theorem Charged.used_le (h : q.Charged used peak) : used ≤ peak := h.cursor ▸ h.paged.cursor_le

/-- A message uses one more cell, which may be a new peak. -/
theorem Charged.push (h : q.Charged used peak) {t : Nat} (ht : t < q.nodeCount) (x : α) :
    (q.push t x).Charged (used + 1) (max peak (used + 1)) := by
  obtain ⟨hshift, rfl, hpaged⟩ := h
  constructor <;> rw [arena_push q ht]
  · exact hshift
  · rfl
  · exact hpaged.push _

/-- What is charged is a matter of the arena alone. -/
theorem Charged.of_arena {q' : Queues α} (h : q.Charged used peak) (harena : q'.arena = q.arena) :
    q'.Charged used peak := by
  constructor <;> rw [harena]
  · exact h.shift
  · exact h.cursor
  · exact h.paged

/-- Taking a queue gives no cell back. -/
theorem Charged.take (h : q.Charged used peak) (v : Nat) : (q.take v).Charged used peak :=
  h.of_arena (arena_take q v)

/-- Detaching every queue gives no cell back. -/
theorem Charged.takeAll (h : q.Charged used peak) : q.takeAll.Charged used peak := by
  refine h.of_arena ?_
  unfold Queues.takeAll
  split <;> rfl

/-- Clearing gives every cell back and keeps the peak. -/
theorem Charged.clear (h : q.Charged used peak) : q.clear.Charged 0 peak := by
  unfold Queues.clear
  split
  · rename_i hempty
    -- the shortcut: no cell was in use
    have hcursor : q.arena.cursor = 0 := by simpa [isEmpty] using hempty
    exact ⟨h.shift, hcursor, h.paged⟩
  · exact ⟨h.shift, rfl, h.paged.clear⟩

/-- Messages that are queued one after the other use a cell each. -/
theorem Charged.pushes (h : q.Charged used peak) {t : Nat} (ht : t < q.nodeCount) (xs : List α) :
    (xs.foldl (fun q x => q.push t x) q).Charged (used + xs.length)
      (max peak (used + xs.length)) := by
  -- each message may push the peak up, and the last one up to the sum
  induction xs generalizing q used peak with
  | nil =>
    rw [List.length_nil, Nat.add_zero, max_eq_left h.used_le]
    exact h
  | cons x xs ih =>
    have hrest := ih (h.push ht x) (by rwa [nodeCount_push])
    rwa [max_assoc, max_eq_right (by omega : used + 1 ≤ used + 1 + xs.length),
      show used + 1 + xs.length = used + (x :: xs).length by rw [List.length_cons]; omega] at hrest

/-- Pushing messages keeps the number of vertices. -/
theorem nodeCount_pushes (q : Queues α) (t : Nat) (xs : List α) :
    (xs.foldl (fun q x => q.push t x) q).nodeCount = q.nodeCount := by
  induction xs generalizing q with
  | nil => rfl
  | cons x xs ih => rw [List.foldl_cons, ih, nodeCount_push]

/-- Number of messages that wait for the vertices below `k`. -/
def waitingBelow (q : Queues α) (k : Nat) : Nat :=
  ((List.range k).map fun v => (q.inbox v).length).sum

/-- Each message that arrives uses a cell. -/
theorem Charged.receiveAll {source : Queues α} (h : q.Charged used peak) (hsource : source.Valid)
    (hcount : q.nodeCount = source.nodeCount) :
    (q.receiveAll source).Charged (used + source.waitingBelow source.nodeCount)
      (max peak (used + source.waitingBelow source.nodeCount)) := by
  -- vertex by vertex, as many cells are used as messages wait
  have hreceived (k : Nat) (hk : k ≤ source.nodeCount) :
      let received := (List.range k).foldl
        (fun t node => (source.inbox node).foldl (fun t value => t.push node value) t) q
      received.Charged (used + source.waitingBelow k) (max peak (used + source.waitingBelow k)) ∧
        received.nodeCount = q.nodeCount := by
    induction k with
    | zero =>
      refine ⟨?_, rfl⟩
      rw [waitingBelow, List.range_zero, List.map_nil, List.sum_nil, Nat.add_zero,
        max_eq_left h.used_le]
      exact h
    | succ k ih =>
      obtain ⟨hcharged, hnodes⟩ := ih (by omega)
      have hnext := hcharged.pushes (t := k) (by rw [hnodes]; omega) (source.inbox k)
      have hsum : source.waitingBelow (k + 1)
          = source.waitingBelow k + (source.inbox k).length := by
        simp [waitingBelow, List.range_succ]
      rw [max_assoc, max_eq_right (Nat.le_add_right _ _), Nat.add_assoc, ← hsum] at hnext
      simp only [List.range_succ, List.foldl_append, List.foldl_cons, List.foldl_nil]
      exact ⟨hnext, (nodeCount_pushes _ _ _).trans hnodes⟩
  unfold Queues.receiveAll
  split
  · rename_i hempty
    -- nothing waits, so nothing arrives
    have hnone : source.waitingBelow source.nodeCount = 0 := by
      simp [waitingBelow, inbox_of_isEmpty hsource hempty]
    rw [hnone, Nat.add_zero, max_eq_left h.used_le]
    exact h
  · exact (hreceived source.nodeCount (Nat.le_refl _)).1

/-- Bytes of the pages of so many cells, and of the directories of these pages. -/
def pageBytes (cells : Nat) : Nat :=
  let pages := (cells + 65535) / 65536
  1048576 * pages + 32768 * ((pages + 4095) / 4096)

/-- More cells take no fewer bytes. -/
theorem pageBytes_mono {i j : Nat} (hij : i ≤ j) : pageBytes i ≤ pageBytes j := by
  simp only [pageBytes]
  omega

/-- What queues hold beyond their estimate are the pages for the peak. -/
theorem Charged.allocatedBytes_eq (h : q.Charged used peak) :
    Footprint.longs q.nodeCount + q.arena.allocatedBytes
      = Footprint.queues q.nodeCount + pageBytes peak := by
  have hbytes := h.paged.installed.allocatedBytes_eq
  rw [h.shift] at hbytes
  have hpages : Arena.pagesFor Arena.defaultShift peak = (peak + 65535) / 65536 := rfl
  have hpage : 2 ^ Arena.defaultShift * Arena.cellBytes = 1048576 := rfl
  rw [hpages, hpage] at hbytes
  rw [hbytes, Footprint.queues, pageBytes]
  omega

end Queues

end Superstep
