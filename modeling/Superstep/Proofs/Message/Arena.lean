import Mathlib
import Superstep.Message.Arena

/-!
# Arenas hold what was put in them

An arena addresses its cells by directory, page and offset. No two indices share an address, pages
are installed in order, and every link leads to an older cell. From these three facts the list that
starts at a cell can be read off cell by cell, whatever the bound on the number of links.

## Key results

- `Arena.eq_of_address_eq`: two indices never share an address
- `Arena.get?_push_self` / `Arena.get?_push_of_lt`: a push writes its own cell and no older one
- `Arena.chain_some`: the messages linked from a cell, one step at a time
- `Arena.chain_congr`: a list only depends on the cells it runs through
-/

namespace Superstep

namespace Arena

variable {α : Type}

/-! ## Addresses -/

/-- A directory holds the pages of a block of 4096. -/
theorem directory_address (shift i : Nat) :
    (address shift i).directory = i / 2 ^ shift / 4096 := by
  simp only [address, directoryShift, Nat.shiftRight_eq_div_pow]

/-- The slot of a page is its number within the directory. -/
theorem slot_address (shift i : Nat) : (address shift i).slot = i / 2 ^ shift % 4096 := by
  simp only [address, directorySize, directoryShift, Nat.shiftRight_eq_div_pow]
  -- the mask takes the last twelve bits
  exact Nat.and_two_pow_sub_one_eq_mod _ 12

/-- The offset of a cell is its number within the page. -/
theorem offset_address (shift i : Nat) : (address shift i).offset = i % 2 ^ shift := by
  simp only [address, Nat.shiftLeft_eq, Nat.one_mul]
  exact Nat.and_two_pow_sub_one_eq_mod i shift

/-- A page number is its directory and its slot. -/
private theorem eq_of_directory_of_slot {p q : Nat} (hdirectory : p / 4096 = q / 4096)
    (hslot : p % 4096 = q % 4096) : p = q := by
  omega

/-- Two indices never share an address. -/
theorem eq_of_address_eq {shift i j : Nat}
    (hdirectory : (address shift i).directory = (address shift j).directory)
    (hslot : (address shift i).slot = (address shift j).slot)
    (hoffset : (address shift i).offset = (address shift j).offset) : i = j := by
  rw [directory_address, directory_address] at hdirectory
  rw [slot_address, slot_address] at hslot
  rw [offset_address, offset_address] at hoffset
  -- the page is the same, then the offset tells the cells apart
  have hpage := eq_of_directory_of_slot hdirectory hslot
  rw [← Nat.div_add_mod i (2 ^ shift), ← Nat.div_add_mod j (2 ^ shift), hpage, hoffset]

/-! ## Installed pages -/

/-- The first `p` pages are installed and no further one: every directory but the last is full. -/
structure Installed (a : Arena α) (p : Nat) : Prop where
  directories : a.directories.size = (p + 4095) / 4096
  slots : ∀ (d : Nat) (pages : Array (Array (MessageCell α))),
    a.directories[d]? = some pages → pages.size = min 4096 (p - d * 4096)
  cells : ∀ (d : Nat) (pages : Array (Array (MessageCell α))),
    a.directories[d]? = some pages → ∀ page ∈ pages, page.size = 2 ^ a.shift

/-- A new arena has no page. -/
theorem installed_empty (shift : Nat) : (empty shift : Arena α).Installed 0 where
  directories := rfl
  slots := by simp [empty]
  cells := by simp [empty]

/-- An installed page and its directory. -/
theorem Installed.exists_page {a : Arena α} {p : Nat} (h : a.Installed p) {q : Nat} (hq : q < p) :
    ∃ pages page, a.directories[q / 4096]? = some pages ∧ pages[q % 4096]? = some page ∧
      page.size = 2 ^ a.shift := by
  have hd : q / 4096 < a.directories.size := by rw [h.directories]; omega
  have hdirectory := Array.getElem?_eq_getElem hd
  have hs : q % 4096 < (a.directories[q / 4096]).size := by
    rw [h.slots _ _ hdirectory]
    omega
  exact ⟨_, _, hdirectory, Array.getElem?_eq_getElem hs,
    h.cells _ _ hdirectory _ (Array.getElem_mem hs)⟩

/-- Every index on an installed page has a cell. -/
theorem Installed.isSome_get? {a : Arena α} {p : Nat} (h : a.Installed p) {i : Nat}
    (hi : i / 2 ^ a.shift < p) : (a.get? i).isSome = true := by
  obtain ⟨pages, page, hdirectory, hslot, hsize⟩ := h.exists_page hi
  have hoffset : i % 2 ^ a.shift < page.size := by
    rw [hsize]
    exact Nat.mod_lt _ (Nat.two_pow_pos _)
  simp only [get?, directory_address, slot_address, offset_address, hdirectory, hslot,
    Array.getElem?_eq_getElem hoffset, Option.isSome_some]

/-! ## Writing a cell -/

/-- A write changes its own cell, if there is one, and no other. -/
theorem get?_write (a : Arena α) (i j : Nat) (c : MessageCell α) :
    (a.write (address a.shift i) c).get? j
      = if i = j then (a.get? j).map fun _ => c else a.get? j := by
  simp only [get?, write, Array.getElem?_modify]
  -- the cells are told apart by directory, then slot, then offset
  by_cases hdirectory : (address a.shift i).directory = (address a.shift j).directory
  · simp only [hdirectory, if_true]
    cases a.directories[(address a.shift j).directory]? with
    | none => simp
    | some pages =>
      simp only [Option.map_some, Array.getElem?_modify]
      by_cases hslot : (address a.shift i).slot = (address a.shift j).slot
      · simp only [hslot, if_true]
        cases pages[(address a.shift j).slot]? with
        | none => simp
        | some page =>
          simp only [Option.map_some, Array.getElem?_setIfInBounds]
          by_cases hoffset : (address a.shift i).offset = (address a.shift j).offset
          · have hij := eq_of_address_eq hdirectory hslot hoffset
            subst hij
            by_cases hlt : (address a.shift i).offset < page.size
            · simp [hlt]
            · simp [hlt]
          · have hij : i ≠ j := fun h => hoffset (by rw [h])
            simp [hoffset, hij]
      · have hij : i ≠ j := fun h => hslot (by rw [h])
        simp [hslot, hij]
  · have hij : i ≠ j := fun h => hdirectory (by rw [h])
    simp [hdirectory, hij]

/-- A write installs nothing and removes nothing. -/
theorem Installed.write {a : Arena α} {p : Nat} (h : a.Installed p) (at_ : CellAddress)
    (c : MessageCell α) : (a.write at_ c).Installed p where
  directories := by simpa [Arena.write] using h.directories
  slots d pages hd := by
    simp only [Arena.write, Array.getElem?_modify] at hd
    split at hd
    · -- a write replaces a page by one of the same size
      obtain ⟨old, hold, rfl⟩ := Option.map_eq_some_iff.mp hd
      rw [Array.size_modify]
      exact h.slots d old hold
    · exact h.slots d pages hd
  cells d pages hd page hpage := by
    simp only [Arena.write, Array.getElem?_modify] at hd
    split at hd
    · obtain ⟨old, hold, rfl⟩ := Option.map_eq_some_iff.mp hd
      obtain ⟨s, hs, rfl⟩ := Array.mem_iff_getElem.mp hpage
      rw [Array.size_modify] at hs
      have hsize := h.cells d old hold old[s] (Array.getElem_mem hs)
      rw [Array.getElem_modify]
      split
      · rw [Array.size_setIfInBounds]
        exact hsize
      · exact hsize
    · exact h.cells d pages hd page hpage

/-! ## Installing a page -/

/-- Nothing is installed for an index whose page is there. -/
theorem Installed.install_of_lt {a : Arena α} {p : Nat} (h : a.Installed p) {i : Nat}
    (hi : i / 2 ^ a.shift < p) (c : MessageCell α) : a.install (address a.shift i) c = a := by
  obtain ⟨pages, page, hdirectory, hslot, -⟩ := h.exists_page hi
  have hd : (address a.shift i).directory < a.directories.size := by
    rw [directory_address, h.directories]
    omega
  -- the slot of `i` is taken, so its directory is left as it is
  have hkeep : (a.directories.modify (address a.shift i).directory fun pages =>
      if (address a.shift i).slot < pages.size then pages
      else pages.push (.replicate (1 <<< a.shift) c)) = a.directories := by
    apply Array.ext_getElem?
    intro d
    rw [Array.getElem?_modify]
    split
    · rename_i hsame
      rw [← hsame, directory_address, hdirectory, Option.map_some, slot_address,
        if_pos (Array.getElem?_eq_some_iff.mp hslot).1]
    · rfl
  simp only [Arena.install, if_pos hd, hkeep]

/-- The directory that the next page goes to, which is installed if need be. -/
private theorem Installed.exists_room {a : Arena α} {p : Nat} (h : a.Installed p) :
    ∃ (base : Array (Array (Array (MessageCell α)))) (pages : Array (Array (MessageCell α))), base =
        (if p / 4096 < a.directories.size then a.directories else a.directories.push #[]) ∧
      base.size = p / 4096 + 1 ∧ base[p / 4096]? = some pages ∧ pages.size = p % 4096 ∧
      (∀ page ∈ pages, page.size = 2 ^ a.shift) ∧
      ∀ (d : Nat) (pages' : Array (Array (MessageCell α))),
        a.directories[d]? = some pages' → base[d]? = some pages' := by
  by_cases hroom : p / 4096 < a.directories.size
  · have hdirectory := Array.getElem?_eq_getElem hroom
    refine ⟨_, _, rfl, ?_, by rw [if_pos hroom]; exact hdirectory, ?_, h.cells _ _ hdirectory, ?_⟩
    · rw [if_pos hroom]
      rw [h.directories] at hroom ⊢
      omega
    · rw [h.slots _ _ hdirectory]
      omega
    · intro d pages' hd
      rw [if_pos hroom]
      exact hd
  · -- every directory is full, so a new one comes after them
    have hsize : a.directories.size = p / 4096 := by
      rw [h.directories] at hroom ⊢
      omega
    have hfull : p % 4096 = 0 := by
      rw [h.directories] at hroom
      omega
    refine ⟨_, #[], rfl, ?_, ?_, by rw [hfull]; rfl, by simp, ?_⟩
    · rw [if_neg hroom, Array.size_push, hsize]
    · rw [if_neg hroom, ← hsize, Array.getElem?_push_size]
    · intro d pages' hd
      have hlt := (Array.getElem?_eq_some_iff.mp hd).1
      rw [if_neg hroom, Array.getElem?_push, if_neg (by omega)]
      exact hd

/-- The page after the last installed one is installed, and the older cells stay. -/
theorem Installed.install_next {a : Arena α} {p : Nat} (h : a.Installed p) {i : Nat}
    (hi : i / 2 ^ a.shift = p) (c : MessageCell α) :
    (a.install (address a.shift i) c).Installed (p + 1) ∧
      ∀ j, j / 2 ^ a.shift < p → (a.install (address a.shift i) c).get? j = a.get? j := by
  obtain ⟨base, pages, hbase, hsize, hdirectory, hslots, hcells, hkeep⟩ := h.exists_room
  have hinstall : a.install (address a.shift i) c = ⟨a.cursor, a.shift,
      base.modify (p / 4096) fun pages =>
        if p % 4096 < pages.size then pages else pages.push (.replicate (1 <<< a.shift) c)⟩ := by
    simp only [Arena.install, directory_address, slot_address, hi, ← hbase]
  -- the other directories are those of `a`
  have hother (d : Nat) (hd : p / 4096 ≠ d) (pages' : Array (Array (MessageCell α))) :
      base[d]? = some pages' ↔ a.directories[d]? = some pages' := by
    refine ⟨fun hsome => ?_, hkeep d pages'⟩
    have hlt := (Array.getElem?_eq_some_iff.mp hsome).1
    have hold : d < a.directories.size := by rw [h.directories]; omega
    have hget := hkeep d _ (Array.getElem?_eq_getElem hold)
    rw [hsome, Option.some_inj] at hget
    rw [hget, Array.getElem?_eq_getElem hold]
  rw [hinstall]
  refine ⟨⟨?_, ?_, ?_⟩, ?_⟩
  · -- there is room for one more page
    simp only [Array.size_modify, hsize]
    omega
  · intro d pages' hd
    rw [Array.getElem?_modify] at hd
    split at hd
    · rename_i hsame
      -- the directory with the new page
      subst hsame
      rw [hdirectory, Option.map_some, if_neg (by omega), Option.some_inj] at hd
      subst hd
      rw [Array.size_push, hslots]
      omega
    · rename_i hne
      have hold := (hother d hne pages').mp hd
      have hlt := (Array.getElem?_eq_some_iff.mp hold).1
      rw [h.directories] at hlt
      rw [h.slots d pages' hold]
      omega
  · intro d pages' hd page hpage
    rw [Array.getElem?_modify] at hd
    split at hd
    · rename_i hsame
      -- a page of that directory is an old one or the new one
      subst hsame
      rw [hdirectory, Option.map_some, if_neg (by omega), Option.some_inj] at hd
      subst hd
      rcases Array.mem_push.mp hpage with hold | hnew
      · exact hcells page hold
      · rw [hnew, Array.size_replicate, Nat.shiftLeft_eq, Nat.one_mul]
    · rename_i hne
      exact h.cells d pages' ((hother d hne pages').mp hd) page hpage
  · intro j hj
    obtain ⟨pagesOf, page, hdirectoryOf, hslotOf, -⟩ := h.exists_page hj
    simp only [get?, directory_address, slot_address, Array.getElem?_modify, hdirectoryOf,
      hkeep _ _ hdirectoryOf]
    by_cases hsame : p / 4096 = j / 2 ^ a.shift / 4096
    · -- the new page comes after the others of its directory
      have hlt := (Array.getElem?_eq_some_iff.mp hslotOf).1
      have hpages : pagesOf = pages := by
        rw [← Option.some_inj, ← hdirectory, hsame, hkeep _ _ hdirectoryOf]
      subst hpages
      rw [if_pos hsame, Option.map_some, if_neg (by omega)]
      simp only [Array.getElem?_push, if_neg (Nat.ne_of_lt hlt), hslotOf]
    · rw [if_neg hsame]

/-! ## Pushing a cell -/

/-- The pages below the cursor are installed, and every link leads from a cell below the cursor to
an older one. -/
structure Valid (a : Arena α) : Prop where
  pages : ∃ p, a.Installed p ∧ a.cursor ≤ p * 2 ^ a.shift
  linked : ∀ i, i < a.cursor → ∃ c, a.get? i = some c ∧ ∀ j, c.next = some j → j < i

/-- A new arena has no cell that could be missing or linked. -/
theorem valid_empty (shift : Nat) : (empty shift : Arena α).Valid where
  pages := ⟨0, installed_empty shift, Nat.zero_le _⟩
  linked _ hi := absurd hi (Nat.not_lt_zero _)

/-- A push moves the cursor by one. -/
@[simp] theorem cursor_push (a : Arena α) (c : MessageCell α) :
    (a.push c).cursor = a.cursor + 1 := rfl

/-- A push does not change the size of a page. -/
@[simp] theorem shift_push (a : Arena α) (c : MessageCell α) : (a.push c).shift = a.shift := rfl

/-- A push installs the page of the cursor if need be and writes the cell. -/
theorem directories_push (a : Arena α) (c : MessageCell α) : (a.push c).directories
    = ((a.install (address a.shift a.cursor) c).write (address a.shift a.cursor) c).directories :=
  rfl

/-- Where the cells are, the cursor does not matter. -/
theorem get?_push (a : Arena α) (c : MessageCell α) (i : Nat) : (a.push c).get? i
    = ((a.install (address a.shift a.cursor) c).write (address a.shift a.cursor) c).get? i := by
  rw [get?, get?, directories_push]
  rfl

/-- A push installs at most one page, and then the cursor's cell is on an installed page. -/
private theorem Valid.install {a : Arena α} (h : a.Valid) (c : MessageCell α) :
    (∃ p, (a.install (address a.shift a.cursor) c).Installed p ∧
      a.cursor + 1 ≤ p * 2 ^ a.shift) ∧
      ((a.install (address a.shift a.cursor) c).get? a.cursor).isSome = true ∧
      ∀ i, i < a.cursor → (a.install (address a.shift a.cursor) c).get? i = a.get? i := by
  obtain ⟨p, hinstalled, hcursor⟩ := h.pages
  have hpos : 0 < 2 ^ a.shift := Nat.two_pow_pos _
  have hpage : a.cursor / 2 ^ a.shift ≤ p := by
    have := Nat.div_le_div_right (c := 2 ^ a.shift) hcursor
    rwa [Nat.mul_div_cancel _ hpos] at this
  -- the cursor is on the last installed page, or just past it
  rcases Nat.lt_or_eq_of_le hpage with hlt | heq
  · rw [hinstalled.install_of_lt hlt c]
    refine ⟨⟨p, hinstalled, ?_⟩, hinstalled.isSome_get? hlt, fun _ _ => rfl⟩
    exact (Nat.div_lt_iff_lt_mul hpos).mp hlt
  · -- one page has to be installed first
    obtain ⟨hnext, hkeep⟩ := hinstalled.install_next heq c
    have hbound : a.cursor < (p + 1) * 2 ^ a.shift :=
      (Nat.div_lt_iff_lt_mul hpos).mp (by omega)
    refine ⟨⟨p + 1, hnext, hbound⟩, hnext.isSome_get? ?_, ?_⟩
    · show a.cursor / 2 ^ a.shift < p + 1
      omega
    · intro i hi
      apply hkeep
      exact (Nat.div_lt_iff_lt_mul hpos).mpr (by omega)

/-- A push writes the cell at the cursor. -/
theorem get?_push_self {a : Arena α} (h : a.Valid) (c : MessageCell α) :
    (a.push c).get? a.cursor = some c := by
  obtain ⟨-, hsome, -⟩ := h.install c
  obtain ⟨old, hold⟩ := Option.isSome_iff_exists.mp hsome
  have hwrite := get?_write (a.install (address a.shift a.cursor) c) a.cursor a.cursor c
  rw [if_pos rfl, hold, Option.map_some] at hwrite
  rw [get?_push]
  exact hwrite

/-- A push leaves the cells below the cursor as they are. -/
theorem get?_push_of_lt {a : Arena α} (h : a.Valid) (c : MessageCell α) {i : Nat}
    (hi : i < a.cursor) : (a.push c).get? i = a.get? i := by
  obtain ⟨-, -, hkeep⟩ := h.install c
  have hwrite := get?_write (a.install (address a.shift a.cursor) c) a.cursor i c
  rw [if_neg (by omega), hkeep i hi] at hwrite
  rw [get?_push]
  exact hwrite

/-- A push keeps the arena valid if the new cell links to an older one. -/
theorem Valid.push {a : Arena α} (h : a.Valid) (c : MessageCell α)
    (hnext : ∀ j, c.next = some j → j < a.cursor) : (a.push c).Valid where
  pages := by
    obtain ⟨⟨p, hinstalled, hcursor⟩, -, -⟩ := h.install c
    have hwritten := hinstalled.write (address a.shift a.cursor) c
    have hdirectories := directories_push a c
    refine ⟨p, ⟨?_, ?_, ?_⟩, hcursor⟩ <;> rw [hdirectories]
    · exact hwritten.directories
    · exact hwritten.slots
    · exact hwritten.cells
  linked i hi := by
    rw [cursor_push] at hi
    -- older cells stay, and the new one links to what its vertex had before
    rcases Nat.lt_or_eq_of_le (Nat.le_of_lt_succ hi) with hlt | heq
    · rw [get?_push_of_lt h c hlt]
      exact h.linked i hlt
    · subst heq
      exact ⟨c, get?_push_self h c, hnext⟩

/-- Clearing forgets the cells and keeps the pages. -/
theorem Valid.clear {a : Arena α} (h : a.Valid) : a.clear.Valid where
  pages := by
    obtain ⟨p, hinstalled, -⟩ := h.pages
    exact ⟨p, ⟨hinstalled.directories, hinstalled.slots, hinstalled.cells⟩, Nat.zero_le _⟩
  linked _ hi := absurd hi (Nat.not_lt_zero _)

/-! ## Following links -/

/-- The messages collected so far are kept, behind the further ones. -/
theorem collect_append (a : Arena α) (fuel : Nat) (next : Option Nat) (later : List α) :
    a.collect fuel next later = a.collect fuel next [] ++ later := by
  -- the accumulator only grows, so it can be split off at any point
  induction fuel generalizing next later with
  | zero => rfl
  | succ fuel ih =>
    cases next with
    | none => rfl
    | some i =>
      simp only [collect]
      cases a.get? i with
      | none => rfl
      | some c =>
        dsimp only
        rw [ih c.next (c.value :: later), ih c.next [c.value], List.append_assoc]
        rfl

/-- Links lead to older cells, so any bound past the first cell's index is enough. -/
theorem collect_eq_of_lt {a : Arena α} (h : a.Valid) (fuel fuel' : Nat) (next : Option Nat)
    (hnext : ∀ i, next = some i → i < a.cursor ∧ i < fuel ∧ i < fuel') (later : List α) :
    a.collect fuel next later = a.collect fuel' next later := by
  induction fuel generalizing fuel' next later with
  | zero =>
    cases next with
    | none => cases fuel' <;> rfl
    | some i => exact absurd (hnext i rfl).2.1 (Nat.not_lt_zero _)
  | succ fuel ih =>
    cases next with
    | none => cases fuel' <;> rfl
    | some i =>
      obtain ⟨hcursor, hfuel, hfuel'⟩ := hnext i rfl
      obtain ⟨c, hget, hlinked⟩ := h.linked i hcursor
      cases fuel' with
      | zero => exact absurd hfuel' (Nat.not_lt_zero _)
      | succ fuel' =>
        simp only [collect, hget]
        -- the next cell is older, so both bounds still reach past it
        apply ih
        intro j hj
        have := hlinked j hj
        omega

/-- No cell, no messages. -/
@[simp] theorem chain_none (a : Arena α) : a.chain none = [] := by
  cases h : a.cursor <;> simp [chain, collect, h]

/-- The messages linked from a cell: its own, and those linked from the cell before it. -/
theorem chain_some {a : Arena α} (h : a.Valid) {i : Nat} (hi : i < a.cursor) {c : MessageCell α}
    (hget : a.get? i = some c) : a.chain (some i) = c.value :: a.chain c.next := by
  obtain ⟨c', hget', hlinked⟩ := h.linked i hi
  rw [hget, Option.some_inj] at hget'
  subst hget'
  obtain ⟨fuel, hfuel⟩ : ∃ fuel, a.cursor = fuel + 1 := ⟨a.cursor - 1, by omega⟩
  -- one link less to follow, and the bound is still past the next cell
  have hrest : a.collect fuel c.next [] = a.collect a.cursor c.next [] := by
    apply collect_eq_of_lt h
    intro j hj
    have := hlinked j hj
    omega
  simp only [chain]
  rw [← hrest, hfuel]
  simp only [collect, hget]
  rw [collect_append, List.reverse_append]
  rfl

/-- A list only depends on the cells it runs through. -/
theorem chain_congr {a b : Arena α} (ha : a.Valid) (hb : b.Valid) (k : Nat)
    (hcursor : k ≤ a.cursor) (hcursor' : k ≤ b.cursor) (hget : ∀ i, i < k → a.get? i = b.get? i)
    (next : Option Nat) (hnext : ∀ i, next = some i → i < k) : a.chain next = b.chain next := by
  -- the induction is on the bound of the cells that can be reached
  induction k generalizing next with
  | zero =>
    cases next with
    | none => rw [chain_none, chain_none]
    | some i => exact absurd (hnext i rfl) (Nat.not_lt_zero _)
  | succ k ih =>
    cases next with
    | none => rw [chain_none, chain_none]
    | some i =>
      have hi := hnext i rfl
      obtain ⟨c, hc, hlinked⟩ := ha.linked i (by omega)
      -- the cell is the same in both, and what it links to is older
      rw [chain_some ha (by omega) hc, chain_some hb (by omega) (by rw [← hget i hi, hc]),
        ih (by omega) (by omega) (fun j hj => hget j (by omega)) c.next]
      intro j hj
      have := hlinked j hj
      omega

end Arena

end Superstep
