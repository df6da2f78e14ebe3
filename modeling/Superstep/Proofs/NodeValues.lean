import Mathlib
import Superstep.NodeValues
import Superstep.Proofs.Storage.PagedArray

/-!
# Rows of different vertices

A hook is handed the row of its own vertex and answers with another one. Storing it leaves the rows
of all other vertices alone (`NodeValues.row_setRow_of_ne`), and in which order the rows of
different vertices are stored makes no difference (`NodeValues.setRow_comm`). A row with cells of
the right types is handed out again as it was stored (`NodeValues.row_setRow_self`), and whoever
reads the values of a vertex reads its row (`NodeValues.cell_eq_cell_row`).
-/

namespace Superstep

variable {α : Type}

/-- Two different cells may be written in any order. -/
theorem PagedArray.set_comm {β : Type} (a : PagedArray β) {v w : Nat} (h : v ≠ w) (x y : β) :
    (a.set v x).set w y = (a.set w y).set v x := by
  apply PagedArray.ext_get?
  · rfl
  · intro i
    simp only [PagedArray.get?_set, PagedArray.size_set]
    by_cases hv : v = i
    · by_cases hw : w = i
      · exact absurd (hv.trans hw.symm) h
      · simp [hw]
    · simp [hv]

namespace Column

/-- The cells of two different vertices may be stored in any order. -/
theorem store_comm (c : Column α) {v w : Nat} (h : v ≠ w) (x y : Cell α) :
    (c.store v x).store w y = (c.store w y).store v x := by
  cases c <;> cases x <;> cases y <;> first
    | rfl
    | exact congrArg _ (PagedArray.set_comm _ h _ _)

/-- Storing a cell leaves those of other vertices alone. -/
theorem cell?_store_of_ne (c : Column α) {v w : Nat} (h : v ≠ w) (x : Cell α) :
    (c.store v x).cell? w = c.cell? w := by
  cases c <;> cases x <;> first
    | rfl
    | simp [store, cell?, PagedArray.get?_set, h]

end Column

namespace NodeValues

/-- The column `i` after the cells of a vertex were stored from slot `slot` on. -/
theorem getElem?_columns_storeFrom (node slot : Nat) (cells : List (Cell α)) (values : NodeValues α)
    (i : Nat) : (storeFrom node slot cells values).columns[i]? = values.columns[i]?.map fun c =>
      match if slot ≤ i then cells[i - slot]? else none with
      | some x => c.store node x
      | none => c := by
  induction cells generalizing slot values with
  | nil => simp [storeFrom]
  | cons x cells ih =>
    rw [storeFrom, ih, store]
    simp only [Array.getElem?_modify]
    -- column `i` gets the first cell, one of the others or none
    by_cases hslot : slot = i
    · subst hslot
      have hpast : ¬slot + 1 ≤ slot := by omega
      simp [hpast, Function.comp_def]
    · by_cases hle : slot ≤ i
      · have hnext : i - slot = (i - (slot + 1)) + 1 := by omega
        rw [if_neg hslot, if_pos hle, if_pos (by omega), hnext, List.getElem?_cons_succ]
      · rw [if_neg hslot, if_neg hle, if_neg (by omega)]

/-- Storing a row puts each of its cells into the column of its slot. -/
theorem getElem?_columns_setRow (values : NodeValues α) (node : Nat) (r : Row α) (i : Nat) :
    (values.setRow node r).columns[i]? = values.columns[i]?.map fun c =>
      match r.cells[i]? with
      | some x => c.store node x
      | none => c := by
  simp [setRow, getElem?_columns_storeFrom]

/-- Storing cells changes neither the schema nor the number of vertices. -/
private theorem storeFrom_frame (node slot : Nat) (cells : List (Cell α)) (values : NodeValues α) :
    (storeFrom node slot cells values).schema = values.schema ∧
      (storeFrom node slot cells values).nodeCount = values.nodeCount := by
  induction cells generalizing slot values with
  | nil => exact ⟨rfl, rfl⟩
  | cons x cells ih => exact ih (slot + 1) (values.store slot node x)

/-- Storing a row keeps the schema. -/
@[simp] theorem schema_setRow (values : NodeValues α) (node : Nat) (r : Row α) :
    (values.setRow node r).schema = values.schema :=
  (storeFrom_frame node 0 r.cells.toList values).1

/-- Storing a row keeps the number of vertices. -/
@[simp] theorem nodeCount_setRow (values : NodeValues α) (node : Nat) (r : Row α) :
    (values.setRow node r).nodeCount = values.nodeCount :=
  (storeFrom_frame node 0 r.cells.toList values).2

/-- Values with the same schema, number of vertices and columns are the same. -/
theorem ext_columns {values values' : NodeValues α} (hschema : values.schema = values'.schema)
    (hcount : values.nodeCount = values'.nodeCount)
    (h : ∀ i : Nat, values.columns[i]? = values'.columns[i]?) : values = values' := by
  have hcolumns : values.columns = values'.columns := Array.ext_getElem? h
  cases values
  cases values'
  cases hschema
  cases hcount
  cases hcolumns
  rfl

/-- Storing a row leaves the rows of other vertices alone. -/
theorem row_setRow_of_ne (values : NodeValues α) {v w : Nat} (h : v ≠ w) (r : Row α) :
    (values.setRow v r).row w = values.row w := by
  -- column by column, the cell of the other vertex is what it was
  have hcells : (values.setRow v r).columns.toList.map (·.cell? w)
      = values.columns.toList.map (·.cell? w) := by
    apply List.ext_getElem?
    intro i
    rw [List.getElem?_map, List.getElem?_map, Array.getElem?_toList, Array.getElem?_toList,
      getElem?_columns_setRow, Option.map_map]
    congr 1
    funext c
    simp only [Function.comp_apply]
    split
    · exact c.cell?_store_of_ne h _
    · rfl
  rw [row, row, schema_setRow]
  congr 1
  apply Array.toList_inj.mp
  have hfiltered := congrArg (List.filterMap id) hcells
  simpa [List.filterMap_map, Function.comp_def] using hfiltered

/-- The rows of different vertices may be stored in any order. -/
theorem setRow_comm (values : NodeValues α) {v w : Nat} (h : v ≠ w) (r r' : Row α) :
    (values.setRow v r).setRow w r' = (values.setRow w r').setRow v r := by
  apply ext_columns
  · simp
  · simp
  · intro i
    simp only [getElem?_columns_setRow, Option.map_map]
    congr 1
    funext c
    simp only [Function.comp_apply]
    -- a column only gets a cell that the row has
    cases r.cells[i]? with
    | none => rfl
    | some x =>
      cases r'.cells[i]? with
      | none => rfl
      | some y => exact c.store_comm h x y

end NodeValues

/-! ## Rows as they are stored and read -/

namespace Column

/-- A column has a cell for each of its vertices. -/
theorem isSome_cell? (c : Column α) {v : Nat} (h : v < c.size) : (c.cell? v).isSome = true := by
  cases c <;> simpa [cell?, size, PagedArray.isSome_get?] using h

/-- The cells of a column are of its type. -/
theorem valueType_of_cell? {c : Column α} {v : Nat} {x : Cell α} (h : c.cell? v = some x) :
    x.valueType = c.valueType := by
  cases c <;>
  · obtain ⟨y, -, rfl⟩ := Option.map_eq_some_iff.mp h
    rfl

/-- A cell of the right type is read as it was stored. -/
theorem cell?_store_self (c : Column α) {v : Nat} (hv : v < c.size) {x : Cell α}
    (hx : x.valueType = c.valueType) : (c.store v x).cell? v = some x := by
  cases c <;> cases x <;> first
    | contradiction
    | exact congrArg (Option.map _) ((PagedArray.get?_set _ v v _).trans (if_pos ⟨rfl, hv⟩))

end Column

/-- The cell of a slot before anything was written. -/
def Element.initialCell [Scalar α] (e : Element α) : Cell α :=
  match e.valueType with
  | .long => .long e.initialLong
  | .double => .double e.initialDouble
  | .longArray => .longArray none
  | .doubleArray => .doubleArray none

/-- A new column holds the first value of its slot everywhere. -/
theorem Column.cell?_allocate [Scalar α] (e : Element α) {n v : Nat} (hv : v < n) :
    (Column.allocate e n).cell? v = some e.initialCell := by
  cases h : e.valueType <;>
    simp [allocate, cell?, Element.initialCell, h, PagedArray.get?_replicate, ObjectArray.empty, hv]

namespace NodeValues

variable {values : NodeValues α} {v : Nat}

/-- Every column has a cell for each vertex. -/
theorem size_of_mem_columns {c : Column α} (h : c ∈ values.columns) :
    c.size = values.nodeCount := by
  have hmem := List.mem_map_of_mem (f := fun c => (c.valueType, c.size))
    (Array.mem_toList_iff.mpr h)
  rw [values.shape] at hmem
  obtain ⟨e, -, heq⟩ := List.mem_map.mp hmem
  exact (Prod.mk.inj heq).2.symm

/-- A row has the cells of all columns, since all of them have one for the vertex. -/
theorem getElem?_cells_row (hv : v < values.nodeCount) (i : Nat) :
    (values.row v).cells[i]? = values.columns[i]?.bind (·.cell? v) := by
  -- no column is left out for want of a cell
  have hsome : ∀ c ∈ values.columns.toList,
      c.cell? v = some ((c.cell? v).getD (.long 0)) := by
    intro c hc
    have hsize := size_of_mem_columns (Array.mem_toList_iff.mp hc)
    obtain ⟨x, hx⟩ := Option.isSome_iff_exists.mp (c.isSome_cell? (by omega : v < c.size))
    rw [hx]
    rfl
  have hcells : (values.row v).cells.toList
      = values.columns.toList.map fun c => (c.cell? v).getD (.long 0) := by
    rw [row, Array.toList_filterMap, List.filterMap_congr hsome]
    exact congrFun List.filterMap_eq_map _
  rw [← Array.getElem?_toList, hcells, List.getElem?_map, Array.getElem?_toList]
  cases hc : values.columns[i]? with
  | none => rfl
  | some c => exact (hsome c (Array.mem_toList_iff.mpr (Array.mem_of_getElem? hc))).symm

/-- A row with cells of the right types is handed out again as it was stored. -/
theorem row_setRow_self {r : Row α} (hv : v < values.nodeCount) (hschema : r.schema = values.schema)
    (htypes : r.cells.toList.map Cell.valueType = values.schema.elements.map Element.valueType) :
    (values.setRow v r).row v = r := by
  -- the row has cells of the types that the columns have
  have hcolumns : values.columns.toList.map Column.valueType
      = r.cells.toList.map Cell.valueType := by
    rw [htypes]
    have hfirst := congrArg (List.map Prod.fst) values.shape
    simpa [List.map_map, Function.comp_def] using hfirst
  have hcells : ((values.setRow v r).row v).cells = r.cells := by
    apply Array.ext_getElem?
    intro i
    rw [getElem?_cells_row (by simpa using hv), getElem?_columns_setRow]
    -- both lists of types have an entry `i` or neither has
    have htype := congrArg (·[i]?) hcolumns
    simp only [List.getElem?_map, Array.getElem?_toList] at htype
    cases hc : values.columns[i]? with
    | none =>
      rw [hc] at htype
      rw [Option.map_eq_none_iff.mp htype.symm]
      rfl
    | some c =>
      rw [hc] at htype
      obtain ⟨x, hx, hxc⟩ := Option.map_eq_some_iff.mp htype.symm
      have hsize := size_of_mem_columns (Array.mem_of_getElem? hc)
      rw [hx]
      exact c.cell?_store_self (by omega) hxc
  calc (values.setRow v r).row v
      = ⟨(values.setRow v r).schema, ((values.setRow v r).row v).cells⟩ := rfl
    _ = r := by rw [schema_setRow, ← hschema, hcells]

/-- At first a vertex has the first value of every slot. -/
theorem row_allocate [Scalar α] (schema : Schema α) {n : Nat} (hv : v < n) :
    (allocate schema n).row v = ⟨schema, (schema.elements.map Element.initialCell).toArray⟩ := by
  have hcells : ((allocate schema n).row v).cells
      = (schema.elements.map Element.initialCell).toArray := by
    apply Array.ext_getElem?
    intro i
    rw [getElem?_cells_row hv, allocate, List.getElem?_toArray, List.getElem?_toArray,
      List.getElem?_map, List.getElem?_map]
    cases schema.elements[i]? with
    | none => rfl
    | some e => exact Column.cell?_allocate e hv
  exact congrArg (Row.mk schema) hcells

/-- A key leads to the same slot in the values and in the row of a vertex. -/
theorem locate_eq_locate_row (hv : v < values.nodeCount) (key : String) (type : ValueType) :
    values.locate key type v = (values.row v).locate key type := by
  have hschema : (values.row v).schema = values.schema := rfl
  rw [locate, Row.locate, hschema]
  cases values.schema.indexOf? key with
  | none => rfl
  | some i =>
    have hcell := getElem?_cells_row hv i
    dsimp only
    cases hc : values.columns[i]? with
    | none =>
      rw [hc, Option.bind_none] at hcell
      rw [hcell]
    | some c =>
      have hsize := size_of_mem_columns (Array.mem_of_getElem? hc)
      -- the column has a cell for the vertex, which the row has too
      obtain ⟨x, hx⟩ := Option.isSome_iff_exists.mp (c.isSome_cell? (by omega : v < c.size))
      rw [hc, Option.bind_some, hx] at hcell
      rw [hcell]
      dsimp only
      -- the column and the cell have one type
      rw [Column.valueType_of_cell? hx, if_pos hv]

/-- Whoever reads the values of a vertex reads its row. -/
theorem cell_eq_cell_row (hv : v < values.nodeCount) (key : String) (type : ValueType) :
    values.cell key type v = (values.row v).cell key type := by
  rw [cell, Row.cell, locate_eq_locate_row hv]
  cases hlocate : (values.row v).locate key type with
  | error e => rfl
  | ok i =>
    have hcell := getElem?_cells_row hv i
    dsimp only
    rw [← hcell]
    -- the slot that was found has a cell
    cases hx : (values.row v).cells[i]? with
    | some x => rfl
    | none =>
      rw [Row.locate] at hlocate
      split at hlocate
      · cases hlocate
      · split at hlocate
        · cases hlocate
        · rename_i hfound
          split at hlocate
          · cases hlocate
            rw [hx] at hfound
            cases hfound
          · cases hlocate

/-- A double is read from the row of its vertex. -/
theorem double_eq_double_row (hv : v < values.nodeCount) (key : String) :
    values.double key v = (values.row v).double key := by
  rw [double, Row.double, cell_eq_cell_row hv]

/-- An integer is read from the row of its vertex. -/
theorem long_eq_long_row (hv : v < values.nodeCount) (key : String) :
    values.long key v = (values.row v).long key := by
  rw [long, Row.long, cell_eq_cell_row hv]

end NodeValues

/-! ## Rows of one slot -/

namespace Row

variable {α : Type} {key : String} {e : Element α}

/-- In a row of one slot its key leads to this slot. -/
theorem locate_single (he : e.key = key) (c : Cell α) :
    (⟨⟨[e]⟩, #[c]⟩ : Row α).locate key c.valueType = .ok 0 := by
  simp [locate, Schema.indexOf?, he]

/-- A row of one double answers with it. -/
theorem double_single (he : e.key = key) (x : α) :
    (⟨⟨[e]⟩, #[.double x]⟩ : Row α).double key = .ok x := by
  rw [double, cell, show ValueType.double = (Cell.double x).valueType from rfl, locate_single he]
  rfl

/-- A row of one integer answers with it. -/
theorem long_single (he : e.key = key) (x : Int64) :
    (⟨⟨[e]⟩, #[.long x]⟩ : Row α).long key = .ok x := by
  rw [long, cell, show ValueType.long = (Cell.long x : Cell α).valueType from rfl,
    locate_single he]
  rfl

end Row

namespace NodeValues

variable {α : Type} {values : NodeValues α} {v : Nat} {key : String} {e : Element α}

/-- Whoever reads the one value of a vertex reads what the row holds. -/
theorem double_of_row_single (hv : v < values.nodeCount) (he : e.key = key) {x : α}
    (hrow : values.row v = ⟨⟨[e]⟩, #[.double x]⟩) : values.double key v = .ok x := by
  rw [double_eq_double_row hv, hrow, Row.double_single he]

/-- The same for a value that is an integer. -/
theorem long_of_row_single (hv : v < values.nodeCount) (he : e.key = key) {x : Int64}
    (hrow : values.row v = ⟨⟨[e]⟩, #[.long x]⟩) : values.long key v = .ok x := by
  rw [long_eq_long_row hv, hrow, Row.long_single he]

end NodeValues

end Superstep
