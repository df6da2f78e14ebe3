import Mathlib
import Superstep.Proofs.Hook
import Superstep.Proofs.Rejection
import Superstep.Proofs.Run.Serving

/-!
# Values are what was stored last

Whoever holds the values of the vertices stores single cells of them, and a hook stores cells of its
vertex in the row that it was handed, which then takes the place of the vertex's values. In both
ways a cell is stored under a key and for a vertex, and no other cell is touched. So what is read
under a key for a vertex is what was stored last under this very key for this very vertex, or what
the slot started with.

## Key results

- `NodeValues.setRow_row`: a row that is stored as it was handed out changes nothing
- `NodeValues.enter_setRow`, `carryOut_hook`: a hook does what could be done cell by cell
- `NodeValues.enter_spec`: one cell is stored, and no other one changes
- `values_keep_what_was_stored`: reading after any history
-/

namespace Superstep

variable {α : Type}

/-- A cell to be stored under a key for a vertex. -/
structure Entry (α : Type) where
  key : String
  node : Nat
  cell : Cell α

/-- A way to change values of vertices. -/
inductive Writing (α : Type) where
  /-- Whoever holds the values stores a cell. -/
  | direct (entry : Entry α)
  /-- A hook that runs in a phase and has this view stores cells of its vertex, one after the
  other. -/
  | hook (phase : Phase) (view : VertexView α) (cells : List (String × Cell α))

namespace Writing

/-- What is stored, in order. -/
def entries : Writing α → List (Entry α)
  | .direct entry => [entry]
  | .hook _ view cells => cells.map fun (key, c) => ⟨key, view.vertex, c⟩

/-- The last cell that was stored under a key for a vertex, if there was one. -/
def last? (history : List (Entry α)) (key : String) (node : Nat) : Option (Cell α) :=
  (history.filter fun entry => entry.key = key ∧ entry.node = node).getLast?.map (·.cell)

/-- A cell stays the last one as long as none is stored in its place. -/
theorem last?_cons (entry : Entry α) (history : List (Entry α)) (key : String) (node : Nat) :
    last? (entry :: history) key node = (last? history key node).or
      (if entry.key = key ∧ entry.node = node then some entry.cell else none) := by
  simp only [last?, List.filter_cons, decide_eq_true_eq]
  -- the first cell counts if it is in the place and no later one is
  split
  · rw [List.getLast?_cons]
    cases (history.filter _).getLast? <;> rfl
  · rw [Option.or_none]

end Writing

/-- Stores cells of the vertex one after the other. -/
def HookM.storeAll {p : Phase} : List (String × Cell α) → HookM p α Unit
  | [] => pure ()
  | (key, c) :: cells => do
    write key c
    storeAll cells

namespace NodeValues

/-- Stores a cell. -/
def enter (values : NodeValues α) (entry : Entry α) : Except Fault (NodeValues α) :=
  match values.write entry.key entry.node entry.cell with
  | (.ok (), values) => .ok values
  | (.error violation, _) => .error (.violation violation)

/-- Changes values. A hook is called as in a visit: it is handed the row of its vertex, and the row
that it leaves is stored. -/
def carryOut (values : NodeValues α) : Writing α → Except Fault (NodeValues α)
  | .direct entry => values.enter entry
  | .hook phase view cells =>
    let hook : HookM phase α Unit := HookM.storeAll cells
    let reply := hook.reply { view with row := values.row view.vertex }
    reply.outcome.map fun _ => values.setRow view.vertex reply.row

end NodeValues

/-- There are a slot of the key that has the type of the cell and the vertex. -/
def Entry.Fits (elements : List (Element α)) (n : Nat) (entry : Entry α) : Prop :=
  (∃ e ∈ elements, e.key = entry.key ∧ e.valueType = entry.cell.valueType) ∧ entry.node < n

/-- The value under a key, by the accessor for its type. -/
def Row.get (r : Row α) (type : ValueType) (key : String) : Except Violation (Cell α) :=
  match type with
  | .long => (r.long key).map .long
  | .double => (r.double key).map .double
  | .longArray => (r.longArray key).map .longArray
  | .doubleArray => (r.doubleArray key).map .doubleArray

/-! ## Cells of one column -/

/-- Of two values that are stored in the same place, the second one stays. -/
theorem PagedArray.set_set {β : Type} (a : PagedArray β) (v : Nat) (x y : β) :
    (a.set v x).set v y = a.set v y := by
  refine PagedArray.ext_get? rfl fun i => ?_
  simp only [PagedArray.get?_set, PagedArray.size_set]
  split <;> rfl

/-- Storing the value that is there changes nothing. -/
theorem PagedArray.set_of_get? {β : Type} {a : PagedArray β} {v : Nat} {x : β}
    (h : a.get? v = some x) : a.set v x = a := by
  refine PagedArray.ext_get? rfl fun i => ?_
  rw [PagedArray.get?_set]
  split
  · rename_i hi
    rw [← hi.1, h]
  · rfl

namespace Column

/-- Of two cells of one type that are stored in the same place, the second one stays. -/
theorem store_store (c : Column α) (v : Nat) {x y : Cell α} (h : y.valueType = x.valueType) :
    (c.store v x).store v y = c.store v y := by
  -- only cells of one type are left, and then the array of that type decides
  cases x <;> cases y <;> first
    | contradiction
    | cases c <;> first
      | rfl
      | exact congrArg _ (PagedArray.set_set _ v _ _)

/-- Storing the cell that is there changes nothing. -/
theorem store_of_cell? {c : Column α} {v : Nat} {x : Cell α} (h : c.cell? v = some x) :
    c.store v x = c := by
  -- the cell is read from the array of the type of the column
  cases c <;>
  · obtain ⟨y, hy, rfl⟩ := Option.map_eq_some_iff.mp h
    exact congrArg _ (PagedArray.set_of_get? hy)

end Column

/-! ## Rows that are handed out and stored -/

namespace NodeValues

variable {values : NodeValues α} {v : Nat}

/-- There is nothing in the row of a vertex that does not exist. -/
theorem cells_row_of_le (hv : values.nodeCount ≤ v) : (values.row v).cells = #[] := by
  -- no column has a cell for this vertex
  have hnone : ∀ c ∈ values.columns.toList, c.cell? v = none := by
    intro c hc
    by_contra hcell
    obtain ⟨x, hx⟩ := Option.ne_none_iff_exists'.mp hcell
    have hlt := Column.lt_size_of_cell? hx
    rw [size_of_mem_columns (Array.mem_toList_iff.mp hc)] at hlt
    omega
  apply Array.toList_inj.mp
  rw [row, Array.toList_filterMap]
  exact List.filterMap_eq_nil_iff.mpr hnone

/-- A row that is stored as it was handed out changes nothing. -/
theorem setRow_row (values : NodeValues α) (v : Nat) : values.setRow v (values.row v) = values := by
  -- a vertex that does not exist has an empty row
  by_cases hv : v < values.nodeCount
  · refine ext_columns (by simp) (by simp) fun i => ?_
    rw [getElem?_columns_setRow, getElem?_cells_row hv]
    cases values.columns[i]? with
    | none => rfl
    | some c =>
      rw [Option.map_some, Option.bind_some]
      cases hx : c.cell? v with
      | none => rfl
      | some x => exact congrArg some (Column.store_of_cell? hx)
  · rw [setRow, cells_row_of_le (Nat.le_of_not_lt hv)]
    rfl

end NodeValues

namespace Row

/-- The row has a cell of the right type for every slot. -/
structure Fits (r : Row α) (schema : Schema α) : Prop where
  schema_eq : r.schema = schema
  types_eq : r.cells.toList.map Cell.valueType = schema.elements.map Element.valueType

/-- Where a key was found, the row has a cell of the type. -/
theorem exists_of_locate {r : Row α} {key : String} {type : ValueType} {i : Nat}
    (h : r.locate key type = .ok i) : ∃ x, r.cells[i]? = some x ∧ x.valueType = type := by
  rw [locate] at h
  split at h
  · cases h
  · split at h
    · cases h
    · -- the key names a cell, whose type is looked at last
      rename_i x hx
      split at h
      · rename_i htype
        cases h
        exact ⟨x, hx, htype⟩
      · cases h

/-- A cell takes the place of one of the same type. -/
theorem Fits.store {r : Row α} {schema : Schema α} (h : r.Fits schema) {key : String} {c : Cell α}
    {i : Nat} (hlocate : r.locate key c.valueType = .ok i) : (r.store i c).Fits schema where
  schema_eq := h.schema_eq
  types_eq := by
    obtain ⟨x, hx, htype⟩ := exists_of_locate hlocate
    obtain ⟨hi, rfl⟩ := Array.getElem?_eq_some_iff.mp hx
    rw [← h.types_eq, Row.store, Array.toList_setIfInBounds, List.map_set, ← htype]
    refine List.ext_getElem? fun j => ?_
    rw [List.getElem?_set]
    -- the cell in question, which has the type of the one before, or another one
    split
    · rename_i hij
      subst hij
      simp [hi]
    · rfl

end Row

namespace NodeValues

variable {values : NodeValues α} {v : Nat} {r : Row α}

/-- The row of a vertex fits the schema. -/
theorem fits_row (hv : v < values.nodeCount) : (values.row v).Fits values.schema where
  schema_eq := rfl
  types_eq := by
    apply List.ext_getElem?
    intro i
    have htypes := valueType_columns values i
    rw [List.getElem?_map, List.getElem?_map, Array.getElem?_toList, getElem?_cells_row hv]
    cases hc : values.columns[i]? with
    | none =>
      rw [hc] at htypes
      exact htypes
    | some c =>
      have hsize := size_of_mem_columns (Array.mem_of_getElem? hc)
      obtain ⟨x, hx⟩ := Option.isSome_iff_exists.mp (c.isSome_cell? (by omega : v < c.size))
      rw [hc] at htypes
      rw [Option.bind_some, hx, ← htypes, Option.map_some, Column.valueType_of_cell? hx]
      rfl

/-- Storing a cell in a row and then the row is storing the row and then the cell. -/
theorem store_setRow {x c : Cell α} {i : Nat} (hx : r.cells[i]? = some x)
    (htype : c.valueType = x.valueType) :
    (values.setRow v r).store i v c = values.setRow v (r.store i c) := by
  refine ext_columns ?_ ?_ fun j => ?_
  · rw [store, schema_setRow, schema_setRow]
  · rw [store, nodeCount_setRow, nodeCount_setRow]
  · rw [store, Array.getElem?_modify, getElem?_columns_setRow, getElem?_columns_setRow, Row.store,
      Array.getElem?_setIfInBounds]
    have hi : i < r.cells.size := (Array.getElem?_eq_some_iff.mp hx).1
    -- the column of the slot, or another one
    split
    · rename_i hij
      subst hij
      rw [Option.map_map, hx]
      congr 1
      funext column
      exact column.store_store v htype
    · rfl

/-- A cell is stored in values as it is stored in the row, with the same objections. -/
theorem enter_setRow (hv : v < values.nodeCount) (hr : r.Fits values.schema) (key : String)
    (c : Cell α) : (values.setRow v r).enter ⟨key, v, c⟩ = match r.locate key c.valueType with
      | .ok i => .ok (values.setRow v (r.store i c))
      | .error violation => .error (.violation violation) := by
  -- what is found in the values is what is found in the row of the vertex
  have hlocate : (values.setRow v r).locate key c.valueType v
      = ((values.setRow v r).row v).locate key c.valueType :=
    locate_eq_locate_row (by simpa using hv) key c.valueType
  rw [row_setRow_self hv hr.schema_eq hr.types_eq] at hlocate
  rw [enter, write, hlocate]
  cases hfound : r.locate key c.valueType with
  | error violation => rfl
  | ok i =>
    obtain ⟨x, hx, htype⟩ := Row.exists_of_locate hfound
    exact congrArg Except.ok (store_setRow hx htype.symm)

/-- Where a hook comes to, whoever stores its cells one by one comes to. -/
theorem storeAll_spec {p : Phase} (view : VertexView α) (hv : v < values.nodeCount)
    (hr : r.Fits values.schema) (cells : List (String × Cell α)) (effects : List (Effect α)) :
    (cells.map fun (key, c) => (⟨key, v, c⟩ : Entry α)).foldlM enter (values.setRow v r) =
      match (HookM.storeAll cells : HookM p α Unit) view ⟨r, effects⟩ with
      | .ok () s => .ok (values.setRow v s.row)
      | .error fault _ => .error fault := by
  -- the row that the hook has reached stands for the values that are reached cell by cell
  induction cells generalizing r with
  | nil => rfl
  | cons cell cells ih =>
    obtain ⟨key, c⟩ := cell
    rw [List.map_cons, List.foldlM_cons, enter_setRow hv hr, HookM.storeAll, HookM.bind_apply,
      HookM.write]
    cases hlocate : r.locate key c.valueType with
    | error violation => rfl
    | ok i => exact ih (hr.store hlocate)

/-- A slot that was found is that of the key, has the type, and has a cell for the vertex. -/
theorem indexOf?_of_locate {key : String} {type : ValueType} {i : Nat}
    (h : values.locate key type v = .ok i) : values.schema.indexOf? key = some i ∧
      values.columns[i]?.map Column.valueType = some type ∧ v < values.nodeCount := by
  -- a key without a slot finds nothing
  cases hindex : values.schema.indexOf? key with
  | none => simp [locate, hindex] at h
  | some j =>
    obtain ⟨rfl, hslot⟩ := (locate_eq_ok_iff hindex).mp h
    exact ⟨rfl, hslot⟩

/-- For a vertex that does not exist nothing is found, neither in the values nor in a row. -/
theorem locate_ne_ok_of_le (hv : values.nodeCount ≤ v) (key : String) (type : ValueType) (i : Nat) :
    values.locate key type v ≠ .ok i ∧ (values.row v).locate key type ≠ .ok i := by
  constructor
  · intro hfound
    have hlt := (indexOf?_of_locate hfound).2.2
    omega
  · intro hfound
    obtain ⟨x, hx, -⟩ := Row.exists_of_locate hfound
    rw [cells_row_of_le hv] at hx
    cases hx

/-- A hook that stores cells does what could be done cell by cell. -/
theorem carryOut_hook (p : Phase) (view : VertexView α) (cells : List (String × Cell α))
    (values' : NodeValues α) : values.carryOut (.hook p view cells) = .ok values' ↔
      (Writing.hook p view cells).entries.foldlM enter values = .ok values' := by
  -- with a vertex that exists, hook and history go in step
  by_cases hv : view.vertex < values.nodeCount
  · have hspec := storeAll_spec (p := p) { view with row := values.row view.vertex } hv
      (fits_row hv) cells []
    rw [setRow_row] at hspec
    rw [Writing.entries, hspec, carryOut, HookM.reply]
    dsimp only
    generalize HookM.storeAll cells _ _ = result
    cases result <;> rfl
  · cases cells with
    | nil =>
      change Except.ok (values.setRow view.vertex (values.row view.vertex)) = _ ↔ _
      rw [setRow_row]
      rfl
    | cons cell cells =>
      obtain ⟨key, c⟩ := cell
      -- the vertex does not exist, so the first cell is refused in the row and in the values
      have hnone := locate_ne_ok_of_le (Nat.le_of_not_lt hv) key c.valueType
      rw [carryOut, HookM.reply, HookM.storeAll, HookM.bind_apply, HookM.write, Writing.entries,
        List.map_cons, List.foldlM_cons, enter, write]
      cases hr : (values.row view.vertex).locate key c.valueType with
      | ok i => exact absurd hr (hnone i).2
      | error violation =>
        cases hw : values.locate key c.valueType view.vertex with
        | ok i => exact absurd hw (hnone i).1
        | error violation' =>
          constructor
          · intro h
            cases h
          · intro h
            cases h

/-- Either way to change values can be told cell by cell. -/
theorem carryOut_eq_ok_iff (w : Writing α) (values' : NodeValues α) :
    values.carryOut w = .ok values' ↔ w.entries.foldlM enter values = .ok values' := by
  cases w with
  | direct entry =>
    rw [carryOut, Writing.entries, List.foldlM_cons]
    cases values.enter entry <;> exact Iff.rfl
  | hook p view cells => exact carryOut_hook p view cells values'

/-- Any history can be told cell by cell. -/
theorem foldlM_carryOut_eq_ok_iff (history : List (Writing α)) (values' : NodeValues α) :
    history.foldlM carryOut values = .ok values' ↔
      (history.flatMap Writing.entries).foldlM enter values = .ok values' := by
  -- on the writings, each told cell by cell
  induction history generalizing values with
  | nil => rfl
  | cons w history ih =>
    rw [List.foldlM_cons, List.flatMap_cons, List.foldlM_append]
    -- the first writing goes through or fails either way
    cases hw : values.carryOut w with
    | ok next =>
      rw [(carryOut_eq_ok_iff w next).mp hw]
      exact ih
    | error fault =>
      cases hentries : w.entries.foldlM enter values with
      | ok next => cases hw.symm.trans ((carryOut_eq_ok_iff w next).mpr hentries)
      | error fault' => exact ⟨(nomatch ·), (nomatch ·)⟩

/-! ## One cell after the other -/

variable {entry : Entry α}

/-- A cell is stored in the place that is found for it. -/
theorem enter_eq_ok_iff {values' : NodeValues α} : values.enter entry = .ok values' ↔
    ∃ i, values.locate entry.key entry.cell.valueType entry.node = .ok i ∧
      values.store i entry.node entry.cell = values' := by
  rw [enter, write]
  cases values.locate entry.key entry.cell.valueType entry.node <;> simp

/-- A cell is stored exactly if it fits. -/
theorem exists_enter_iff (hkeys : values.schema.keys.Nodup) :
    (∃ values', values.enter entry = .ok values') ↔
      entry.Fits values.schema.elements values.nodeCount := by
  simp only [enter_eq_ok_iff]
  constructor
  · -- what was found is the slot of the key
    rintro ⟨-, i, hlocate, -⟩
    obtain ⟨hindex, htype, hv⟩ := indexOf?_of_locate hlocate
    obtain ⟨e, he, hkey⟩ : ∃ e, values.schema.elements[i]? = some e ∧ e.key = entry.key := by
      have hkey := (Schema.indexOf?_eq_some_iff.mp hindex).1
      rw [Schema.keys, List.getElem?_map] at hkey
      exact Option.map_eq_some_iff.mp hkey
    rw [valueType_columns, he, Option.map_some, Option.some_inj] at htype
    exact ⟨⟨e, List.mem_of_getElem? he, hkey, htype⟩, hv⟩
  · rintro ⟨⟨e, hmem, hkey, htype⟩, hv⟩
    -- a slot with the key is the one that is found
    obtain ⟨i, he⟩ := List.mem_iff_getElem?.mp hmem
    have hindex := Schema.nodup_keys_iff.mp hkeys i e he
    rw [hkey] at hindex
    refine ⟨_, i, (locate_eq_ok_iff hindex).mpr ⟨rfl, ?_, hv⟩, rfl⟩
    rw [valueType_columns, he, Option.map_some, htype]

/-- One cell is stored, and no other one changes. -/
theorem enter_spec (hkeys : values.schema.keys.Nodup) {values' : NodeValues α}
    (h : values.enter entry = .ok values') :
    values'.schema = values.schema ∧ values'.nodeCount = values.nodeCount ∧
      ∀ (i : Nat) (e : Element α) (v : Nat), values.schema.elements[i]? = some e →
        values'.slotCell? i v = if entry.key = e.key ∧ entry.node = v then some entry.cell
          else values.slotCell? i v := by
  obtain ⟨i, hlocate, rfl⟩ := enter_eq_ok_iff.mp h
  obtain ⟨hindex, htype, hv⟩ := indexOf?_of_locate hlocate
  refine ⟨rfl, rfl, fun j e w he => ?_⟩
  -- keys that differ mean slots that differ
  have hslot : j = i ↔ entry.key = e.key := by
    have hj := Schema.nodup_keys_iff.mp hkeys j e he
    constructor
    · rintro rfl
      have hkey := (Schema.indexOf?_eq_some_iff.mp hindex).1
      rw [Schema.getElem?_keys he, Option.some_inj] at hkey
      exact hkey.symm
    · intro hkey
      rw [hkey, hj] at hindex
      exact Option.some_inj.mp hindex
  rw [slotCell?_store hv htype]
  simp only [hslot, eq_comm]

/-- Cells that fit are stored, and each one stays until another one is stored in its place. -/
theorem foldlM_enter_spec (hkeys : values.schema.keys.Nodup) (entries : List (Entry α)) :
    ((∃ values', entries.foldlM enter values = .ok values') ↔
      ∀ entry ∈ entries, entry.Fits values.schema.elements values.nodeCount) ∧
    ∀ values', entries.foldlM enter values = .ok values' →
      values'.schema = values.schema ∧ values'.nodeCount = values.nodeCount ∧
        ∀ (i : Nat) (e : Element α) (v : Nat), values.schema.elements[i]? = some e →
          values'.slotCell? i v = (Writing.last? entries e.key v).or (values.slotCell? i v) := by
  -- the first cell is stored in `values`, the others in what comes of that
  induction entries generalizing values with
  | nil =>
    refine ⟨⟨fun _ => List.forall_mem_nil _, fun _ => ⟨values, rfl⟩⟩, fun values' h => ?_⟩
    obtain rfl := Except.ok.inj h
    exact ⟨rfl, rfl, fun i e v _ => rfl⟩
  | cons entry entries ih =>
    rw [List.forall_mem_cons, ← exists_enter_iff hkeys, List.foldlM_cons]
    cases henter : values.enter entry with
    | error fault =>
      refine ⟨⟨?_, ?_⟩, fun _ h => nomatch h⟩
      · rintro ⟨_, h⟩
        cases h
      · rintro ⟨⟨_, h⟩, -⟩
        cases h
    | ok next =>
      obtain ⟨hschema, hcount, hnext⟩ := enter_spec hkeys henter
      have hkeys' : next.schema.keys.Nodup := hschema ▸ hkeys
      obtain ⟨hsucceeds, hcells⟩ := ih hkeys'
      rw [hschema, hcount] at hsucceeds
      refine ⟨?_, fun values' h => ?_⟩
      · exact hsucceeds.trans ⟨fun h => ⟨⟨next, rfl⟩, h⟩, fun h => h.2⟩
      · obtain ⟨hschema', hcount', hlast⟩ := hcells values' h
        refine ⟨hschema'.trans hschema, hcount'.trans hcount, fun i e v he => ?_⟩
        rw [hlast i e v (hschema ▸ he), hnext i e v he, Writing.last?_cons]
        -- this cell counts if no later one was stored in its place
        split <;> simp

end NodeValues

/-! ## Reading -/

/-- Whoever reads the values of a vertex, by the accessor for a type, reads its row. -/
theorem Row.get_row {values : NodeValues α} {v : Nat} (hv : v < values.nodeCount)
    (type : ValueType) (key : String) : (values.row v).get type key = values.get type key v := by
  cases type with
  | long => rw [Row.get, NodeValues.get, NodeValues.long_eq_long_row hv]
  | double => rw [Row.get, NodeValues.get, NodeValues.double_eq_double_row hv]
  | longArray =>
    rw [Row.get, NodeValues.get, Row.longArray, NodeValues.longArray,
      NodeValues.cell_eq_cell_row hv]
  | doubleArray =>
    rw [Row.get, NodeValues.get, Row.doubleArray, NodeValues.doubleArray,
      NodeValues.cell_eq_cell_row hv]

/-- Every slot starts with its initial value. -/
theorem NodeValues.slotCell?_allocate [Scalar α] {schema : Schema α} {n i v : Nat} {e : Element α}
    (he : schema.elements[i]? = some e) (hv : v < n) :
    (allocate schema n).slotCell? i v = some e.initialCell := by
  have hcolumn : (allocate schema n).columns[i]? = some (Column.allocate e n) := by
    rw [allocate, List.getElem?_toArray, List.getElem?_map, he]
    rfl
  rw [slotCell?, hcolumn]
  exact Column.cell?_allocate e hv

/-- A cell of a slot has the type of the slot. -/
theorem NodeValues.valueType_of_slotCell? {values : NodeValues α} {i v : Nat} {e : Element α}
    {c : Cell α} (he : values.schema.elements[i]? = some e) (hc : values.slotCell? i v = some c) :
    c.valueType = e.valueType := by
  obtain ⟨column, hcolumn, hcell⟩ := Option.bind_eq_some_iff.mp hc
  have htype := values.valueType_columns i
  rw [hcolumn, he, Option.map_some, Option.map_some, Option.some_inj] at htype
  rw [Column.valueType_of_cell? hcell, htype]

/-- Values are what was stored last. Let a schema be built of some slots, let there be `n` vertices,
and let cells be stored by whoever holds the values and by hooks, in any order. Everything is stored
exactly if each cell has the type of the slot that its key means, and is for a vertex that exists.
Then reading a key for a vertex, by the accessor for its type, gives what was stored last under this
key for this vertex, or the initial value of the slot if nothing was, and so does reading the row
that a hook of the vertex is handed. -/
theorem values_keep_what_was_stored [Scalar α] {elements : List (Element α)} {schema : Schema α}
    (hbuild : Schema.build elements = .ok schema) (n : Nat) (history : List (Writing α)) :
    ((∃ values, history.foldlM NodeValues.carryOut (.allocate schema n) = .ok values) ↔
      ∀ entry ∈ history.flatMap Writing.entries, entry.Fits elements n) ∧
    ∀ values, history.foldlM NodeValues.carryOut (.allocate schema n) = .ok values →
      ∀ e ∈ elements, ∀ v < n,
        let c := (Writing.last? (history.flatMap Writing.entries) e.key v).getD e.initialCell
        values.get e.valueType e.key v = .ok c ∧ (values.row v).get e.valueType e.key = .ok c := by
  obtain ⟨hkeys, rfl⟩ := Schema.build_eq_ok_iff.mp hbuild
  simp only [NodeValues.foldlM_carryOut_eq_ok_iff]
  have hallocated : (NodeValues.allocate ⟨elements⟩ n).schema.keys.Nodup := hkeys
  obtain ⟨hsucceeds, hcells⟩ :=
    NodeValues.foldlM_enter_spec hallocated (history.flatMap Writing.entries)
  refine ⟨hsucceeds, fun values h e hmem v hv => ?_⟩
  obtain ⟨hschema, hcount, hlast⟩ := hcells values h
  obtain ⟨i, he⟩ := List.mem_iff_getElem?.mp hmem
  have hcell := hlast i e v he
  rw [NodeValues.slotCell?_allocate he hv, Option.or_some] at hcell
  have hslot : values.schema.elements[i]? = some e := by
    rw [hschema]
    exact he
  -- no two slots have the same key, so the key leads to the slot of `e`
  have hindex : values.schema.indexOf? e.key = some i := by
    rw [hschema]
    exact Schema.nodup_keys_iff.mp hkeys i e he
  have htype := NodeValues.valueType_of_slotCell? hslot hcell
  have hget := (NodeValues.cell_eq_ok_iff hindex).mpr ⟨hcell, htype⟩
  rw [← NodeValues.get_eq_cell] at hget
  have hrow : v < values.nodeCount := hcount ▸ hv
  exact ⟨hget, (Row.get_row hrow e.valueType e.key).trans hget⟩

namespace TwoPages

/-- A number that starts at 7 and a list. -/
def elements : List (Element Exact) :=
  [.long "level" 7 .visible, .plain "path" .longArray .visible]

def view (vertex : Nat) : VertexView Exact :=
  ⟨.complete 20000, Relay.config false false, 0, vertex, ⟨.empty, #[]⟩, [], .fresh⟩

/-- Cells of the last vertex of a page and of the first one of the next. -/
def history : List (Writing Exact) :=
  [.direct ⟨"level", 16384, .long 3⟩,
    .hook .compute (view 16383) [("path", .longArray (some #[1, 2])), ("level", .long 5)],
    .direct ⟨"level", 16383, .long 6⟩]

end TwoPages

/-- Two vertices side by side on different pages, one of which is written twice. -/
theorem values_keep_what_was_stored_twoPages :
    ∃ values, TwoPages.history.foldlM NodeValues.carryOut (.allocate ⟨TwoPages.elements⟩ 20000)
        = .ok values ∧
      values.get .long "level" 16383 = .ok (.long 6) ∧
      values.get .long "level" 16384 = .ok (.long 3) ∧
      values.get .long "level" 0 = .ok (.long 7) ∧
      (values.row 16383).get .longArray "path" = .ok (.longArray (some #[1, 2])) ∧
      (values.row 16384).get .longArray "path" = .ok (.longArray none) := by
  have hbuild : Schema.build TwoPages.elements = .ok ⟨TwoPages.elements⟩ := rfl
  obtain ⟨hsucceeds, hread⟩ := values_keep_what_was_stored hbuild 20000 TwoPages.history
  -- all three writings name slots and vertices that exist
  obtain ⟨values, hvalues⟩ := hsucceeds.mpr (by
    simp [TwoPages.history, TwoPages.elements, TwoPages.view, Writing.entries, Entry.Fits,
      Element.long, Element.plain, Cell.valueType])
  have hlevel := hread values hvalues _ (List.mem_cons_self ..)
  have hpath := hread values hvalues _ (List.mem_cons_of_mem _ (List.mem_cons_self ..))
  exact ⟨values, hvalues, (hlevel 16383 (by omega)).1, (hlevel 16384 (by omega)).1,
    (hlevel 0 (by omega)).1, (hpath 16383 (by omega)).2, (hpath 16384 (by omega)).2⟩

end Superstep
