import Mathlib
import Superstep.Proofs.NodeValues
import Superstep.Proofs.Json.Settings

/-!
# Slots and their names

Whoever reads or writes a vertex's value names a slot by its key, and the first slot of that name is
meant. So all slots of a schema can be named exactly if their keys differ (`Schema.Addressable`),
and then a public key stands for a public slot. A schema that is built slot by slot has different
keys, for a key that is taken is refused. A schema that is read from a text need not: its keys are
not looked at, and of two slots with one key the later one can be neither read nor written. If the
earlier one is private, its values are what the public key stands for.

## Key results

- `Schema.build_eq_ok_iff`: which slots make a schema
- `Schema.indexOf?_eq_some_iff`: the slot that a key means
- `NodeValues.reaches_indexOf?`: every accessor goes to that slot
- `Schema.addressable_iff`: all slots can be named exactly if the keys differ
- `slots_addressable`: all of it, for schemas that are built and schemas that are read
-/

namespace Superstep

variable {α : Type}

namespace Schema

/-- Names of the slots, in order. -/
def keys (s : Schema α) : List String := s.elements.map (·.key)

/-! ## Building a schema -/

/-- A slot is added unless its key is taken, and goes to the end. -/
theorem add_eq_ok_iff {s t : Schema α} {e : Element α} :
    s.add e = .ok t ↔ e.key ∉ s.keys ∧ t = ⟨s.elements ++ [e]⟩ := by
  -- what the builder looks for is the key
  have htaken : (s.elements.any (·.key == e.key) = true) ↔ e.key ∈ s.keys := by
    simp [keys]
  rw [add]
  by_cases hkey : e.key ∈ s.keys
  · rw [if_pos (htaken.mpr hkey)]
    simp [hkey]
  · rw [if_neg fun h => hkey (htaken.mp h)]
    simp [hkey, eq_comm]

/-- Slots are added one after the other exactly if no key comes twice. -/
theorem foldlM_add_eq_ok_iff {s t : Schema α} {elements : List (Element α)} (hs : s.keys.Nodup) :
    elements.foldlM add s = .ok t ↔
      (s.keys ++ elements.map (·.key)).Nodup ∧ t = ⟨s.elements ++ elements⟩ := by
  induction elements generalizing s with
  | nil => simp [hs, pure, Except.pure, eq_comm]
  | cons e elements ih =>
    rw [List.foldlM_cons]
    cases hadd : s.add e with
    | error v =>
      -- the key is taken, and stays taken
      have hkey : e.key ∈ s.keys := by
        by_contra hfresh
        cases hadd.symm.trans (add_eq_ok_iff.mpr ⟨hfresh, rfl⟩)
      have htwice : ¬(s.keys ++ (e :: elements).map (·.key)).Nodup := fun h =>
        (List.nodup_append.mp h).2.2 _ hkey _ (List.mem_cons_self ..) rfl
      simp only [htwice, false_and, iff_false]
      intro hok
      cases hok
    | ok next =>
      obtain ⟨hfresh, rfl⟩ := add_eq_ok_iff.mp hadd
      have hkeys : (⟨s.elements ++ [e]⟩ : Schema α).keys = s.keys ++ [e.key] := by simp [keys]
      have hnext : (s.keys ++ [e.key]).Nodup :=
        List.nodup_append.mpr ⟨hs, List.nodup_singleton _, by
          simpa using fun key hkey (heq : key = e.key) => hfresh (heq ▸ hkey)⟩
      have hrest := ih (s := ⟨s.elements ++ [e]⟩) (hkeys ▸ hnext)
      rw [hkeys] at hrest
      show elements.foldlM add ⟨s.elements ++ [e]⟩ = .ok t ↔ _
      simpa using hrest

/-- A schema is built exactly of slots whose keys differ. -/
theorem build_eq_ok_iff {elements : List (Element α)} {s : Schema α} :
    build elements = .ok s ↔ (elements.map (·.key)).Nodup ∧ s = ⟨elements⟩ := by
  have hempty : (empty : Schema α).keys.Nodup := List.nodup_nil
  rw [build, foldlM_add_eq_ok_iff hempty]
  rfl

/-- Where adding slots fails, the key of one of them is named. -/
theorem foldlM_add_eq_error {s : Schema α} {elements : List (Element α)} {v : Violation}
    (h : elements.foldlM add s = .error v) : ∃ e ∈ elements, v = .duplicateKey e.key := by
  induction elements generalizing s with
  | nil => cases h
  | cons e elements ih =>
    rw [List.foldlM_cons] at h
    -- refused now, or later
    cases hadd : s.add e with
    | error w =>
      rw [hadd] at h
      cases h
      rw [add] at hadd
      split at hadd
      · cases hadd
        exact ⟨e, List.mem_cons_self .., rfl⟩
      · cases hadd
    | ok next =>
      rw [hadd] at h
      obtain ⟨other, hother, hv⟩ := ih (s := next) h
      exact ⟨other, List.mem_cons_of_mem _ hother, hv⟩

/-- Slots of which two have one key are refused. -/
theorem build_eq_error {elements : List (Element α)} (h : ¬(elements.map (·.key)).Nodup) :
    ∃ e ∈ elements, build elements = .error (.duplicateKey e.key) := by
  cases hbuild : build elements with
  | ok s => exact absurd (build_eq_ok_iff.mp hbuild).1 h
  | error v =>
    obtain ⟨e, he, rfl⟩ := foldlM_add_eq_error hbuild
    exact ⟨e, he, rfl⟩

/-! ## The slot that a key means -/

/-- The slots have their keys in the same order. -/
theorem getElem?_keys {s : Schema α} {i : Nat} {e : Element α} (h : s.elements[i]? = some e) :
    s.keys[i]? = some e.key := by
  simp [keys, h]

/-- A key means the first slot that has it. -/
theorem indexOf?_eq_some_iff {s : Schema α} {key : String} {i : Nat} :
    s.indexOf? key = some i ↔ s.keys[i]? = some key ∧ ∀ j < i, s.keys[j]? ≠ some key := by
  have hkeys (j : Nat) (hj : j < s.elements.length) :
      s.keys[j]? = some key ↔ (s.elements[j].key == key) = true := by
    simp [getElem?_keys (List.getElem?_eq_getElem hj)]
  rw [indexOf?, List.findIdx?_eq_some_iff_getElem]
  constructor
  · rintro ⟨hi, hkey, hbefore⟩
    exact ⟨(hkeys i hi).mpr hkey, fun j hj h => hbefore j hj ((hkeys j (hj.trans hi)).mp h)⟩
  · rintro ⟨hkey, hbefore⟩
    have hi : i < s.elements.length := by
      obtain ⟨hlt, -⟩ := List.getElem?_eq_some_iff.mp hkey
      simpa [keys] using hlt
    exact ⟨hi, (hkeys i hi).mp hkey, fun j hj h => hbefore j hj ((hkeys j (hj.trans hi)).mpr h)⟩

/-- A key of the schema means the first slot that has it. -/
theorem exists_indexOf?_of_getElem? {s : Schema α} {key : String} {i : Nat}
    (h : s.keys[i]? = some key) : ∃ j ≤ i, s.indexOf? key = some j := by
  have hmem : (s.indexOf? key).isSome = true := by
    obtain ⟨e, he, hkey⟩ := List.mem_map.mp (List.mem_of_getElem? h)
    rw [indexOf?, List.findIdx?_isSome, List.any_eq_true]
    exact ⟨e, he, by simpa using hkey⟩
  obtain ⟨j, hj⟩ := Option.isSome_iff_exists.mp hmem
  refine ⟨j, ?_, hj⟩
  by_contra hlt
  exact (indexOf?_eq_some_iff.mp hj).2 i (by omega) h

/-- Exactly if the keys differ, every slot is the one that its key means. -/
theorem nodup_keys_iff {s : Schema α} : s.keys.Nodup ↔
    ∀ (i : Nat) (e : Element α), s.elements[i]? = some e → s.indexOf? e.key = some i := by
  rw [List.nodup_iff_getElem?_ne_getElem?]
  constructor
  · -- the slot itself is the first one with its key
    intro hne i e he
    have hkey := getElem?_keys he
    obtain ⟨hlt, -⟩ := List.getElem?_eq_some_iff.mp hkey
    rw [indexOf?_eq_some_iff]
    exact ⟨hkey, fun j hj hsame => hne j i hj hlt (hsame.trans hkey.symm)⟩
  · intro hindex i j hij hlt hsame
    have hj : j < s.elements.length := by simpa [keys] using hlt
    have hget := List.getElem?_eq_getElem hj
    -- the earlier slot of the same key is the one that is meant
    have hearlier := (indexOf?_eq_some_iff.mp (hindex j _ hget)).2 i hij
    exact hearlier (hsame.trans (getElem?_keys hget))

end Schema

/-! ## Access to a slot -/

/-- A column has cells for its vertices only. -/
theorem Column.lt_size_of_cell? {c : Column α} {v : Nat} {x : Cell α} (h : c.cell? v = some x) :
    v < c.size := by
  cases c <;>
  · obtain ⟨y, hy, -⟩ := Option.map_eq_some_iff.mp h
    exact (PagedArray.isSome_get? _).mp (Option.isSome_of_eq_some hy)

namespace NodeValues

/-- The cell of a vertex in a slot, if there are such a vertex and such a slot. -/
def slotCell? (values : NodeValues α) (i v : Nat) : Option (Cell α) :=
  values.columns[i]?.bind (·.cell? v)

/-- Who names a key reads and writes a given slot. -/
structure Reaches (values : NodeValues α) (key : String) (i : Nat) : Prop where
  valueType : values.valueType? key = values.schema.elements[i]?.map (·.valueType)
  /-- There is something to read for every vertex. -/
  holds (v : Nat) (type : ValueType) : v < values.nodeCount → values.valueType? key = some type →
    ∃ c, values.slotCell? i v = some c ∧ c.valueType = type
  long (v : Nat) (x : Int64) :
    values.long key v = .ok x ↔ values.slotCell? i v = some (.long x)
  double (v : Nat) (x : α) :
    values.double key v = .ok x ↔ values.slotCell? i v = some (.double x)
  longArray (v : Nat) (x : Option (Array Int64)) :
    values.longArray key v = .ok x ↔ values.slotCell? i v = some (.longArray x)
  doubleArray (v : Nat) (x : Option (Array α)) :
    values.doubleArray key v = .ok x ↔ values.slotCell? i v = some (.doubleArray x)
  /-- A cell of the slot's type is stored, for every vertex that there is. -/
  accepts (v : Nat) (c : Cell α) : (values.write key v c).1 = .ok () ↔
    values.schema.elements[i]?.map (·.valueType) = some c.valueType ∧ v < values.nodeCount
  /-- What is stored is in this slot and for this vertex. All other cells stay. -/
  stores (v : Nat) (c : Cell α) : (values.write key v c).1 = .ok () → ∀ j w,
    (values.write key v c).2.slotCell? j w
      = if j = i ∧ w = v then some c else values.slotCell? j w

variable {values : NodeValues α} {key : String} {i : Nat}

/-- The columns have the types of the slots. -/
theorem valueType_columns (values : NodeValues α) (i : Nat) :
    values.columns[i]?.map Column.valueType = values.schema.elements[i]?.map (·.valueType) := by
  have htypes := congrArg (fun shapes => (shapes.map Prod.fst)[i]?) values.shape
  simpa [List.map_map, Function.comp_def] using htypes

/-- Every vertex has a cell in every slot. -/
theorem exists_slotCell? {v : Nat} (hv : v < values.nodeCount) {type : ValueType}
    (htype : values.columns[i]?.map Column.valueType = some type) :
    ∃ x, values.slotCell? i v = some x ∧ x.valueType = type := by
  obtain ⟨column, hcolumn, rfl⟩ := Option.map_eq_some_iff.mp htype
  have hsize := size_of_mem_columns (Array.mem_of_getElem? hcolumn)
  obtain ⟨x, hx⟩ := Option.isSome_iff_exists.mp (column.isSome_cell? (by omega : v < column.size))
  refine ⟨x, ?_, Column.valueType_of_cell? hx⟩
  rw [slotCell?, hcolumn, Option.bind_some, hx]

/-- Storing a cell of the slot's type changes that cell and no other. -/
theorem slotCell?_store {c : Cell α} {v : Nat} (hv : v < values.nodeCount)
    (htype : values.columns[i]?.map Column.valueType = some c.valueType) (j w : Nat) :
    (values.store i v c).slotCell? j w
      = if j = i ∧ w = v then some c else values.slotCell? j w := by
  rw [slotCell?, slotCell?, store, Array.getElem?_modify]
  -- another slot stays, and so does another vertex of this one
  by_cases hj : i = j
  · subst hj
    obtain ⟨column, hcolumn, hsame⟩ := Option.map_eq_some_iff.mp htype
    have hsize := size_of_mem_columns (Array.mem_of_getElem? hcolumn)
    rw [if_pos rfl, hcolumn, Option.map_some, Option.bind_some, Option.bind_some]
    by_cases hw : w = v
    · subst hw
      rw [if_pos ⟨rfl, rfl⟩]
      exact column.cell?_store_self (by omega) hsame.symm
    · rw [if_neg fun h => hw h.2]
      exact column.cell?_store_of_ne (Ne.symm hw) c
  · rw [if_neg hj, if_neg fun h => hj h.1.symm]

/-- The slot of a key is found if it has the type and there is the vertex. -/
theorem locate_eq_ok_iff (hindex : values.schema.indexOf? key = some i) {type : ValueType}
    {v j : Nat} : values.locate key type v = .ok j ↔
      j = i ∧ values.columns[i]?.map Column.valueType = some type ∧ v < values.nodeCount := by
  rw [locate, hindex]
  dsimp only
  cases hcolumn : values.columns[i]? with
  | none => simp
  | some column =>
    by_cases htype : column.valueType = type
    · by_cases hv : v < values.nodeCount
      · simp [htype, hv, eq_comm]
      · simp [htype, hv]
    · simp [htype]

/-- A cell is read exactly if the slot of the key has it, and it is of the type asked for. -/
theorem cell_eq_ok_iff (hindex : values.schema.indexOf? key = some i) {type : ValueType} {v : Nat}
    {c : Cell α} :
    values.cell key type v = .ok c ↔ values.slotCell? i v = some c ∧ c.valueType = type := by
  rw [cell]
  -- found, or refused
  cases hlocate : values.locate key type v with
  | ok j =>
    obtain ⟨rfl, htype, hv⟩ := (locate_eq_ok_iff hindex).mp hlocate
    obtain ⟨x, hx, hxtype⟩ := exists_slotCell? hv htype
    have hslot : values.columns[j]?.bind (·.cell? v) = some x := hx
    simp only [slotCell?, hslot, Except.ok.injEq, Option.some_inj]
    exact (and_iff_left_of_imp fun h => h ▸ hxtype).symm
  | error e =>
    simp only [reduceCtorEq, false_iff]
    rintro ⟨hslot, rfl⟩
    obtain ⟨column, hcolumn, hc⟩ := Option.bind_eq_some_iff.mp hslot
    -- such a cell would have been found
    have hv : v < values.nodeCount := by
      rw [← size_of_mem_columns (Array.mem_of_getElem? hcolumn)]
      exact Column.lt_size_of_cell? hc
    have htype : values.columns[i]?.map Column.valueType = some c.valueType := by
      rw [hcolumn, Option.map_some, Column.valueType_of_cell? hc]
    cases hlocate.symm.trans ((locate_eq_ok_iff hindex).mpr ⟨rfl, htype, hv⟩)

/-- Reading an integer is reading a cell that holds one. -/
theorem long_eq_ok_iff {v : Nat} {x : Int64} :
    values.long key v = .ok x ↔ values.cell key .long v = .ok (.long x) := by
  rw [long]
  split <;> simp_all

/-- Reading a number is reading a cell that holds one. -/
theorem double_eq_ok_iff {v : Nat} {x : α} :
    values.double key v = .ok x ↔ values.cell key .double v = .ok (.double x) := by
  rw [double]
  split <;> simp_all

/-- Reading an array of integers is reading a cell that holds one. -/
theorem longArray_eq_ok_iff {v : Nat} {x : Option (Array Int64)} :
    values.longArray key v = .ok x ↔ values.cell key .longArray v = .ok (.longArray x) := by
  rw [longArray]
  split <;> simp_all

/-- Reading an array of numbers is reading a cell that holds one. -/
theorem doubleArray_eq_ok_iff {v : Nat} {x : Option (Array α)} :
    values.doubleArray key v = .ok x ↔ values.cell key .doubleArray v = .ok (.doubleArray x) := by
  rw [doubleArray]
  split <;> simp_all

/-- Every accessor goes to the slot that the key means. -/
theorem reaches_indexOf? (hindex : values.schema.indexOf? key = some i) :
    values.Reaches key i where
  valueType := by
    rw [valueType?, column?, hindex, Option.bind_some, valueType_columns]
  holds v type hv htype := by
    rw [valueType?, column?, hindex, Option.bind_some] at htype
    exact exists_slotCell? hv htype
  long v x := by
    simp [long_eq_ok_iff, cell_eq_ok_iff hindex, Cell.valueType]
  double v x := by
    simp [double_eq_ok_iff, cell_eq_ok_iff hindex, Cell.valueType]
  longArray v x := by
    simp [longArray_eq_ok_iff, cell_eq_ok_iff hindex, Cell.valueType]
  doubleArray v x := by
    simp [doubleArray_eq_ok_iff, cell_eq_ok_iff hindex, Cell.valueType]
  accepts v c := by
    rw [← valueType_columns, write]
    cases hlocate : values.locate key c.valueType v with
    | ok j => simpa using ((locate_eq_ok_iff hindex).mp hlocate).2
    | error e =>
      simp only [reduceCtorEq, false_iff]
      intro hfits
      cases hlocate.symm.trans ((locate_eq_ok_iff hindex).mpr ⟨rfl, hfits⟩)
  stores v c := by
    rw [write]
    cases hlocate : values.locate key c.valueType v with
    | ok j =>
      obtain ⟨rfl, htype, hv⟩ := (locate_eq_ok_iff hindex).mp hlocate
      exact fun _ => slotCell?_store hv htype
    | error e => simp

end NodeValues

/-! ## Slots that can be named -/

namespace Schema

/-- Each slot is the one that its key means, and accessors that name the key go there. Each public
key is listed once and means a public slot. -/
structure Addressable (s : Schema α) : Prop where
  slots : ∀ (i : Nat) (e : Element α), s.elements[i]? = some e → s.indexOf? e.key = some i ∧
    ∀ values : NodeValues α, values.schema = s → values.Reaches e.key i
  publicKeys_nodup : s.publicKeys.Nodup
  publicKeys_visible : ∀ key ∈ s.publicKeys, ∃ (i : Nat) (e : Element α),
    s.elements[i]? = some e ∧ e.visibility = .visible ∧ s.indexOf? key = some i ∧
      ∀ values : NodeValues α, values.schema = s → values.Reaches key i

/-- All slots can be named exactly if their keys differ. -/
theorem addressable_iff {s : Schema α} : s.Addressable ↔ s.keys.Nodup := by
  constructor
  · intro h
    exact nodup_keys_iff.mpr fun i e he => (h.slots i e he).1
  · intro hkeys
    have hslots : ∀ (i : Nat) (e : Element α), s.elements[i]? = some e →
        s.indexOf? e.key = some i ∧
          ∀ values : NodeValues α, values.schema = s → values.Reaches e.key i := by
      intro i e he
      have hindex := nodup_keys_iff.mp hkeys i e he
      refine ⟨hindex, ?_⟩
      rintro values rfl
      exact NodeValues.reaches_indexOf? hindex
    -- public keys are some of the keys
    have hpublic : s.publicKeys.Sublist s.keys := List.filter_sublist.map _
    refine ⟨hslots, hkeys.sublist hpublic, fun key hkey => ?_⟩
    obtain ⟨e, he, rfl⟩ := List.mem_map.mp hkey
    obtain ⟨he, hvisible⟩ := List.mem_filter.mp he
    obtain ⟨i, hi⟩ := List.mem_iff_getElem?.mp he
    exact ⟨i, e, hi, beq_iff_eq.mp hvisible, hslots i e hi⟩

/-- Slots without scalar defaults are read from some text, whatever their keys. -/
theorem exists_deserialize?_eq_some (format : ScalarFormat α) {s : Schema α}
    (h : ∀ e ∈ s.elements, ∀ x, e.default ≠ some (.double x)) :
    ∃ text, deserialize? format text = some s := by
  -- no scalar has to be written
  let silent : ScalarFormat α := { format with write? := fun _ => none }
  have hsilent : silent.Faithful fun _ => false := {
    ofFinite := fun x hx => by cases hx
    ofInfinite := fun x _ => rfl }
  have hself : s.withFiniteDefaults (fun _ => false) = s :=
    withFiniteDefaults_eq_self_iff.mpr fun e he x hx => absurd hx (h e he x)
  refine ⟨s.serialize silent, ?_⟩
  have hread := deserialize?_serialize hsilent s
  rw [hself] at hread
  exact hread

end Schema

/-- All slots of a schema can be named exactly if their keys differ. So it is with every schema that
is built, for slots with a repeated key are refused. Reading refuses no key: slots of any keys are
read from some text. A key that is repeated means the first slot that has it, and accessors go
there. -/
theorem slots_addressable (format : ScalarFormat α) :
    (∀ s : Schema α, s.Addressable ↔ s.keys.Nodup) ∧
    (∀ elements (s : Schema α), Schema.build elements = .ok s →
      s.elements = elements ∧ s.Addressable) ∧
    (∀ elements : List (Element α), ¬(elements.map (·.key)).Nodup →
      ∃ e ∈ elements, Schema.build elements = .error (.duplicateKey e.key)) ∧
    (∀ s : Schema α, (∀ e ∈ s.elements, ∀ x, e.default ≠ some (.double x)) →
      ∃ text, Schema.deserialize? format text = some s) ∧
    ∀ (s : Schema α) (i : Nat) (e : Element α), s.elements[i]? = some e →
      ∃ j ≤ i, s.keys[j]? = some e.key ∧ (∀ k < j, s.keys[k]? ≠ some e.key) ∧
        ∀ values : NodeValues α, values.schema = s → values.Reaches e.key j := by
  have hbuilt (elements : List (Element α)) (s : Schema α) (h : Schema.build elements = .ok s) :
      s.elements = elements ∧ s.Addressable := by
    obtain ⟨hkeys, rfl⟩ := Schema.build_eq_ok_iff.mp h
    exact ⟨rfl, Schema.addressable_iff.mpr hkeys⟩
  have hfirst (s : Schema α) (i : Nat) (e : Element α) (he : s.elements[i]? = some e) :
      ∃ j ≤ i, s.keys[j]? = some e.key ∧ (∀ k < j, s.keys[k]? ≠ some e.key) ∧
        ∀ values : NodeValues α, values.schema = s → values.Reaches e.key j := by
    obtain ⟨j, hji, hindex⟩ := Schema.exists_indexOf?_of_getElem? (Schema.getElem?_keys he)
    obtain ⟨hj, hbefore⟩ := Schema.indexOf?_eq_some_iff.mp hindex
    refine ⟨j, hji, hj, hbefore, ?_⟩
    rintro values rfl
    exact NodeValues.reaches_indexOf? hindex
  exact ⟨fun s => Schema.addressable_iff, hbuilt, fun elements => Schema.build_eq_error,
    fun s => Schema.exists_deserialize?_eq_some format, hfirst⟩

/-- Two slots of different keys, and two of one key: the former are built. The latter are refused
and read nevertheless, and the key of the second of them means the first. -/
theorem slots_addressable_two :
    (∃ s : Schema Exact, Schema.build [.long "a" 7 .hidden, .long "b" 5 .visible] = .ok s ∧
      s.Addressable) ∧
    (∃ e : Element Exact, Schema.build [.long "a" 7 .hidden, .long "a" 5 .visible]
      = (.error (.duplicateKey e.key) : Except Violation (Schema Exact))) ∧
    ∃ text, ∃ s : Schema Exact, Schema.deserialize? .whole text = some s ∧
      s.elements.length = 2 ∧
        ∀ values : NodeValues Exact, values.schema = s → values.Reaches "a" 0 := by
  obtain ⟨-, hbuilt, hrefused, hread, hfirst⟩ := slots_addressable ScalarFormat.whole
  obtain ⟨e, -, herror⟩ := hrefused [.long "a" 7 .hidden, .long "a" 5 .visible] (by decide)
  obtain ⟨text, htext⟩ := hread ⟨[.long "a" 7 .hidden, .long "a" 5 .visible]⟩
    (by simp [Element.long])
  have hpair := (hbuilt [.long "a" 7 .hidden, .long "b" 5 .visible] _ rfl).2
  refine ⟨⟨_, rfl, hpair⟩, ⟨e, herror⟩, text, _, htext, rfl, ?_⟩
  obtain ⟨j, -, -, hbefore, hreaches⟩ :=
    hfirst ⟨[.long "a" 7 .hidden, .long "a" 5 .visible]⟩ 1 _ rfl
  -- the first slot has the key already
  have hj : j = 0 := by
    by_contra hne
    exact hbefore 0 (by omega) rfl
  exact hj ▸ hreaches

/-- A text of a private and a public slot of one key is read. The key is listed as public, and what
is read under it is the value of the private slot. -/
theorem repeated_key_read :
    ∃ s : Schema Exact, Schema.deserialize? .whole (Schema.serialize .whole
        ⟨[.long "a" 7 .hidden, .long "a" 5 .visible]⟩) = some s ∧
      ¬s.keys.Nodup ∧ ¬s.Addressable ∧ s.publicKeys = ["a"] ∧
      s.elements.map (fun e => (e.key, e.visibility, e.initialLong))
        = [("a", .hidden, 7), ("a", .visible, 5)] ∧
      (NodeValues.allocate s 1).long "a" 0 = .ok 7 := by
  refine ⟨⟨[.long "a" 7 .hidden, .long "a" 5 .visible]⟩, ?_, by decide, ?_, by decide, by decide,
    rfl⟩
  · rw [Schema.deserialize?_serialize ScalarFormat.faithful_whole]
    rfl
  · rw [Schema.addressable_iff]
    decide

end Superstep
