/-!
# Id tables

A graph whose vertices were loaded under arbitrary 64-bit ids numbers them in ascending order of
id. `IdTable` is the ascending list of the ids: the id of vertex `v` is the entry at `v`, and the
vertex of an id is its position, found by bisection.

* `mem_ofList`            the table of a list has the ids of the list
* `node?_eq_some_iff`     bisection finds the position of an id, and nothing else
-/

namespace Superstep

/-- Puts an id in front of a list, unless the list starts with it. -/
def consDistinct (id : UInt64) : List UInt64 → List UInt64
  | [] => [id]
  | next :: later => if id = next then next :: later else id :: next :: later

/-- The ids in a list, ascending, each entered once. -/
def ascendingIds (ids : List UInt64) : List UInt64 :=
  (ids.mergeSort (· ≤ ·)).foldr consDistinct []

/-- An id is a member once it was put in front, whether or not it was there before. -/
@[simp] theorem mem_consDistinct {id x : UInt64} {ids : List UInt64} :
    x ∈ consDistinct id ids ↔ x = id ∨ x ∈ ids := by
  cases ids with
  | nil => simp [consDistinct]
  | cons next later =>
    rw [consDistinct]
    split
    · rename_i h
      simp [h]
    · simp

/-- Leaving repetitions out loses no id. -/
theorem mem_foldr_consDistinct {x : UInt64} (ids : List UInt64) :
    x ∈ ids.foldr consDistinct [] ↔ x ∈ ids := by
  induction ids with
  | nil => simp
  | cons id ids ih => simp [ih]

/-- A smaller or equal id in front keeps ids ascending without repetition. -/
theorem pairwise_consDistinct {id : UInt64} {ids : List UInt64} (hid : ∀ x ∈ ids, id ≤ x)
    (hids : ids.Pairwise (· < ·)) : (consDistinct id ids).Pairwise (· < ·) := by
  cases ids with
  | nil => simp [consDistinct]
  | cons next later =>
    rw [consDistinct]
    split
    · exact hids
    · rename_i hne
      have hlt : id < next := UInt64.lt_of_le_of_ne (hid next (by simp)) hne
      refine List.pairwise_cons.2 ⟨fun x hx => ?_, hids⟩
      rcases List.mem_cons.1 hx with rfl | hx
      · exact hlt
      · exact UInt64.lt_trans hlt ((List.pairwise_cons.1 hids).1 x hx)

/-- Sorted ids ascend strictly once repetitions are left out. -/
theorem pairwise_foldr_consDistinct {ids : List UInt64} (h : ids.Pairwise (· ≤ ·)) :
    (ids.foldr consDistinct []).Pairwise (· < ·) := by
  induction ids with
  | nil => exact List.Pairwise.nil
  | cons id ids ih =>
    obtain ⟨hid, hids⟩ := List.pairwise_cons.1 h
    exact pairwise_consDistinct (fun x hx => hid x ((mem_foldr_consDistinct ids).1 hx)) (ih hids)

/-- The ids of a table ascend strictly. -/
theorem pairwise_ascendingIds (ids : List UInt64) : (ascendingIds ids).Pairwise (· < ·) := by
  apply pairwise_foldr_consDistinct
  have h : (ids.mergeSort fun a b => decide (a ≤ b)).Pairwise fun a b => decide (a ≤ b) = true :=
    List.pairwise_mergeSort
      (fun a b c hab hbc => by
        simp only [decide_eq_true_eq] at *
        exact UInt64.le_trans hab hbc)
      (fun a b => by simpa using UInt64.le_total a b) ids
  exact h.imp fun hab => by simpa using hab

/-- The ids of a graph's vertices. -/
structure IdTable where
  ids : Array UInt64
  /-- The ids ascend, so that no id occurs twice. -/
  ascending : ids.toList.Pairwise (· < ·)
  deriving Repr, DecidableEq

namespace IdTable

/-- The table of the ids in a list, each entered once. -/
def ofList (ids : List UInt64) : IdTable := ⟨(ascendingIds ids).toArray, pairwise_ascendingIds ids⟩

/-- Number of ids. -/
def size (t : IdTable) : Nat := t.ids.size

/-- The id of a vertex. -/
def id? (t : IdTable) (node : Nat) : Option UInt64 := t.ids[node]?

/-- The position of `id` among the positions `low … high - 1`, if it is there. -/
def search (t : IdTable) (id : UInt64) (low high : Nat) : Option Nat :=
  if low < high then
    let middle := (low + high) / 2
    match t.ids[middle]? with
    | none => none
    | some x =>
      if x = id then some middle
      else if x < id then search t id (middle + 1) high
      else search t id low middle
  else none
termination_by high - low

/-- The vertex of an id. -/
def node? (t : IdTable) (id : UInt64) : Option Nat := t.search id 0 t.size

/-- The table has the ids of the list that it was made from. -/
@[simp] theorem mem_ofList {id : UInt64} {ids : List UInt64} :
    id ∈ (ofList ids).ids ↔ id ∈ ids := by
  simp [ofList, ascendingIds, mem_foldr_consDistinct]

/-- Greater vertices have greater ids. -/
theorem lt_of_id? (t : IdTable) {v w : Nat} {x y : UInt64} (hx : t.id? v = some x)
    (hy : t.id? w = some y) (h : v < w) : x < y := by
  obtain ⟨hv, rfl⟩ := Array.getElem?_eq_some_iff.1 hx
  obtain ⟨hw, rfl⟩ := Array.getElem?_eq_some_iff.1 hy
  exact List.pairwise_iff_getElem.1 t.ascending v w (by simpa using hv) (by simpa using hw) h

/-- No two vertices have one id. -/
theorem id?_inj (t : IdTable) {v w : Nat} {x : UInt64} (hv : t.id? v = some x)
    (hw : t.id? w = some x) : v = w := by
  rcases Nat.lt_trichotomy v w with h | h | h
  · exact absurd (t.lt_of_id? hv hw h) (UInt64.lt_irrefl x)
  · exact h
  · exact absurd (t.lt_of_id? hw hv h) (UInt64.lt_irrefl x)

/-- Bisection finds a position of `id` between its bounds, and fails if there is none. -/
theorem search_eq_some_iff (t : IdTable) (id : UInt64) (low high v : Nat) (hhigh : high ≤ t.size) :
    t.search id low high = some v ↔ low ≤ v ∧ v < high ∧ t.id? v = some id := by
  fun_induction search t id low high with
  | case1 low high hlt middle hnone =>
    have hmiddle : middle < t.ids.size := by simp only [size] at hhigh; omega
    rw [Array.getElem?_eq_getElem hmiddle] at hnone
    contradiction
  | case2 low high hlt middle hid =>
    constructor
    · intro h
      rw [← Option.some.inj h]
      exact ⟨by omega, by omega, hid⟩
    · rintro ⟨-, -, hv⟩
      rw [t.id?_inj hv hid]
  | case3 low high hlt middle x hx hne hless ih =>
    rw [ih hhigh]
    constructor
    · rintro ⟨hlow, hv⟩
      exact ⟨by omega, hv⟩
    · rintro ⟨hlow, hv, hid⟩
      refine ⟨?_, hv, hid⟩
      -- up to the middle, ids are too small
      rcases Nat.lt_trichotomy v middle with h | rfl | h
      · exact absurd hless (UInt64.lt_asymm (t.lt_of_id? hid hx h))
      · exact absurd (Option.some.inj (hx.symm.trans hid)) hne
      · exact h
  | case4 low high hlt middle x hx hne hless ih =>
    rw [ih (by omega)]
    constructor
    · rintro ⟨hlow, hv, hid⟩
      exact ⟨hlow, by omega, hid⟩
    · rintro ⟨hlow, hv, hid⟩
      refine ⟨hlow, ?_, hid⟩
      -- from the middle on, ids are too large
      rcases Nat.lt_trichotomy v middle with h | rfl | h
      · exact h
      · exact absurd (Option.some.inj (hx.symm.trans hid)) hne
      · exact absurd (t.lt_of_id? hx hid h) hless
  | case5 low high hlt =>
    constructor
    · intro h
      contradiction
    · rintro ⟨hlow, hv, -⟩
      omega

/-- The vertex of an id is the one whose id it is. -/
theorem node?_eq_some_iff (t : IdTable) {id : UInt64} {v : Nat} :
    t.node? id = some v ↔ t.id? v = some id := by
  rw [node?, search_eq_some_iff t id 0 t.size v (Nat.le_refl _)]
  constructor
  · exact fun h => h.2.2
  · exact fun h => ⟨Nat.zero_le _, (Array.getElem?_eq_some_iff.1 h).1, h⟩

end IdTable

end Superstep
