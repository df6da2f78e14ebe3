import Mathlib
import Superstep.Message.Reading
import Superstep.NodeValues.Operations
import Superstep.Proofs.SlotKeys
import Superstep.Proofs.Message.Stepwise

/-!
# Rejected requests leave no trace

Messengers, bit sets, paged arrays and the values of vertices reject a request that names something
which does not exist. Each of their operations is a sequence of effects, and the check comes before
the first of them. So an object is after a rejected request what it was before, and answers
everything that it is asked later as if that request had not been made (`RejectsCleanly`).

## Key results

- `RejectsCleanly.of_invariant`: from one request to any history
- `Messenger.rejectsCleanly`, `BitSet.rejectsCleanly`, `NodeValues.rejectsCleanly`
- `rejected_without_trace`: all objects
-/

namespace Superstep

variable {α : Type}

/-! ## Rejection -/

section

variable {σ ρ β : Type}

/-- An object rejects a request after others exactly if something is wrong with it, and says what
is. It is afterwards as it was, and nobody who asks it anything later notices. -/
structure RejectsCleanly (perform : σ → ρ → Except Violation β × σ) (start : σ)
    (fault? : List ρ → ρ → Option Violation) : Prop where
  rejects (before : List ρ) (request : ρ) (violation : Violation) :
    (perform (afterRequests perform start before) request).1 = .error violation ↔
      fault? before request = some violation
  unchanged (before : List ρ) (request : ρ) : fault? before request ≠ none →
    (perform (afterRequests perform start before) request).2
      = afterRequests perform start before
  unnoticed (before : List ρ) (request : ρ) (later : List ρ) : fault? before request ≠ none →
    answersTo perform (afterRequests perform start (before ++ [request])) later
      = answersTo perform (afterRequests perform start before) later

variable {perform : σ → ρ → Except Violation β × σ} {start : σ}
  {fault? : List ρ → ρ → Option Violation}

/-- The last request is performed on what the earlier ones left. -/
theorem afterRequests_concat (s : σ) (requests : List ρ) (request : ρ) :
    afterRequests perform s (requests ++ [request])
      = (perform (afterRequests perform s requests) request).2 :=
  List.foldl_concat ..

/-- What holds at the start and is kept by every request holds at any time. -/
theorem reached_afterRequests {Reached : List ρ → σ → Prop} (hstart : Reached [] start)
    (hnext : ∀ before s request, Reached before s →
      Reached (before ++ [request]) (perform s request).2) (before : List ρ) :
    Reached before (afterRequests perform start before) := by
  induction before using List.reverseRecOn with
  | nil => exact hstart
  | append_singleton before request ih =>
    rw [afterRequests_concat]
    exact hnext _ _ _ ih

/-- Where one request is rejected cleanly in every state that earlier requests lead to, an object
rejects cleanly at any time. -/
theorem RejectsCleanly.of_invariant (Reached : List ρ → σ → Prop) (hstart : Reached [] start)
    (hnext : ∀ before s request, Reached before s →
      Reached (before ++ [request]) (perform s request).2)
    (hfault : ∀ before s request violation, Reached before s →
      fault? before request = some violation → perform s request = (.error violation, s))
    (hanswer : ∀ before s request, Reached before s →
      fault? before request = none → ∃ b, (perform s request).1 = .ok b) :
    RejectsCleanly perform start fault? := by
  have hreached := reached_afterRequests hstart hnext
  -- a rejected request leaves the object as it was
  have hsame (before : List ρ) (request : ρ) (h : fault? before request ≠ none) :
      (perform (afterRequests perform start before) request).2
        = afterRequests perform start before := by
    obtain ⟨violation, hviolation⟩ := Option.ne_none_iff_exists'.mp h
    rw [hfault _ _ _ _ (hreached before) hviolation]
  refine ⟨fun before request violation => ?_, hsame, fun before request later h => ?_⟩
  · cases hcase : fault? before request with
    | none =>
      obtain ⟨b, hb⟩ := hanswer _ _ _ (hreached before) hcase
      simp [hb]
    | some violation' =>
      rw [hfault _ _ _ _ (hreached before) hcase]
      simp
  · -- so whatever follows starts from the same object
    rw [afterRequests_concat, hsame before request h]

end

/-! ## Messengers -/

namespace Messenger

/-- Whether the request frees the buffers. -/
def Request.isRelease : Request α → Bool
  | .release => true
  | _ => false

/-- Whether the request needs buffers. -/
def Request.needsBuffers : Request α → Bool
  | .prepare _ | .send _ _ | .receive _ | .hasMail _ => true
  | .pending | .nodeCount | .allocatedBytes | .release => false

/-- What is wrong with the vertex that a request names, if something is. -/
def vertexFault? (n : Nat) (reduces : Bool) : Request α → Option Violation
  | .send t _ => if t < n then none else some (if reduces then .index t n else .messageTarget t n)
  | .receive v | .hasMail v =>
    if v < n then none else some (if reduces then .bit v n else .index v n)
  | .prepare _ | .pending | .nodeCount | .allocatedBytes | .release => none

/-- What is wrong with a request to a messenger for `n` vertices after others, if something is: it
was released, or there is no such vertex. -/
def fault? (n : Nat) (reduces : Bool) (before : List (Request α)) (request : Request α) :
    Option Violation :=
  if before.any Request.isRelease then if request.needsBuffers then some .released else none
  else vertexFault? n reduces request

variable {n : Nat} {reduces : Bool} {m : Messenger α}

/-- What requests before leave of a messenger for `n` vertices. -/
def Reached (n : Nat) (reduces : Bool) (before : List (Request α)) (m : Messenger α) : Prop :=
  if before.any Request.isRelease then m = .released
  else m.Valid n ∧ m.reducer?.isSome = reduces

/-- A new messenger is valid and was not released. -/
theorem reached_create (n : Nat) (r : Option (Reducer α)) (isAsynchronous : Bool) :
    Reached n r.isSome [] (create n r isAsynchronous) :=
  ⟨valid_create n r isAsynchronous, congrArg _ (reducer?_create n r isAsynchronous)⟩

/-- A messenger in use stays in use until it is released. -/
theorem valid_perform (h : m.Valid n) {request : Request α} (hkept : request.isRelease = false) :
    (m.perform request).2.Valid n ∧ (m.perform request).2.reducer? = m.reducer? := by
  cases request with
  | prepare superstep =>
    rw [perform_prepare h]
    exact ⟨h.prepare superstep, reducer?_prepare m superstep⟩
  | send t x =>
    rw [perform_send h]
    -- a message that is refused is not posted
    split
    · rename_i ht
      exact ⟨h.post ht x, reducer?_post m t x⟩
    · exact ⟨h, rfl⟩
  | receive v =>
    rw [perform_receive h]
    -- nor is anything taken from a vertex that does not exist
    split
    · exact ⟨h.afterReceiving v, reducer?_afterReceiving m v⟩
    · exact ⟨h, rfl⟩
  | hasMail v =>
    rw [perform_eq]
    split <;> exact ⟨h, rfl⟩
  | pending | nodeCount | allocatedBytes => exact ⟨h, rfl⟩
  | release => cases hkept

/-- A messenger in use rejects requests for vertices that do not exist. -/
theorem rejection?_eq_vertexFault? (h : m.Valid n) (request : Request α) :
    m.rejection? request = vertexFault? n m.reducer?.isSome request := by
  obtain rfl := nodeCount_of_valid h
  cases m with
  | sync m | async m | reducing m => cases request <;> rfl
  | released => exact h.elim

/-- What a messenger rejects at any time. -/
theorem Reached.rejection?_eq {before : List (Request α)} (h : Reached n reduces before m)
    (request : Request α) : m.rejection? request = fault? n reduces before request := by
  rw [Reached] at h
  rw [fault?]
  -- after release only the buffers are missing
  by_cases hreleased : before.any Request.isRelease = true
  · rw [if_pos hreleased] at h ⊢
    subst h
    cases request <;> rfl
  · rw [if_neg hreleased] at h ⊢
    rw [rejection?_eq_vertexFault? h.1, h.2]

/-- Effect by effect or as a whole. -/
theorem Reached.performStepwise_eq {before : List (Request α)} (h : Reached n reduces before m)
    (request : Request α) : m.performStepwise request = m.perform request := by
  rw [Reached] at h
  split at h
  · rw [h, performStepwise_released]
  · exact Messenger.performStepwise_eq h.1 request

/-- A request leaves a messenger of the same kind, unless it is the release. -/
theorem Reached.performStepwise {before : List (Request α)} (h : Reached n reduces before m)
    (request : Request α) :
    Reached n reduces (before ++ [request]) (m.performStepwise request).2 := by
  rw [h.performStepwise_eq]
  rw [Reached] at h ⊢
  rw [List.any_append, List.any_cons, List.any_nil, Bool.or_false]
  -- a released messenger stays released
  by_cases hreleased : before.any Request.isRelease = true
  · rw [if_pos hreleased] at h
    subst h
    rw [hreleased, Bool.true_or, if_pos rfl]
    cases request <;> rfl
  · rw [if_neg hreleased] at h
    rw [Bool.eq_false_of_not_eq_true hreleased, Bool.false_or]
    -- one in use is released by this request or stays in use
    cases hkept : request.isRelease with
    | false =>
      obtain ⟨hvalid, hreducer⟩ := valid_perform h.1 hkept
      exact ⟨hvalid, hreducer ▸ h.2⟩
    | true => cases request <;> first | rfl | cases hkept

/-- Every messenger rejects cleanly, those that were released too. -/
theorem rejectsCleanly (n : Nat) (r : Option (Reducer α)) (isAsynchronous : Bool) :
    RejectsCleanly performStepwise (create n r isAsynchronous) (fault? n r.isSome) := by
  -- what earlier requests leave is the invariant, and rejections are read off it
  refine .of_invariant (Reached n r.isSome) (reached_create n r isAsynchronous)
    (fun before m request h => h.performStepwise request)
    (fun before m request violation h hviolation => ?_) (fun before m request h hnone => ?_)
  · rw [h.performStepwise_eq, Messenger.perform, h.rejection?_eq, hviolation]
  · rw [h.performStepwise_eq, Messenger.perform, h.rejection?_eq, hnone]
    exact ⟨_, rfl⟩

end Messenger

/-! ## Bit sets and arrays -/

/-- What is wrong with the index that a request names, if it names one that is out of range. -/
def outOfRange? (violation : Nat → Nat → Violation) (size : Nat) (index? : Option Nat) :
    Option Violation :=
  index?.bind fun i => if i < size then none else some (violation i size)

/-- The index is checked first, and then the request is answered. -/
theorem BitSet.perform_eq (s : BitSet) (request : Request) :
    s.perform request = match outOfRange? .bit s.size request.bit? with
      | some violation => (.error violation, s)
      | none => (.ok (s.accept request).1, (s.accept request).2) := by
  rw [perform, outOfRange?]
  cases request.bit? with
  | none => rfl
  | some i =>
    dsimp only [Option.bind_some]
    split <;> rfl

/-- No request changes how many bits there are. -/
theorem BitSet.size_accept (s : BitSet) (request : Request) :
    (s.accept request).2.size = s.size := by
  cases request <;> simp [accept]

/-- Bit sets reject cleanly. -/
theorem BitSet.rejectsCleanly (size : Nat) : RejectsCleanly BitSet.perform (.empty size)
    fun _ request => outOfRange? .bit size request.bit? := by
  refine .of_invariant (fun _ s => s.size = size) rfl (fun _ s request h => ?_)
    (fun _ s request violation h hviolation => ?_) (fun _ s request h hnone => ?_)
  -- the size is the invariant, and all that a rejection depends on
  all_goals subst h; rw [perform_eq]
  · split
    · rfl
    · exact s.size_accept request
  · rw [hviolation]
  · rw [hnone]
    exact ⟨_, rfl⟩

namespace PagedArray

variable {β γ ρ : Type} {ω : Type}

/-- Changing a cell does not change how many there are. -/
theorem size_access (a : PagedArray β) (i : Nat) (f : β → γ × β) :
    (a.access i f).2.size = a.size := by
  rw [access]
  split <;> rfl

/-- An array rejects cleanly if every request that names an index only reads or replaces the cell
there, and every other one is answered. -/
theorem rejectsCleanly {perform : PagedArray β → ρ → Except Violation ω × PagedArray β}
    {index? : ρ → Option Nat} (start : PagedArray β)
    (hcell : ∀ a request i, index? request = some i →
      (∃ f : β → ω, perform a request = ((a.read i).map f, a)) ∨
      ∃ f : β → ω × β, perform a request = a.access i f)
    (hall : ∀ a request, index? request = none →
      (∃ answer, (perform a request).1 = .ok answer) ∧ (perform a request).2.size = a.size) :
    RejectsCleanly perform start
      fun _ request => outOfRange? .index start.size (index? request) := by
  refine .of_invariant (fun _ a => a.size = start.size) rfl (fun _ a request h => ?_)
    (fun _ a request violation h hviolation => ?_) (fun _ a request h hnone => ?_)
  · -- what keeps the size
    cases hi : index? request with
    | none => exact (hall a request hi).2.trans h
    | some i =>
      obtain ⟨f, hf⟩ | ⟨f, hf⟩ := hcell a request i hi
      · rw [hf, h]
      · rw [hf, size_access, h]
  · -- a request for a cell that is not there
    obtain ⟨i, hi, hrange⟩ := Option.bind_eq_some_iff.mp hviolation
    rw [← h] at hrange
    split at hrange
    · cases hrange
    · rename_i hle
      rw [← Option.some.inj hrange]
      obtain ⟨f, hf⟩ | ⟨f, hf⟩ := hcell a request i hi
      · rw [hf, a.read_of_le (Nat.not_lt.mp hle), Except.map]
      · rw [hf, a.access_of_le (Nat.not_lt.mp hle)]
  · -- any other request
    cases hi : index? request with
    | none => exact (hall a request hi).1
    | some i =>
      have hlt : i < a.size := by
        rw [outOfRange?, hi, Option.bind_some, ← h] at hnone
        by_contra hle
        rw [if_neg hle] at hnone
        cases hnone
      obtain ⟨f, hf⟩ | ⟨f, hf⟩ := hcell a request i hi
      · obtain ⟨b, -, hread, -⟩ := a.exists_access hlt fun b => (b, b)
        exact ⟨f b, by rw [hf, hread, Except.map]⟩
      · obtain ⟨b, -, -, haccess⟩ := a.exists_access hlt f
        exact ⟨(f b).1, by rw [hf, haccess]⟩

end PagedArray

namespace LongArray

/-- The index that a request names. -/
def Request.index? : Request → Option Nat
  | .get i | .set i _ | .swap i _ | .compareExchange i _ _ | .add i _ => some i
  | .size | .fill _ => none

/-- Arrays of integers reject cleanly. -/
theorem rejectsCleanly (size : Nat) (initial : Int64) :
    RejectsCleanly perform (.replicate size initial)
      fun _ request => outOfRange? .index size request.index? := by
  refine PagedArray.rejectsCleanly _ (fun a request i hi => ?_) (fun a request hnone => ?_)
  · cases request with
    | get => cases hi; exact .inl ⟨.value, rfl⟩
    | set | swap | compareExchange | add => cases hi; exact .inr ⟨_, rfl⟩
    | size | fill => cases hi
  · cases request with
    | size | fill => exact ⟨⟨_, rfl⟩, rfl⟩
    | get | set | swap | compareExchange | add => cases hnone

end LongArray

namespace ScalarArray

/-- The index that a request names. -/
def Request.index? : Request α → Option Nat
  | .get i | .set i _ | .update i _ => some i
  | .size | .fill _ => none

/-- Arrays of numbers reject cleanly. -/
theorem rejectsCleanly (size : Nat) (initial : α) :
    RejectsCleanly perform (.replicate size initial)
      fun _ request => outOfRange? .index size request.index? := by
  refine PagedArray.rejectsCleanly _ (fun a request i hi => ?_) (fun a request hnone => ?_)
  · cases request with
    | get => cases hi; exact .inl ⟨.value, rfl⟩
    | set | update => cases hi; exact .inr ⟨_, rfl⟩
    | size | fill => cases hi
  · cases request with
    | size | fill => exact ⟨⟨_, rfl⟩, rfl⟩
    | get | set | update => cases hnone

end ScalarArray

namespace ObjectArray

/-- The index that a request names. -/
def Request.index? : Request α → Option Nat
  | .get i | .set i _ => some i
  | .size => none

/-- Arrays of objects reject cleanly. -/
theorem rejectsCleanly (size : Nat) :
    RejectsCleanly (perform (β := α)) (.empty size)
      fun _ request => outOfRange? .index size request.index? := by
  refine PagedArray.rejectsCleanly _ (fun a request i hi => ?_) (fun a request hnone => ?_)
  · cases request with
    | get => cases hi; exact .inl ⟨.value, rfl⟩
    | set => cases hi; exact .inr ⟨_, rfl⟩
    | size => cases hi
  · cases request with
    | size => exact ⟨⟨_, rfl⟩, rfl⟩
    | get | set => cases hnone

end ObjectArray

/-! ## Values of vertices -/

namespace PagedArray

variable {β γ : Type} (a : PagedArray β) (i : Nat)

/-- Reading a cell, whatever is made of it. -/
theorem map_read (f : β → γ) :
    (a.read i).map f = ((a.get? i).map f).elim (.error (.index i a.size)) .ok := by
  rw [read]
  cases a.get? i <;> rfl

/-- Storing in a cell if it is there. -/
theorem access_set (b : β) (wrap : PagedArray β → γ) :
    (let (answer, a) := a.access i fun _ => ((), b); (answer, wrap a)) =
      if i < a.size then (.ok (), wrap (a.set i b)) else (.error (.index i a.size), wrap a) := by
  by_cases hi : i < a.size
  · obtain ⟨b', -, -, haccess⟩ := a.exists_access hi fun _ => ((), b)
    rw [if_pos hi, haccess]
  · rw [if_neg hi, a.access_of_le (Nat.not_lt.mp hi)]

end PagedArray

namespace Column

variable (c : Column α) (key : String) (node : Nat)

/-- The type is looked at before the vertex. -/
theorem readStepwise_eq (type : ValueType) : c.readStepwise type key node =
    if c.valueType = type then (c.cell? node).elim (.error (.index node c.size)) .ok
    else .error (.slotType key c.valueType type) := by
  by_cases htype : c.valueType = type
  · rw [if_pos htype]
    -- the column of the type that is asked for, and none of the others
    cases type <;> cases c <;> first
      | contradiction
      | exact PagedArray.map_read _ node _
  · rw [if_neg htype]
    cases type <;> cases c <;> first | rfl | exact absurd rfl htype

/-- The type is looked at before the vertex here too. -/
theorem writeStepwise_eq (x : Cell α) : c.writeStepwise key node x =
    if c.valueType = x.valueType then
      if node < c.size then (.ok (), c.store node x) else (.error (.index node c.size), c)
    else (.error (.slotType key c.valueType x.valueType), c) := by
  by_cases htype : c.valueType = x.valueType
  · rw [if_pos htype]
    -- the column of the type of the value, and none of the others
    cases x <;> cases c <;> first
      | contradiction
      | exact PagedArray.access_set _ node _ Column.long
      | exact PagedArray.access_set _ node _ Column.double
      | exact PagedArray.access_set _ node _ Column.longArray
      | exact PagedArray.access_set _ node _ Column.doubleArray
  · rw [if_neg htype]
    cases x <;> cases c <;> first | rfl | exact absurd rfl htype

end Column

namespace NodeValues

variable {v : NodeValues α} {schema : Schema α} {n : Nat}

/-- What is wrong with a key, a type and a vertex, if something is, in this order: there is no such
slot, it has another type, there is no such vertex. -/
def cellFault? (schema : Schema α) (n : Nat) (key : String) (type : ValueType) (node : Nat) :
    Option Violation :=
  match schema.find? key with
  | none => some (.unknownKey key)
  | some e =>
    if e.valueType ≠ type then some (.slotType key e.valueType type)
    else if node < n then none else some (.index node n)

/-- What is wrong with a request, if something is. -/
def fault? (schema : Schema α) (n : Nat) : Request α → Option Violation
  | .read type key node => cellFault? schema n key type node
  | .write key node c => cellFault? schema n key c.valueType node
  | .valueType _ | .publicKeys | .nodeCount => none

/-- What is wrong is what the lookup of the key finds, then the type of the column, then its
size. -/
theorem findColumn_eq (v : NodeValues α) (key : String) (type : ValueType) (node : Nat) :
    (v.findColumn key = .error (.unknownKey key) ∧
      cellFault? v.schema v.nodeCount key type node = some (.unknownKey key)) ∨
    ∃ i c, v.columns[i]? = some c ∧ v.findColumn key = .ok (i, c) ∧
      cellFault? v.schema v.nodeCount key type node =
        if c.valueType = type then if node < c.size then none else some (.index node c.size)
        else some (.slotType key c.valueType type) := by
  rw [cellFault?, findColumn]
  -- the lookup by key finds the column that belongs to the element
  cases hindex : v.schema.indexOf? key with
  | none =>
    have hfind : v.schema.find? key = none := by
      rw [Schema.find?, List.find?_eq_none]
      simpa using List.findIdx?_eq_none_iff.mp hindex
    exact .inl ⟨rfl, by rw [hfind]⟩
  | some i =>
    obtain ⟨hi, hkey, hbefore⟩ := List.findIdx?_eq_some_iff_getElem.mp hindex
    have hfind : v.schema.find? key = some v.schema.elements[i] :=
      List.find?_eq_some_iff_getElem.mpr
        ⟨hkey, i, hi, rfl, fun j hj => by simpa using hbefore j hj⟩
    have htype := valueType_columns v i
    rw [List.getElem?_eq_getElem hi, Option.map_some] at htype
    obtain ⟨c, hc, hctype⟩ := Option.map_eq_some_iff.mp htype
    refine .inr ⟨i, c, hc, by dsimp only; rw [hc], ?_⟩
    rw [hfind, size_of_mem_columns (Array.mem_of_getElem? hc), hctype]
    exact ite_not ..

/-- Check by check, a value is read as the accessors read it. -/
theorem readStepwise_eq (v : NodeValues α) (type : ValueType) (key : String) (node : Nat) :
    v.readStepwise type key node = v.cell key type node := by
  rw [readStepwise, findColumn, cell, locate]
  cases v.schema.indexOf? key with
  | none => rfl
  | some i =>
    dsimp only
    cases hc : v.columns[i]? with
    | none => rfl
    | some c =>
      have hsize := size_of_mem_columns (Array.mem_of_getElem? hc)
      rw [Except.bind, Column.readStepwise_eq, hsize]
      dsimp only
      by_cases htype : c.valueType = type
      · rw [if_pos htype, if_pos htype]
        -- all columns have a cell for every vertex
        by_cases hnode : node < v.nodeCount
        · rw [if_pos hnode]
          dsimp only
          rw [hc, Option.bind_some]
          cases c.cell? node <;> rfl
        · have hnone : c.cell? node = none := by
            by_contra hcell
            obtain ⟨x, hx⟩ := Option.ne_none_iff_exists'.mp hcell
            exact hnode (hsize ▸ Column.lt_size_of_cell? hx)
          rw [if_neg hnode, hnone]
          rfl
      · rw [if_neg htype, if_neg htype]

/-- The accessor for a type reads the cell of that type. -/
theorem get_eq_cell (v : NodeValues α) (type : ValueType) (key : String) (node : Nat) :
    v.get type key node = v.cell key type node := by
  cases hcell : v.cell key type node with
  | error violation =>
    cases type <;> simp [get, long, double, longArray, doubleArray, hcell, Except.map]
  | ok c =>
    -- a cell that was read has the type that was asked for
    have htype : c.valueType = type := by
      cases hindex : v.schema.indexOf? key with
      | none => simp [cell, locate, hindex] at hcell
      | some i => exact ((cell_eq_ok_iff hindex).mp hcell).2
    subst htype
    cases c <;> simp_all [get, long, double, longArray, doubleArray, Cell.valueType, Except.map]

/-- A column that is left as it was leaves the values as they were. -/
theorem withColumn_of_unchanged {v : NodeValues α} {i : Nat} {c : Column α}
    (hc : v.columns[i]? = some c) {key : String} {node : Nat} {x : Cell α}
    (h : (c.writeStepwise key node x).2 = c) : v.withColumn i key node x = v := by
  refine ext_columns rfl rfl fun j => ?_
  rw [withColumn, Array.getElem?_modify]
  split
  · rename_i hij
    rw [← hij, hc, Option.map_some, h]
  · rfl

/-- Check by check, a value is written as a whole. -/
theorem writeStepwise_eq (v : NodeValues α) (key : String) (node : Nat) (x : Cell α) :
    v.writeStepwise key node x = v.write key node x := by
  rw [writeStepwise, findColumn, write, locate]
  cases v.schema.indexOf? key with
  | none => rfl
  | some i =>
    dsimp only
    cases hc : v.columns[i]? with
    | none => rfl
    | some c =>
      have hsize := size_of_mem_columns (Array.mem_of_getElem? hc)
      have hwrite := Column.writeStepwise_eq c key node x
      rw [hsize] at hwrite
      dsimp only
      -- the checks come in the same order, the type before the vertex
      by_cases htype : c.valueType = x.valueType
      · rw [if_pos htype] at hwrite ⊢
        by_cases hnode : node < v.nodeCount
        · rw [if_pos hnode] at hwrite ⊢
          dsimp only
          -- the one column that is replaced is the one that is stored in
          have hstored : v.withColumn i key node x = v.store i node x := by
            refine ext_columns rfl rfl fun j => ?_
            rw [withColumn, store, Array.getElem?_modify, Array.getElem?_modify]
            split
            · rename_i hij
              rw [← hij, hc, Option.map_some, Option.map_some, hwrite]
            · rfl
          rw [hwrite, hstored]
        · rw [if_neg hnode] at hwrite ⊢
          rw [hwrite, withColumn_of_unchanged hc (congrArg Prod.snd hwrite)]
      · rw [if_neg htype] at hwrite ⊢
        rw [hwrite, withColumn_of_unchanged hc (congrArg Prod.snd hwrite)]

/-- Check by check, a request is answered as it is as a whole. -/
theorem performStepwise_eq (v : NodeValues α) (request : Request α) :
    v.performStepwise request = v.perform request := by
  cases request with
  | read type key node => rw [performStepwise, perform, readStepwise_eq, get_eq_cell]
  | write key node x => rw [performStepwise, perform, writeStepwise_eq]
  | valueType | publicKeys | nodeCount => rfl

/-- A value is read unless something is wrong. -/
theorem readStepwise_of_fault (v : NodeValues α) (type : ValueType) (key : String) (node : Nat) :
    match cellFault? v.schema v.nodeCount key type node with
    | some violation => v.readStepwise type key node = .error violation
    | none => ∃ x, v.readStepwise type key node = .ok x := by
  obtain ⟨hfind, hfault⟩ | ⟨i, c, -, hfind, hfault⟩ := v.findColumn_eq key type node
  · rw [readStepwise, hfault, hfind]
    rfl
  · have hread : v.readStepwise type key node = c.readStepwise type key node := by
      rw [readStepwise, hfind]
      rfl
    rw [hfault, hread, Column.readStepwise_eq]
    -- no such key was dealt with; now the type and then the vertex
    by_cases htype : c.valueType = type
    · rw [if_pos htype, if_pos htype]
      by_cases hnode : node < c.size
      · obtain ⟨x, hx⟩ := Option.isSome_iff_exists.mp (c.isSome_cell? hnode)
        rw [if_pos hnode, hx]
        exact ⟨x, rfl⟩
      · have hnone : c.cell? node = none := by
          by_contra hcell
          obtain ⟨x, hx⟩ := Option.ne_none_iff_exists'.mp hcell
          exact hnode (Column.lt_size_of_cell? hx)
        rw [if_neg hnode, hnone]
        rfl
    · rw [if_neg htype, if_neg htype]

/-- A value is written unless something is wrong, and then nothing is. -/
theorem writeStepwise_of_fault (v : NodeValues α) (key : String) (node : Nat) (x : Cell α) :
    match cellFault? v.schema v.nodeCount key x.valueType node with
    | some violation => v.writeStepwise key node x = (.error violation, v)
    | none => (v.writeStepwise key node x).1 = .ok () := by
  rw [writeStepwise]
  obtain ⟨hfind, hfault⟩ | ⟨i, c, hc, hfind, hfault⟩ := v.findColumn_eq key x.valueType node
  · rw [hfault, hfind]
  · rw [hfault, hfind]
    have hwrite := Column.writeStepwise_eq c key node x
    -- the type is checked first, and then whether there is such a vertex
    by_cases htype : c.valueType = x.valueType
    · rw [if_pos htype] at hwrite ⊢
      by_cases hnode : node < c.size
      · rw [if_pos hnode] at hwrite ⊢
        exact congrArg Prod.fst hwrite
      · rw [if_neg hnode] at hwrite ⊢
        dsimp only
        rw [hwrite, withColumn_of_unchanged hc (congrArg Prod.snd hwrite)]
    · rw [if_neg htype] at hwrite ⊢
      dsimp only
      rw [hwrite, withColumn_of_unchanged hc (congrArg Prod.snd hwrite)]

/-- No request changes which cells there are. -/
theorem frame_performStepwise (v : NodeValues α) (request : Request α) :
    (v.performStepwise request).2.schema = v.schema ∧
      (v.performStepwise request).2.nodeCount = v.nodeCount := by
  cases request with
  | write key node x =>
    rw [performStepwise, writeStepwise]
    cases v.findColumn key <;> exact ⟨rfl, rfl⟩
  | read | valueType | publicKeys | nodeCount => exact ⟨rfl, rfl⟩

/-- The values of vertices reject cleanly. -/
theorem rejectsCleanly [Scalar α] (schema : Schema α) (n : Nat) :
    RejectsCleanly performStepwise (allocate schema n) fun _ => fault? schema n := by
  refine .of_invariant (fun _ v => v.schema = schema ∧ v.nodeCount = n) ⟨rfl, rfl⟩
    (fun _ v request h => ?_) (fun _ v request violation h hviolation => ?_)
    (fun _ v request h hnone => ?_)
  all_goals obtain ⟨rfl, rfl⟩ := h
  · -- the schema and the number of vertices stay
    exact v.frame_performStepwise request
  · cases request with
    | read type key node =>
      have hread := v.readStepwise_of_fault type key node
      rw [show cellFault? _ _ key type node = _ from hviolation] at hread
      rw [performStepwise, hread]
      rfl
    | write key node x =>
      have hwrite := v.writeStepwise_of_fault key node x
      rw [show cellFault? _ _ key x.valueType node = _ from hviolation] at hwrite
      rw [performStepwise, hwrite]
      rfl
    | valueType | publicKeys | nodeCount => cases hviolation
  · cases request with
    | read type key node =>
      have hread := v.readStepwise_of_fault type key node
      rw [show cellFault? _ _ key type node = _ from hnone] at hread
      obtain ⟨x, hx⟩ := hread
      exact ⟨.cell x, by rw [performStepwise, hx]; rfl⟩
    | write key node x =>
      have hwrite := v.writeStepwise_of_fault key node x
      rw [show cellFault? _ _ key x.valueType node = _ from hnone] at hwrite
      have hdone : (v.writeStepwise key node x).1 = .ok () := hwrite
      exact ⟨.done, congrArg (Except.map fun _ => Answer.done) hdone⟩
    | valueType | publicKeys | nodeCount => exact ⟨_, rfl⟩

end NodeValues

/-- A request that names something that does not exist is rejected, and so is one that a released
messenger has no buffers for; nothing else is. A rejected request has changed nothing, although
every part of it looks at indices for itself: the object is as it was, and answers as if the request
had not been made. A refused message has taken no cell, and nothing waits that did not wait before.
Taken effect by effect or as a whole, requests are answered in the same way. -/
theorem rejected_without_trace [Scalar α] (β : Type) (n : Nat) (r : Option (Reducer α))
    (isAsynchronous : Bool) (schema : Schema α) (long : Int64) (scalar : α) :
    let messenger before :=
      afterRequests Messenger.performStepwise (Messenger.create n r isAsynchronous) before
    RejectsCleanly Messenger.performStepwise (Messenger.create n r isAsynchronous)
      (Messenger.fault? n r.isSome) ∧
    (∀ before t x, n ≤ t →
      let m := messenger before
      let refused := (m.performStepwise (.send t x)).2
      (∀ side, (refused.queues? side).map (·.arena.cursor)
        = (m.queues? side).map (·.arena.cursor)) ∧ refused.pending = m.pending) ∧
    (∀ before request,
      (messenger before).performStepwise request = (messenger before).perform request) ∧
    RejectsCleanly BitSet.perform (.empty n)
      (fun _ request => outOfRange? .bit n request.bit?) ∧
    RejectsCleanly LongArray.perform (.replicate n long)
      (fun _ request => outOfRange? .index n request.index?) ∧
    RejectsCleanly ScalarArray.perform (.replicate n scalar)
      (fun _ request => outOfRange? .index n request.index?) ∧
    RejectsCleanly (ObjectArray.perform (β := β)) (.empty n)
      (fun _ request => outOfRange? .index n request.index?) ∧
    RejectsCleanly NodeValues.performStepwise (NodeValues.allocate schema n)
      (fun _ => NodeValues.fault? schema n) ∧
    ∀ (v : NodeValues α) request, v.performStepwise request = v.perform request := by
  intro messenger
  have hclean := Messenger.rejectsCleanly n r isAsynchronous
  refine ⟨hclean, fun before t x ht => ?_, fun before request => ?_, BitSet.rejectsCleanly n,
    LongArray.rejectsCleanly n long, ScalarArray.rejectsCleanly n scalar,
    ObjectArray.rejectsCleanly n, NodeValues.rejectsCleanly schema n,
    NodeValues.performStepwise_eq⟩
  · -- whether or not the messenger was released, this request is refused
    have hfault : Messenger.fault? n r.isSome before (.send t x) ≠ none := by
      rw [Messenger.fault?, Messenger.vertexFault?, if_neg (Nat.not_lt.mpr ht)]
      split <;> simp [Messenger.Request.needsBuffers]
    intro m refused
    have hsame : refused = m := hclean.unchanged before (.send t x) hfault
    exact ⟨fun side => by rw [hsame], by rw [hsame]⟩
  · have hreached := reached_afterRequests (Messenger.reached_create n r isAsynchronous)
      (fun before m request h => h.performStepwise request) before
    exact hreached.performStepwise_eq request

-- A bit that the set cannot have is refused, and is not among its members afterwards.
example : answersTo BitSet.perform (.empty 2) [.set 2, .set 1, .cardinality]
    = [.error (.bit 2 2), .ok .done, .ok (.count 1)] := by decide

end Superstep
