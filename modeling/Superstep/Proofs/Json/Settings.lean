import Mathlib
import Superstep.Algorithm.ShortestPaths
import Superstep.Json.Codec
import Superstep.Proofs.Exact
import Superstep.Proofs.Json.Text

/-!
# Settings and schemas are read as they were written

Whatever its fields hold, a configuration is read from its text as it was. PageRank settings and
schemas hold scalars, of which JSON has only the finite ones (`ScalarFormat.Faithful`). PageRank
settings with another one are written, but not read again. In a schema such a scalar is the default
of a slot, and the slot is read without a default, so that it starts at zero. All else about a
schema is kept: the slots and their order, keys of any characters, and whether a default is an
integer or a scalar.

## Key results

- `RecordShape.slots?_toJson`: the fields of a record are read as they were written
- `ScalarFormat.faithful_double_iff`: what has to be known about doubles
- `Config.deserialize?_serialize`, `PageRank.deserialize?_serialize`
- `Schema.deserialize?_serialize`: a schema is read with its finite defaults
- `settings_read_as_written`: all of them, and exactly which values come back unchanged
-/

namespace Superstep

/-! ## Records -/

/-- What is read back one by one is read back as a list. -/
theorem mapM_map_eq_some {β γ δ : Type} {f : γ → Option δ} {a : β → γ} {b : β → δ} {items : List β}
    (h : ∀ x ∈ items, f (a x) = some (b x)) : (items.map a).mapM f = some (items.map b) := by
  -- on the items, each of which is read back
  induction items with
  | nil => rfl
  | cons x items ih =>
    obtain ⟨hx, hitems⟩ := List.forall_mem_cons.mp h
    simp [hx, ih hitems]

namespace RecordShape

/-- Of members with different keys, one has the key of a given member. -/
theorem filter_key_eq_singleton {members : List (String × Json)} {m : String × Json}
    (hkeys : (members.map Prod.fst).Nodup) (hm : m ∈ members) :
    members.filter (·.1 == m.1) = [m] := by
  induction members with
  | nil => cases hm
  | cons first members ih =>
    obtain ⟨hfresh, hkeys⟩ := List.nodup_cons.mp hkeys
    rcases List.mem_cons.mp hm with rfl | hm
    · -- no other member has this key
      have hnone : members.filter (·.1 == m.1) = [] := by
        refine List.filter_eq_nil_iff.mpr fun other hother heq => hfresh ?_
        exact (beq_iff_eq.mp heq) ▸ List.mem_map_of_mem hother
      simp [hnone]
    · have hne : first.1 ≠ m.1 := fun heq => hfresh (heq ▸ List.mem_map_of_mem hm)
      rw [List.filter_cons_of_neg (by simpa using hne), ih hkeys hm]

/-- All keys of a record are text, so that nothing spoils it. -/
theorem slots?_record (shape : RecordShape) (members : List (String × Json)) :
    shape.slots? (.record members) = shape.fields.mapM (slot? members) := by
  have hread : (members.map fun m : String × Json => ((some m.1 : Option String), m.2)).mapM
      (fun m : Option String × Json => m.1.map fun key => (key, m.2)) = some members := by
    refine (mapM_map_eq_some (b := id) fun m _ => ?_).trans (congrArg some (List.map_id _))
    rfl
  exact congrArg (Option.bind · fun members => shape.fields.mapM (slot? members)) hread

/-- The fields of a record are read as they were written. -/
theorem slots?_toJson (shape : RecordShape) (values : List Json) (hfields : shape.fields.Nodup)
    (hlength : values.length = shape.fields.length) :
    shape.slots? (shape.toJson values) = some (values.map some) := by
  have hfirst : (shape.fields.zip values).map Prod.fst = shape.fields :=
    List.map_fst_zip hlength.ge
  have hsecond : (shape.fields.zip values).map Prod.snd = values := List.map_snd_zip hlength.le
  -- each field is looked up among members that have different keys
  have hslots : ((shape.fields.zip values).map Prod.fst).mapM (slot? (shape.fields.zip values))
      = some ((shape.fields.zip values).map fun m => some m.2) := by
    refine mapM_map_eq_some fun m hm => ?_
    have hone := filter_key_eq_singleton (by rwa [hfirst]) hm
    rw [slot?, hone]
  have hvalues : (shape.fields.zip values).map (fun m => some m.2) = values.map some := by
    rw [← hsecond, List.map_map, hsecond]
    rfl
  rw [hfirst, hvalues] at hslots
  rw [toJson, slots?_record, hslots]

end RecordShape

/-! ## Configurations -/

/-- A natural number that fits a word is read as it was written. -/
theorem Json.toWord?_ofNat {n : Nat} (h : n < wordLimit) : (Json.ofNat n).toWord? = some n :=
  JsonNumber.toNatBelow?_ofNat h

/-- A configuration is read as it was written, whether or not a run can start with it. -/
theorem Config.deserialize?_serialize (processors : Nat) {c : Config}
    (hiterations : c.maxIterations < wordLimit) (hconcurrency : c.concurrency < wordLimit)
    (hthreshold : c.forkJoinThreshold < wordLimit) :
    Config.deserialize? processors c.serialize = some c := by
  -- the text is parsed, its fields are found, and each has the type it is read with
  have hslots := shape.slots?_toJson [.ofNat c.maxIterations, .ofNat c.concurrency,
    .bool c.isAsynchronous, .bool c.useForkJoin, .ofNat c.forkJoinThreshold] (by decide) rfl
  rw [deserialize?, serialize, Json.parse?_compact, Option.bind_some, ofJson?, toJson, hslots]
  simp [Json.optional?, Json.toWord?_ofNat, Json.toBool?, hiterations, hconcurrency, hthreshold]

/-! ## Scalars -/

variable {α : Type}

/-- Finite scalars are written as numbers with a point or an exponent, from which they are read
again. Other scalars are not written as numbers. -/
structure ScalarFormat.Faithful (format : ScalarFormat α) (finite : α → Bool) : Prop where
  ofFinite : ∀ x, finite x = true → ∃ n, format.write? x = some n ∧
    (n.fraction ≠ [] ∨ n.exponent ≠ none) ∧ format.read? n = some x
  ofInfinite : ∀ x, finite x = false → format.write? x = none

/-- For doubles it is enough that finite ones are read as they were written. -/
theorem ScalarFormat.faithful_double_iff : ScalarFormat.double.Faithful Float.isFinite ↔
    ∀ x : Float, x.isFinite = true → JsonNumber.toDouble? (.ofFinite x) = some x := by
  constructor
  · intro h x hx
    obtain ⟨n, hwrite, -, hread⟩ := h.ofFinite x hx
    -- a finite double is written in one way only
    obtain rfl : JsonNumber.ofFinite x = n := Option.some_inj.mp ((if_pos hx).symm.trans hwrite)
    exact hread
  · intro h
    exact {
      ofFinite := fun x hx =>
        ⟨.ofFinite x, if_pos hx, JsonNumber.point_or_exponent_ofFinite x, h x hx⟩
      ofInfinite := fun x hx => if_neg (by simp [hx]) }

section Format

variable {format : ScalarFormat α} {finite : α → Bool}

/-- A scalar is read as it was written exactly if it is finite. -/
theorem ScalarFormat.ofJson?_toJson (h : format.Faithful finite) (x : α) :
    format.ofJson? (format.toJson x) = if finite x then some x else none := by
  cases hx : finite x with
  | true =>
    obtain ⟨n, hwrite, -, hread⟩ := h.ofFinite x hx
    simp [toJson, hwrite, ofJson?, hread]
  | false => simp [toJson, h.ofInfinite x hx, ofJson?]

/-! ## PageRank settings -/

/-- PageRank settings are read as they were written exactly if both numbers are finite. -/
theorem PageRank.deserialize?_serialize (h : format.Faithful finite) (base p : PageRank α) :
    PageRank.deserialize? format base (p.serialize format)
      = if finite p.damping ∧ finite p.tolerance then some p else none := by
  have hslots := shape.slots?_toJson [format.toJson p.damping, format.toJson p.tolerance]
    (by decide) rfl
  rw [deserialize?, serialize, Json.parse?_compact, Option.bind_some, ofJson?, toJson, hslots]
  simp only [Option.bind_eq_bind, Option.bind_some, List.map_cons, List.map_nil, Json.optional?,
    ScalarFormat.ofJson?_toJson h]
  cases finite p.damping <;> cases finite p.tolerance <;> rfl

/-! ## Schemas -/

/-- Whether a default is an integer or a finite scalar. -/
def DefaultValue.isFinite (finite : α → Bool) : DefaultValue α → Bool
  | .long _ => true
  | .double x => finite x

/-- An integer is finite. -/
@[simp] theorem DefaultValue.isFinite_long (i : Int64) : (long i).isFinite finite = true := rfl

/-- A scalar is finite as such. -/
@[simp] theorem DefaultValue.isFinite_double (x : α) : (double x).isFinite finite = finite x := rfl

/-- The slot without a default that is not finite. -/
def Element.withFiniteDefault (finite : α → Bool) (e : Element α) : Element α :=
  { e with default := e.default.filter (·.isFinite finite) }

/-- The schema without defaults that are not finite. -/
def Schema.withFiniteDefaults (finite : α → Bool) (s : Schema α) : Schema α :=
  ⟨s.elements.map (·.withFiniteDefault finite)⟩

/-- An integer is read as an integer, since no scalar is written as one. -/
theorem DefaultValue.ofJson?_toJson (h : format.Faithful finite) (d : DefaultValue α) :
    DefaultValue.ofJson? format (d.toJson format) = some ((some d).filter (·.isFinite finite)) := by
  cases d with
  | long i => simp [toJson, Json.ofInt, ofJson?, JsonNumber.toLong?_ofInt, Option.filter_some]
  | double x =>
    -- a scalar that is not finite is written as `null`, which is no default
    cases hx : finite x with
    | true =>
      obtain ⟨n, hwrite, hpoint, hread⟩ := h.ofFinite x hx
      simp [toJson, ScalarFormat.toJson, hwrite, ofJson?, JsonNumber.toLong?_eq_none hpoint, hread,
        Option.filter_some, hx]
    | false =>
      simp [toJson, ScalarFormat.toJson, h.ofInfinite x hx, ofJson?, Option.filter_some, hx]

/-- A slot is read as it was written, but for a default that is not finite. -/
theorem Element.ofJson?_toJson (h : format.Faithful finite) (e : Element α) :
    Element.ofJson? format (e.toJson format) = some (e.withFiniteDefault finite) := by
  have hslots := shape.slots?_toJson [.text e.key, .text e.valueType.tag,
    .text e.visibility.tag, (e.default.map (·.toJson format)).getD .null] (by decide) rfl
  -- only the default can be lost
  have hdefault : DefaultValue.ofJson? format ((e.default.map (·.toJson format)).getD .null)
      = some (e.default.filter (·.isFinite finite)) := by
    cases e.default with
    | none => rfl
    | some d => exact DefaultValue.ofJson?_toJson h d
  rw [ofJson?, toJson, hslots]
  simp [Json.required?, Json.optional?, Json.toText?, Json.toChoice?, Json.text,
    ValueType.ofTag?_tag, Visibility.ofTag?_tag, hdefault, withFiniteDefault]

/-- A schema is read with its slots as they were written, but for defaults that are not finite. -/
theorem Schema.deserialize?_serialize (h : format.Faithful finite) (s : Schema α) :
    Schema.deserialize? format (s.serialize format) = some (s.withFiniteDefaults finite) := by
  have hslots := shape.slots?_toJson [.array (s.elements.map (·.toJson format))]
    (by decide) rfl
  have helements : (s.elements.map (·.toJson format)).mapM (Element.ofJson? format)
      = some (s.elements.map (·.withFiniteDefault finite)) :=
    mapM_map_eq_some fun e _ => Element.ofJson?_toJson h e
  rw [deserialize?, serialize, Json.parse?_compact, Option.bind_some, ofJson?, toJson, hslots]
  simp [helements, withFiniteDefaults]

/-- A slot loses its default exactly if that is a scalar which is not finite. -/
theorem Element.withFiniteDefault_eq_self_iff {e : Element α} :
    e.withFiniteDefault finite = e ↔ ∀ x, e.default = some (.double x) → finite x = true := by
  obtain ⟨key, valueType, visibility, default⟩ := e
  rcases default with _ | ⟨i⟩ | ⟨x⟩
  · simp [withFiniteDefault]
  · simp [withFiniteDefault, Option.filter_some]
  · cases hx : finite x <;> simp [withFiniteDefault, Option.filter_some, hx]

/-- A schema keeps all its defaults exactly if all are finite. -/
theorem Schema.withFiniteDefaults_eq_self_iff {s : Schema α} : s.withFiniteDefaults finite = s ↔
    ∀ e ∈ s.elements, ∀ x, e.default = some (.double x) → finite x = true := by
  obtain ⟨elements⟩ := s
  -- the schema is kept if each of its slots is
  have hself : elements.map (·.withFiniteDefault finite) = elements.map id ↔
      ∀ e ∈ elements, e.withFiniteDefault finite = e := List.map_inj_left
  rw [List.map_id] at hself
  simp only [withFiniteDefaults, mk.injEq, hself, Element.withFiniteDefault_eq_self_iff]

/-- A slot whose default was not finite starts at zero once it is read. -/
theorem Element.initial_withFiniteDefault [Scalar α] {e : Element α} {x : α}
    (he : e.default = some (.double x)) (hx : finite x = false) :
    (e.withFiniteDefault finite).initialDouble = Scalar.zero ∧
      (e.withFiniteDefault finite).initialLong = 0 := by
  simp [withFiniteDefault, he, Option.filter_some, hx, initialDouble, initialLong]

end Format

/-! ## All of them -/

/-- Configurations are read as they were written. PageRank settings are so exactly if both numbers
are finite, and are refused otherwise. Schemas are read without the defaults that are not finite,
hence as they were written exactly if there is none; the slots concerned then start at zero, as the
distances of shortest paths do. -/
theorem settings_read_as_written {α : Type} [Scalar α] {format : ScalarFormat α}
    {finite : α → Bool} (h : format.Faithful finite) (htop : finite Scalar.top = false) :
    (∀ (processors : Nat) (c : Config), c.maxIterations < wordLimit → c.concurrency < wordLimit →
      c.forkJoinThreshold < wordLimit → Config.deserialize? processors c.serialize = some c) ∧
    (∀ base p : PageRank α,
      (PageRank.deserialize? format base (p.serialize format) = some p ↔
        finite p.damping = true ∧ finite p.tolerance = true) ∧
      (¬(finite p.damping = true ∧ finite p.tolerance = true) →
        PageRank.deserialize? format base (p.serialize format) = none)) ∧
    (∀ s : Schema α,
      Schema.deserialize? format (s.serialize format) = some (s.withFiniteDefaults finite) ∧
      (Schema.deserialize? format (s.serialize format) = some s ↔
        ∀ e ∈ s.elements, ∀ x, e.default = some (.double x) → finite x = true) ∧
      ∀ e ∈ s.elements, ∀ x, e.default = some (.double x) → finite x = false →
        (e.withFiniteDefault finite).initialDouble = Scalar.zero ∧
          (e.withFiniteDefault finite).initialLong = 0) ∧
    ∃ s : Schema α, ShortestPaths.schema = .ok s ∧
      (∀ e ∈ s.elements, e.initialDouble = Scalar.top) ∧
      ∃ read, Schema.deserialize? format (s.serialize format) = some read ∧
        ∀ e ∈ read.elements, e.default = none ∧ e.initialDouble = Scalar.zero := by
  refine ⟨fun processors c => Config.deserialize?_serialize processors, fun base p => ?_,
    fun s => ⟨Schema.deserialize?_serialize h s, ?_, ?_⟩, ?_⟩
  · rw [PageRank.deserialize?_serialize h]
    constructor
    · simp
    · intro hnot
      rw [if_neg hnot]
  · rw [Schema.deserialize?_serialize h, Option.some_inj, Schema.withFiniteDefaults_eq_self_iff]
  · intro e _ x he hx
    exact Element.initial_withFiniteDefault he hx
  · refine ⟨⟨[.double ShortestPaths.distanceKey Scalar.top .visible]⟩, rfl, ?_, _,
      Schema.deserialize?_serialize h _, ?_⟩
    · simp [Element.double, Element.initialDouble]
    · -- the one default is infinite
      simp only [Schema.withFiniteDefaults, List.map_cons, List.map_nil, List.forall_mem_singleton]
      have hdefault : (Element.withFiniteDefault finite (.double ShortestPaths.distanceKey
          Scalar.top .visible)).default = none := by
        simp [Element.withFiniteDefault, Element.double, Option.filter_some, htop]
      exact ⟨hdefault, (Element.initial_withFiniteDefault rfl htop).1⟩

/-- Whether a scalar is a whole number. -/
def Exact.isWhole : Exact → Bool
  | .finite q => q.den == 1
  | _ => false

/-- Whole numbers with a zero after the point. Other scalars are not written as numbers. -/
def ScalarFormat.whole : ScalarFormat Exact where
  write?
    | .finite q =>
      if q.den = 1 then some ⟨decide (q.num < 0), q.num.natAbs, digitsOf 0, none⟩ else none
    | _ => none
  read? n := some (.finite (if n.negative then -(n.whole : ℚ) else n.whole))

/-- Whole numbers are read as they were written. -/
theorem ScalarFormat.faithful_whole : ScalarFormat.whole.Faithful Exact.isWhole where
  ofFinite x hx := by
    cases x with
    | bottom => cases hx
    | top => cases hx
    | finite q =>
      have hden : q.den = 1 := beq_iff_eq.mp hx
      refine ⟨_, if_pos hden, .inl (digitsOf_ne_nil 0), ?_⟩
      have hq : (q.num : ℚ) = q := Rat.coe_int_num_of_den_eq_one hden
      simp only [whole]
      -- the sign is written apart from the digits
      by_cases hsign : q.num < 0
      · have habs : (q.num.natAbs : ℤ) = -q.num := by omega
        have hcast : ((q.num.natAbs : ℤ) : ℚ) = -q := by rw [habs, Int.cast_neg, hq]
        rw [decide_eq_true hsign, if_pos rfl, ← Int.cast_natCast, hcast, neg_neg]
      · have habs : (q.num.natAbs : ℤ) = q.num := by omega
        rw [decide_eq_false hsign, if_neg (by simp), ← Int.cast_natCast, habs, hq]
  ofInfinite x hx := by
    cases x with
    | bottom => rfl
    | top => rfl
    | finite q => exact if_neg fun hden => by simp [Exact.isWhole, hden] at hx

/-- The largest counts; a damping that is infinite; and a key that has to be escaped, on a slot of
scalars with an integer default, beside an array with a default and a slot that starts at infinity.
-/
theorem settings_read_as_written_escaped :
    Config.deserialize? 4 (Config.serialize ⟨18446744073709551615, 1, true, false, 0⟩)
      = some ⟨18446744073709551615, 1, true, false, 0⟩ ∧
    PageRank.deserialize? .whole ⟨.finite 0, .finite 0⟩
      (PageRank.serialize .whole ⟨.top, .finite 2⟩) = none ∧
    Schema.deserialize? .whole (Schema.serialize .whole
      ⟨[⟨String.ofList ['"', '\\', '\x01', 'é'], .double, .visible, some (.long 3)⟩,
        ⟨"counts", .longArray, .hidden, some (.double (.finite (-4)))⟩,
        ⟨"distance", .double, .visible, some (.double .top)⟩]⟩)
      = some ⟨[⟨String.ofList ['"', '\\', '\x01', 'é'], .double, .visible, some (.long 3)⟩,
        ⟨"counts", .longArray, .hidden, some (.double (.finite (-4)))⟩,
        ⟨"distance", .double, .visible, none⟩]⟩ := by
  obtain ⟨hconfig, hranks, hschema, -⟩ :=
    settings_read_as_written ScalarFormat.faithful_whole (rfl : Exact.isWhole .top = false)
  refine ⟨hconfig 4 _ (by decide) (by decide) (by decide), (hranks _ _).2 (by decide), ?_⟩
  rw [(hschema _).1]
  rfl

end Superstep
