import Superstep.Algorithm.PageRank
import Superstep.Json.Printer
import Superstep.Json.Reader
import Superstep.Json.Record

/-!
# Serialized settings and schemas

Configurations, PageRank settings and schemas are kept as JSON. For each there is a function to JSON
and one back, which refuses what does not stand for such a value. A configuration is read whether or
not a run can start with it, and a schema whether or not its keys differ.

How scalars become numbers is a parameter, `ScalarFormat`. A scalar without a number is written as
`null`; as the default of a slot that is read back as no default.
-/

namespace Superstep

/-- How scalars are written as JSON numbers. -/
structure ScalarFormat (α : Type) where
  /-- The number of a scalar, if it has one. -/
  write? : α → Option JsonNumber
  /-- The scalar that a number stands for, if it stands for one. -/
  read? : JsonNumber → Option α

namespace ScalarFormat

variable {α : Type}

/-- Doubles with the fewest digits that tell them apart, if they are finite. -/
def double : ScalarFormat Float where
  write? x := if x.isFinite then some (.ofFinite x) else none
  read? := JsonNumber.toDouble?

/-- A scalar in JSON. -/
def toJson (format : ScalarFormat α) (x : α) : Json :=
  match format.write? x with
  | some n => .number n
  | none => .null

/-- Reads a scalar. -/
def ofJson? (format : ScalarFormat α) : Json → Option α
  | .number n => format.read? n
  | _ => none

end ScalarFormat

namespace Config

/-- The fields of a configuration. -/
def shape : RecordShape where
  fields := ["max_iterations", "concurrency", "is_asynchronous", "use_fork_join",
    "fork_join_threshold"]
  allOptional := true

/-- A configuration in JSON. -/
def toJson (c : Config) : Json :=
  shape.toJson [.ofNat c.maxIterations, .ofNat c.concurrency, .bool c.isAsynchronous,
    .bool c.useForkJoin, .ofNat c.forkJoinThreshold]

/-- Reads a configuration on a machine with `processors` processors. What is missing has its
default. -/
def ofJson? (processors : Nat) (j : Json) : Option Config := do
  let base := Config.default processors
  match ← shape.slots? j with
  | [maxIterations, concurrency, isAsynchronous, useForkJoin, forkJoinThreshold] =>
    return {
      maxIterations := ← Json.optional? Json.toWord? base.maxIterations maxIterations
      concurrency := ← Json.optional? Json.toWord? base.concurrency concurrency
      isAsynchronous := ← Json.optional? Json.toBool? base.isAsynchronous isAsynchronous
      useForkJoin := ← Json.optional? Json.toBool? base.useForkJoin useForkJoin
      forkJoinThreshold := ← Json.optional? Json.toWord? base.forkJoinThreshold forkJoinThreshold }
  | _ => none

/-- The text of a configuration. -/
def serialize (c : Config) : String := c.toJson.compact

/-- Reads a configuration from its text. -/
def deserialize? (processors : Nat) (text : String) : Option Config :=
  (Json.parse? text.toList).bind (ofJson? processors)

end Config

namespace PageRank

variable {α : Type}

/-- The fields of PageRank settings. -/
def shape : RecordShape := ⟨["damping_factor", "tolerance"], true⟩

/-- PageRank settings in JSON. -/
def toJson (format : ScalarFormat α) (p : PageRank α) : Json :=
  shape.toJson [format.toJson p.damping, format.toJson p.tolerance]

/-- Reads PageRank settings. What is missing is taken from `base`. -/
def ofJson? (format : ScalarFormat α) (base : PageRank α) (j : Json) : Option (PageRank α) := do
  match ← shape.slots? j with
  | [damping, tolerance] =>
    return ⟨← Json.optional? format.ofJson? base.damping damping,
      ← Json.optional? format.ofJson? base.tolerance tolerance⟩
  | _ => none

/-- The text of PageRank settings. -/
def serialize (format : ScalarFormat α) (p : PageRank α) : String := (p.toJson format).compact

/-- Reads PageRank settings from their text. -/
def deserialize? (format : ScalarFormat α) (base : PageRank α) (text : String) :
    Option (PageRank α) :=
  (Json.parse? text.toList).bind (ofJson? format base)

end PageRank

namespace DefaultValue

variable {α : Type}

/-- A default in JSON: an integer has neither point nor exponent. -/
def toJson (format : ScalarFormat α) : DefaultValue α → Json
  | .long v => .ofInt v.toInt
  | .double v => format.toJson v

/-- Reads a default, if there is one: a 64-bit integer as such, and any other number as a scalar. -/
def ofJson? (format : ScalarFormat α) : Json → Option (Option (DefaultValue α))
  | .null => some none
  | .number n =>
    match n.toLong? with
    | some i => some (some (.long i))
    | none => (format.read? n).map fun x => some (.double x)
  | _ => none

end DefaultValue

namespace Element

variable {α : Type}

/-- The fields of a slot. -/
def shape : RecordShape := ⟨["key", "value_type", "visibility", "default_value"], false⟩

/-- A slot in JSON. -/
def toJson (format : ScalarFormat α) (e : Element α) : Json :=
  shape.toJson [.text e.key, .text e.valueType.tag, .text e.visibility.tag,
    (e.default.map (·.toJson format)).getD .null]

/-- Reads a slot. -/
def ofJson? (format : ScalarFormat α) (j : Json) : Option (Element α) := do
  match ← shape.slots? j with
  | [key, valueType, visibility, default] =>
    return ⟨← Json.required? Json.toText? key,
      ← Json.required? (Json.toChoice? ValueType.ofTag?) valueType,
      ← Json.required? (Json.toChoice? Visibility.ofTag?) visibility,
      ← Json.optional? (DefaultValue.ofJson? format) none default⟩
  | _ => none

end Element

namespace Schema

variable {α : Type}

/-- The fields of a schema. -/
def shape : RecordShape := ⟨["elements"], false⟩

/-- A schema in JSON. -/
def toJson (format : ScalarFormat α) (s : Schema α) : Json :=
  shape.toJson [.array (s.elements.map (·.toJson format))]

/-- Reads a schema. -/
def ofJson? (format : ScalarFormat α) (j : Json) : Option (Schema α) := do
  match ← shape.slots? j with
  | [some (.array items)] => return ⟨← items.mapM (Element.ofJson? format)⟩
  | _ => none

/-- The text of a schema. -/
def serialize (format : ScalarFormat α) (s : Schema α) : String := (s.toJson format).compact

/-- Reads a schema from its text. -/
def deserialize? (format : ScalarFormat α) (text : String) : Option (Schema α) :=
  (Json.parse? text.toList).bind (ofJson? format)

end Schema

end Superstep
