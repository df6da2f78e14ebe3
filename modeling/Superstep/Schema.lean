import Superstep.Scalar
import Superstep.Violation

/-!
# Schemas

A schema is the ordered list of a program's per-vertex slots. Each slot has a name, a type, a
visibility and possibly a default. A schema built slot by slot with `Schema.add` has no two slots of
one name; where there are several, the first one is meant.
-/

namespace Superstep

/-- Who sees a slot's values. -/
inductive Visibility where
  /-- Part of the result. -/
  | visible
  /-- Working storage of the run. -/
  | hidden
  deriving Repr, DecidableEq, Inhabited

namespace Visibility

/-- The visibility's name in a serialized schema. -/
def tag : Visibility → String
  | .visible => "public"
  | .hidden => "private"

/-- The visibility with a given serialized name. -/
def ofTag? (s : String) : Option Visibility := [visible, hidden].find? (·.tag == s)

theorem ofTag?_tag (v : Visibility) : ofTag? v.tag = some v := by cases v <;> rfl

end Visibility

/-- The value that a slot starts with. -/
inductive DefaultValue (α : Type) where
  | long (value : Int64)
  | double (value : α)
  deriving Repr, DecidableEq, BEq

/-- A named slot. -/
structure Element (α : Type) where
  key : String
  valueType : ValueType
  visibility : Visibility
  /-- The initial value of a scalar slot, which starts at zero without one. -/
  default : Option (DefaultValue α)
  deriving Repr, DecidableEq, BEq

/-- The slots of a program, in order. -/
structure Schema (α : Type) where
  elements : List (Element α)
  deriving Repr, DecidableEq, BEq

namespace Schema

variable {α : Type}

/-- The schema without slots. -/
def empty : Schema α := ⟨[]⟩

/-- The first slot of a given name. -/
def find? (s : Schema α) (key : String) : Option (Element α) := s.elements.find? (·.key == key)

/-- The position of the first slot of a given name. -/
def indexOf? (s : Schema α) (key : String) : Option Nat := s.elements.findIdx? (·.key == key)

/-- Names of the slots that are part of the result, in order. -/
def publicKeys (s : Schema α) : List String :=
  (s.elements.filter (·.visibility == .visible)).map (·.key)

/-- Adds a slot at the end, unless its name is taken. -/
def add (s : Schema α) (e : Element α) : Except Violation (Schema α) :=
  if s.elements.any (·.key == e.key) then .error (.duplicateKey e.key)
  else .ok ⟨s.elements ++ [e]⟩

/-- The schema of the given slots, unless two have one name. -/
def build (elements : List (Element α)) : Except Violation (Schema α) :=
  elements.foldlM add empty

end Schema

namespace Element

variable {α : Type}

/-- A slot without a default. -/
def plain (key : String) (valueType : ValueType) (visibility : Visibility) : Element α :=
  ⟨key, valueType, visibility, none⟩

/-- An integer slot with a default. -/
def long (key : String) (value : Int64) (visibility : Visibility) : Element α :=
  ⟨key, .long, visibility, some (.long value)⟩

/-- A floating-point slot with a default. -/
def double (key : String) (value : α) (visibility : Visibility) : Element α :=
  ⟨key, .double, visibility, some (.double value)⟩

/-- The initial value of an integer slot. -/
def initialLong [Scalar α] (e : Element α) : Int64 :=
  match e.default with
  | some (.long v) => v
  | some (.double v) => Scalar.toLong v
  | none => 0

/-- The initial value of a floating-point slot. -/
def initialDouble [Scalar α] (e : Element α) : α :=
  match e.default with
  | some (.double v) => v
  | some (.long v) => Scalar.ofLong v
  | none => Scalar.zero

end Element

end Superstep
