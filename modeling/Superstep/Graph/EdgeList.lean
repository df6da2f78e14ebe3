import Superstep.Decimal.Reading
import Superstep.Graph.Csr
import Superstep.Text.Blank
import Superstep.Word

/-!
# Edge lists

An edge list is a text with one relationship a line: the ids of source and target, and possibly a
weight, with blanks between them. Blank lines and lines that start with a hash sign are passed over.
`EdgeList.read` answers with the relationships in line order, or with the first line that is none of
these.
-/

namespace Superstep.EdgeList

open CsrGraph (ExternalEdge)

/-- Why a line is not a relationship. -/
inductive LineFault where
  /-- There are fewer than two fields or more than three. -/
  | fieldCount
  | vertexId (field : List Char) (cause : NaturalError)
  | weight (field : List Char)
  deriving Repr, DecidableEq

/-- A line that is not a relationship. Lines are counted from one. -/
structure Fault where
  line : Nat
  fault : LineFault
  deriving Repr, DecidableEq

/-- The text that reports a fault. -/
def Fault.message (f : Fault) : String :=
  s!"line {f.line}: " ++ match f.fault with
    | .fieldCount => "expected `source target [weight]`"
    | .vertexId field _ => "invalid vertex id `" ++ String.ofList field ++ "`"
    | .weight field => "invalid weight `" ++ String.ofList field ++ "`"

/-- The text that reports what was wrong with a field. -/
def Fault.cause? (f : Fault) : Option String :=
  match f.fault with
  | .fieldCount => none
  | .vertexId _ cause => some cause.message
  | .weight field => some (doubleErrorMessage field)

/-- Reads the id of a vertex. -/
def readId (field : List Char) : Except LineFault UInt64 :=
  match readNatural wordLimit field with
  | .ok n => .ok n.toUInt64
  | .error cause => .error (.vertexId field cause)

variable {α : Type}

/-- Reads the fields of a relationship. A weight is looked at before the ids. -/
def readFields (readWeight : List Char → Option α) (fields : List (List Char)) :
    Except LineFault (ExternalEdge α) :=
  match fields with
  | [source, target] => do
    let source ← readId source
    let target ← readId target
    return ⟨source, target, none⟩
  | [source, target, weight] =>
    match readWeight weight with
    | none => .error (.weight weight)
    | some w => do
      let source ← readId source
      let target ← readId target
      return ⟨source, target, some w⟩
  | _ => .error .fieldCount

/-- Whether a line without blanks around it is passed over. -/
def isSkipped : List Char → Bool
  | [] => true
  | c :: _ => c == '#'

/-- Reads lines, the first of which has the given number. -/
def readLines (readWeight : List Char → Option α) :
    (number : Nat) → List (List Char) → Except Fault (List (ExternalEdge α))
  | _, [] => .ok []
  | number, line :: lines =>
    let line := Text.trim line
    if isSkipped line then readLines readWeight (number + 1) lines
    else
      match readFields readWeight (Text.fields line) with
      | .error fault => .error ⟨number, fault⟩
      | .ok edge => (readLines readWeight (number + 1) lines).map (edge :: ·)

/-- Reads an edge list. -/
def read (readWeight : List Char → Option α) (text : List Char) :
    Except Fault (List (ExternalEdge α)) :=
  readLines readWeight 1 (Text.lines text)

end Superstep.EdgeList
