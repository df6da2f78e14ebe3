import Superstep.Json.ExactDouble
import Superstep.Json.Record
import Superstep.Script

/-!
# Scripts in JSON

A statement is an array of its name and its arguments, an expression a number or an array of its
name and its arguments. A text that starts with a dollar sign is a name without arguments. What the
names mean depends on the hook: a `Vocabulary` tells which atoms and queries there are, and which
actions.

This is the form in which tests give their programs. The engine does not use it, and no theorem is
about it.
-/

namespace Superstep.Script

/-- The operation of a given name. -/
def Operator.ofName? : String → Option Operator
  | "+" => some .add
  | "-" => some .sub
  | "*" => some .mul
  | "/" => some .div
  | "mod" => some .mod
  | "<" => some .less
  | "<=" => some .lessEq
  | "==" => some .equal
  | "and" => some .and
  | "or" => some .or
  | _ => none

/-- What a name with a key, or without one, means in expressions. -/
structure Vocabulary (Atom Query : Type) where
  atom? : (name : String) → (key : Option String) → Option Atom
  query? : (name : String) → (key : Option String) → Option Query

/-- Reads an expression. -/
def Expr.ofJson? {Atom Query : Type} (vocabulary : Vocabulary Atom Query) :
    Json → Option (Expr Atom Query)
  | .number n => some (.const n.nearest)
  | .string (some s) =>
    if s.startsWith "$" then (vocabulary.atom? s none).map .atom
    else (Json.exactDouble? s).map .const
  | .array [.string (some name)] => (vocabulary.atom? name none).map .atom
  | .array [.string (some name), argument] =>
    match argument.toText?.bind fun key => vocabulary.atom? name (some key) with
    | some a => some (.atom a)
    | none => do
      let e ← ofJson? vocabulary argument
      if name = "not" then return .negation e else return .query (← vocabulary.query? name none) e
  | .array [.string (some name), first, second] =>
    match Operator.ofName? name with
    | some op => do
      let left ← ofJson? vocabulary first
      let right ← ofJson? vocabulary second
      return .binary op left right
    | none => do
      let q ← vocabulary.query? name (some (← first.toText?))
      return .query q (← ofJson? vocabulary second)
  | _ => none

mutual

/-- Reads a statement. -/
def Statement.ofJson? {Action E : Type} (action? : String → List Json → Option Action)
    (read : Json → Option E) : Json → Option (Statement Action E)
  | .array [.string (some "if"), condition, .array yes] => do
    let yes ← Statement.listOfJson? action? read yes
    return .branch (← read condition) yes []
  | .array [.string (some "if"), condition, .array yes, .array no] => do
    let yes ← Statement.listOfJson? action? read yes
    let no ← Statement.listOfJson? action? read no
    return .branch (← read condition) yes no
  | .array [.string (some "repeat"), count, .array body] => do
    let body ← Statement.listOfJson? action? read body
    return .repeated (← read count) body
  | .array (.string (some name) :: arguments) => (action? name arguments).map .act
  | _ => none

/-- Reads statements. -/
def Statement.listOfJson? {Action E : Type} (action? : String → List Json → Option Action)
    (read : Json → Option E) : List Json → Option (List (Statement Action E))
  | [] => some []
  | j :: rest => do
    let s ← Statement.ofJson? action? read j
    let statements ← Statement.listOfJson? action? read rest
    return s :: statements

end

/-- The items of an array, each read in the same way. -/
def readArray? {β : Type} (read : Json → Option β) : Json → Option (List β)
  | .array items => items.mapM read
  | _ => none

/-- Reads a 64-bit integer. -/
def readLong? : Json → Option Int64
  | .number n => n.toLong?
  | _ => none

/-- The atom of a given name while vertices are set up. -/
def VertexAtom.ofName? (name : String) (key : Option String) : Option VertexAtom :=
  match name, key with
  | "$node", none => some .node
  | "$n", none => some .nodeCount
  | "$m", none => some .relationshipCount
  | "$degree", none => some .degree
  | "$term", none => some .isTerminated
  | "$max_iter", none => some .maxIterations
  | "nsum", none => some .neighborSum
  | "long", some key => some (.long key)
  | "double", some key => some (.double key)
  | "llen", some key => some (.longLength key)
  | "dlen", some key => some (.doubleLength key)
  | "lsum", some key => some (.longSum key)
  | "dsum", some key => some (.doubleSum key)
  | _, _ => none

/-- The query of a given name. -/
def VertexQuery.ofName? (name : String) (key : Option String) : Option VertexQuery :=
  match name, key with
  | "wsum", none => some .weightSum
  | "orig", none => some .externalId
  | "mapped", none => some .denseId
  | _, _ => none

/-- The atom of a given name in a superstep. -/
def ComputeAtom.ofName? (name : String) (key : Option String) : Option ComputeAtom :=
  match name, key with
  | "$step", none => some .superstep
  | "$initial", none => some .isInitial
  | "$count", none => some .messageCount
  | "$sum", none => some .messageSum
  | "$min", none => some .messageMin
  | "$max", none => some .messageMax
  | name, key => (VertexAtom.ofName? name key).map .vertex

/-- The atom of a given name along a relationship. -/
def EdgeAtom.ofName? (name : String) (key : Option String) : Option EdgeAtom :=
  match name, key with
  | "$w", none => some .weight
  | "$t", none => some .target
  | name, key => (ComputeAtom.ofName? name key).map .compute

/-- The atom of a given name between supersteps. -/
def MasterAtom.ofName? (name : String) (key : Option String) : Option MasterAtom :=
  match name, key with
  | "$step", none => some .superstep
  | "$initial", none => some .isInitial
  | "$n", none => some .nodeCount
  | "$m", none => some .relationshipCount
  | "$term", none => some .isTerminated
  | "$max_iter", none => some .maxIterations
  | "long_total", some key => some (.longTotal key)
  | "double_total", some key => some (.doubleTotal key)
  | _, _ => none

/-- The query of a given name between supersteps. -/
def MasterQuery.ofName? (name : String) (key : Option String) : Option MasterQuery :=
  match name, key with
  | "long_at", some key => some (.longAt key)
  | "double_at", some key => some (.doubleAt key)
  | _, _ => none

/-- Reads an expression of a vertex that is set up. -/
def VertexExpr.ofJson? : Json → Option VertexExpr :=
  Expr.ofJson? ⟨VertexAtom.ofName?, VertexQuery.ofName?⟩

/-- Reads an expression of a computing vertex. -/
def ComputeExpr.ofJson? : Json → Option ComputeExpr :=
  Expr.ofJson? ⟨ComputeAtom.ofName?, VertexQuery.ofName?⟩

/-- Reads an expression for a message along a relationship. -/
def EdgeExpr.ofJson? : Json → Option EdgeExpr :=
  Expr.ofJson? ⟨EdgeAtom.ofName?, VertexQuery.ofName?⟩

/-- Reads an expression between supersteps. -/
def MasterExpr.ofJson? : Json → Option MasterExpr :=
  Expr.ofJson? ⟨MasterAtom.ofName?, MasterQuery.ofName?⟩

/-- Reads an action that can be taken in either phase. -/
def VertexAction.ofJson? {Atom : Type} (read : Json → Option (Expr Atom VertexQuery))
    (name : String) (arguments : List Json) : Option (VertexAction Atom) := do
  match name, arguments with
  | "set_long", [key, e] => return .setLong (← key.toText?) (← read e)
  | "set_double", [key, e] => return .setDouble (← key.toText?) (← read e)
  | "set_larr", [key, es] => return .setLongArray (← key.toText?) (← readArray? read es)
  | "set_darr", [key, es] => return .setDoubleArray (← key.toText?) (← readArray? read es)
  | "push_l", [key, e] => return .pushLong (← key.toText?) (← read e)
  | "push_d", [key, e] => return .pushDouble (← key.toText?) (← read e)
  | "fail", [text] => return .fail (← text.toText?)
  | "panic", [text] => return .violate (← text.toText?)
  | "terminate", [] => return .terminate
  | _, _ => none

/-- Reads an action of a computing vertex. -/
def ComputeAction.ofJson? (name : String) (arguments : List Json) : Option ComputeAction := do
  match name, arguments with
  | "send", [target, e] => return .send (← ComputeExpr.ofJson? target) (← ComputeExpr.ofJson? e)
  | "send_all", [e] => return .sendToNeighbors (← ComputeExpr.ofJson? e)
  | "send_w", [fallback, e] =>
    return .sendAlong (← ComputeExpr.ofJson? fallback) (← EdgeExpr.ofJson? e)
  | "push_msgs", [key] => return .pushMessages (← key.toText?)
  | "halt", [] => return .voteToHalt
  | name, arguments => return .vertex (← VertexAction.ofJson? ComputeExpr.ofJson? name arguments)

/-- Reads an action between supersteps. -/
def MasterAction.ofJson? (name : String) (arguments : List Json) : Option MasterAction := do
  match name, arguments with
  | "set_long_at", [key, node, e] =>
    return .setLongAt (← key.toText?) (← MasterExpr.ofJson? node) (← MasterExpr.ofJson? e)
  | "set_double_at", [key, node, e] =>
    return .setDoubleAt (← key.toText?) (← MasterExpr.ofJson? node) (← MasterExpr.ofJson? e)
  | "set_larr_at", [key, node, values] =>
    return .setLongArrayAt (← key.toText?) (← MasterExpr.ofJson? node)
      (← readArray? readLong? values)
  | "halt", [] => return .halt
  | "fail", [text] => return .fail (← text.toText?)
  | "panic", [text] => return .violate (← text.toText?)
  | "terminate", [] => return .terminate
  | _, _ => none

/-- Reads the statements of a hook. A missing hook has none. -/
def readHook? {Action E : Type} (action? : String → List Json → Option Action)
    (read : Json → Option E) : Option Json → Option (List (Statement Action E))
  | none | some .null => some []
  | some (.array statements) => Statement.listOfJson? action? read statements
  | some _ => none

/-- Reads the name of a reducer. A missing one means that there is none. -/
def NamedReducer.ofJson? : Option Json → Option (Option NamedReducer)
  | none | some .null => some none
  | some (.string (some name)) => (NamedReducer.ofName? name).map some
  | some _ => none

/-- Reads a script whose schema was read before. -/
def ofMembers? (schema : Except Violation (Schema Float)) (member? : String → Option Json) :
    Option Script := do
  return {
    schema
    reducer := ← NamedReducer.ofJson? (member? "reducer")
    init := ←
      readHook? (VertexAction.ofJson? VertexExpr.ofJson?) VertexExpr.ofJson? (member? "init")
    compute := ← readHook? ComputeAction.ofJson? ComputeExpr.ofJson? (member? "compute")
    master := ← readHook? MasterAction.ofJson? MasterExpr.ofJson? (member? "master") }

end Superstep.Script
