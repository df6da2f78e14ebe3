import Superstep.Scalar

/-!
# Expressions

The arithmetic of scripts. An expression combines constants, atoms and queries, whose values depend
on where the expression is used: an atom is looked up, and a query is asked with the value of an
expression. Truth values are numbers: zero is false, everything else is true.

Operands are evaluated from left to right, and all of them are.

Like all of the script language, expressions have no part in the engine: they serve tests that give
a program as data, and no theorem is about them.
-/

namespace Superstep.Script

/-- An operation on two numbers. -/
inductive Operator where
  | add
  | sub
  | mul
  | div
  /-- What is left of the first number after whole multiples of the second. -/
  | mod
  | less
  | lessEq
  | equal
  | and
  | or
  deriving Repr, DecidableEq

/-- A truth value as a number. -/
def truth (b : Bool) : Float := if b then 1.0 else 0.0

/-- A number as a truth value. -/
def isTrue (x : Float) : Bool := x != 0.0

/-- The value of an operation. -/
def Operator.apply (op : Operator) (a b : Float) : Float :=
  match op with
  | .add => a + b
  | .sub => a - b
  | .mul => a * b
  | .div => a / b
  | .mod => a - b * (a / b).floor
  | .less => truth (a < b)
  | .lessEq => truth (a ≤ b)
  | .equal => truth (a == b)
  | .and => truth (isTrue a && isTrue b)
  | .or => truth (isTrue a || isTrue b)

/-- An expression over atoms and queries. -/
inductive Expr (Atom Query : Type) where
  | const (x : Float)
  | atom (a : Atom)
  | query (q : Query) (argument : Expr Atom Query)
  | negation (operand : Expr Atom Query)
  | binary (op : Operator) (left right : Expr Atom Query)

/-- The value of an expression, where atoms and queries have the given values. -/
def Expr.eval {Atom Query : Type} {m : Type → Type} [Monad m] (lookup : Atom → m Float)
    (ask : Query → Float → m Float) : Expr Atom Query → m Float
  | .const x => pure x
  | .atom a => lookup a
  | .query q argument => do ask q (← argument.eval lookup ask)
  | .negation operand => do return truth (!isTrue (← operand.eval lookup ask))
  | .binary op left right => do
    let a ← left.eval lookup ask
    let b ← right.eval lookup ask
    return op.apply a b

/-- The values of expressions, in order. -/
def evalAll {E : Type} {m : Type → Type} [Monad m] (eval : E → m Float) : List E → m (List Float)
  | [] => pure []
  | e :: es => do
    let x ← eval e
    let xs ← evalAll eval es
    return x :: xs

/-- A number as a vertex, a count or an id: the fraction is dropped, and what is out of range is
moved to the closest 64-bit word. -/
def toWord (x : Float) : UInt64 := x.toUInt64

/-- A number as a vertex or a count. -/
def toIndex (x : Float) : Nat := (toWord x).toNat

/-- Statements, which act, branch and repeat. -/
inductive Statement (Action Condition : Type) where
  | act (a : Action)
  | branch (condition : Condition) (yes no : List (Statement Action Condition))
  | repeated (count : Condition) (body : List (Statement Action Condition))

namespace Statement

variable {Action Condition : Type} {m : Type → Type} [Monad m]

/-- Does the same thing `count` times. -/
def times : (count : Nat) → m Unit → m Unit
  | 0, _ => pure ()
  | count + 1, body => do
    body
    times count body

mutual

/-- Carries out a statement. -/
def run (eval : Condition → m Float) (perform : Action → m Unit) :
    Statement Action Condition → m Unit
  | .act a => perform a
  | .branch condition yes no => do
    if isTrue (← eval condition) then runAll eval perform yes else runAll eval perform no
  | .repeated count body => do times (toIndex (← eval count)) (runAll eval perform body)

/-- Carries out statements in order. -/
def runAll (eval : Condition → m Float) (perform : Action → m Unit) :
    List (Statement Action Condition) → m Unit
  | [] => pure ()
  | s :: rest => do
    run eval perform s
    runAll eval perform rest

end

end Statement

end Superstep.Script
