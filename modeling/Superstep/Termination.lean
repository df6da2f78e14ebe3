import Superstep.RunError

/-!
# Termination flags

A flag asks a run to stop. It can be raised and never lowered, and whoever holds it sees it raised.

`Flag` is a run's own view of its flag. `FlagTable` is a set of handles on flags, of which several
may stand for the same one.
-/

namespace Superstep

/-- The flag of a run. -/
structure Flag where
  /-- Whether the run was asked to stop. -/
  raised : Bool
  /-- Whether the vertex program holds the flag too, so that it can ask the run to stop. -/
  heldByProgram : Bool
  deriving Repr, DecidableEq, Inhabited

namespace Flag

/-- A flag that only the run's owner holds. -/
def fresh : Flag := ⟨false, false⟩

/-- A flag that the owner and the vertex program hold. -/
def shared : Flag := ⟨false, true⟩

/-- The flag after its owner raised it. -/
def raise (f : Flag) : Flag := ⟨true, f.heldByProgram⟩

/-- The flag after the vertex program raised the one it holds. -/
def request (f : Flag) : Flag := ⟨f.raised || f.heldByProgram, f.heldByProgram⟩

end Flag

/-- Handles on termination flags. -/
structure FlagTable where
  /-- The flag that each handle stands for. -/
  handles : Array Nat
  /-- Whether each flag is raised. -/
  flags : Array Bool
  deriving Repr, DecidableEq

namespace FlagTable

/-- One handle on one flag. -/
def single : FlagTable := ⟨#[0], #[false]⟩

/-- Number of handles. -/
def size (t : FlagTable) : Nat := t.handles.size

/-- Adds a handle on a new flag. -/
def addFresh (t : FlagTable) : FlagTable := ⟨t.handles.push t.flags.size, t.flags.push false⟩

/-- Adds another handle on the flag of handle `i`. -/
def addClone (t : FlagTable) (i : Nat) : FlagTable :=
  match t.handles[i]? with
  | some flag => ⟨t.handles.push flag, t.flags⟩
  | none => t

/-- Raises the flag of handle `i`. -/
def raise (t : FlagTable) (i : Nat) : FlagTable :=
  match t.handles[i]? with
  | some flag => ⟨t.handles, t.flags.setIfInBounds flag true⟩
  | none => t

/-- Whether the flag of handle `i` is raised. -/
def isRaised (t : FlagTable) (i : Nat) : Bool :=
  match t.handles[i]? with
  | some flag => t.flags.getD flag false
  | none => false

/-- An error naming the superstep, if the flag of handle `i` is raised. -/
def assertRunning (t : FlagTable) (i superstep : Nat) : Except RunError Unit :=
  if t.isRaised i then .error (.terminated superstep) else .ok ()

end FlagTable

end Superstep
