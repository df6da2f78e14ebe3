import Superstep.Violation

/-!
# Operations

An operation on an object is a sequence of effects: it reads one part of the object, changes another
one. Each part looks for itself at the index that it is given. A part that refuses breaks the
operation off, and what was done before is not taken back.

Elsewhere operations are total, or check everything before they do anything. Here is what they are
made of.
-/

namespace Superstep

/-- An operation on objects in states `σ`. It answers or is broken off, and leaves a state in both
cases. -/
structure Operation (σ β : Type) where
  run : σ → Except Violation β × σ

namespace Operation

variable {σ τ β : Type}

instance : Monad (Operation σ) where
  pure b := ⟨fun s => (.ok b, s)⟩
  bind e f := ⟨fun s =>
    match e.run s with
    | (.ok b, s) => (f b).run s
    | (.error violation, s) => (.error violation, s)⟩

/-- Breaks off. -/
def refuse (violation : Violation) : Operation σ β := ⟨fun s => (.error violation, s)⟩

/-- Reads from the state. -/
def read (f : σ → Except Violation β) : Operation σ β := ⟨fun s => (f s, s)⟩

/-- Changes the state. -/
def change (f : σ → σ) : Operation σ Unit := ⟨fun s => (.ok (), f s)⟩

/-- An operation on a part of the object. -/
def on (part : σ → τ) (put : σ → τ → σ) (run : τ → Except Violation β × τ) : Operation σ β :=
  ⟨fun s => let (answer, t) := run (part s); (answer, put s t)⟩

end Operation

variable {σ ρ β : Type}

/-- The state of an object after requests, whether they were answered or not. -/
def afterRequests (perform : σ → ρ → Except Violation β × σ) (s : σ) (requests : List ρ) : σ :=
  requests.foldl (fun s request => (perform s request).2) s

/-- What an object says to requests. -/
def answersTo (perform : σ → ρ → Except Violation β × σ) : σ → List ρ → List (Except Violation β)
  | _, [] => []
  | s, request :: requests =>
    let (answer, s) := perform s request
    answer :: answersTo perform s requests

end Superstep
