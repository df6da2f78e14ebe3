import Superstep.Hook
import Superstep.Word

/-!
# Connected components

Every vertex starts with its own number as a label and takes over the least label that it hears of.
Labels travel along relationships, so that on an undirected graph two vertices end with one label
exactly if they are connected.
-/

namespace Superstep.Components

/-- The key of the result. -/
def componentKey : String := "component"

variable {α : Type} [Scalar α]

/-- The slots of a vertex. -/
def schema : Except Violation (Schema α) := Schema.build [.plain componentKey .long .visible]

/-- Labels a vertex with its own number. -/
def init : HookM .init α Unit := do
  let v ← HookM.vertex
  if v < longLimit then HookM.setLong componentKey (.ofNat v)
  else HookM.fail "out of range integral type conversion attempted"

/-- Takes over a smaller label and passes it on. -/
def compute : HookM .compute α Unit := do
  let current ← HookM.long componentKey
  if ← HookM.isInitialSuperstep then
    HookM.sendToNeighbors (Scalar.ofLong current)
  else
    let smallest := Scalar.least (← HookM.inbox)
    if Scalar.less smallest (Scalar.ofLong current : α) then
      HookM.setLong componentKey (Scalar.toLong smallest)
      HookM.sendToNeighbors smallest
  HookM.voteToHalt

/-- Connected components as a vertex program. -/
def program : Program α where
  schema _ := schema
  reducer := some .min
  init := init.reply
  compute := compute.reply
  master := Program.proceed

end Superstep.Components
