import Flowgraph.Instance.Basic
import Flowgraph.Guard.Error
import Flowgraph.Json.Basic

namespace Flowgraph

structure Site where
  workflow : WorkflowId
  target : Target
  instanceId : Option InstanceId := none
  node : Option NodeId := none
  actor : Option String := none
deriving DecidableEq, Repr

def Site.atNode (s : Site) (n : NodeId) : Site := { s with node := some n }

structure Invoker (ω : Type) where
  guard : String → Site → ω → Except InvokerError Bool × ω
  action : String → Site → ω → Except InvokerError Json × ω
  apply : Json.Fields → Site → ω → ω

end Flowgraph
