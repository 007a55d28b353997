import Flowgraph.Graph.Failure
import Flowgraph.Guard.Error
import Flowgraph.Instance.Basic

namespace Flowgraph

inductive StoreError where
  | conflict (id : InstanceId) (expected found : UInt64)
  | notFound (id : InstanceId)
  | backend (reason : String)
  | overflow (id : InstanceId)
deriving DecidableEq, Repr

def StoreError.message : StoreError → String
  | .conflict i e f =>
      s!"Stale write to instance '{i}': expected version {e}, stored version is {f}"
  | .notFound i => s!"Instance not found: {i}"
  | .backend r => s!"Backend error: {r}"
  | .overflow _ => "attempt to add with overflow"

inductive EngineError where
  | action (node : NodeId) (key : String) (cause : InvokerError)
  | guard (transition : TransitionId) (expression : String) (cause : InvokerError)
  | condition (workflow : WorkflowId) (expression : String) (cause : InvokerError)
  | busy (id : InstanceId)
  | noWorkflow (id : WorkflowId)
  | noInstance (id : InstanceId)
  | wrongModel (workflow : WorkflowId) (expected found : String)
  | store (cause : StoreError)
  | workflow (cause : WorkflowError)
deriving DecidableEq, Repr

def EngineError.message : EngineError → String
  | .action n k c => s!"Entry action '{k}' failed at node '{n}': {c.message}"
  | .guard t e c => s!"Guard '{e}' on transition '{t}' could not be evaluated: {c.message}"
  | .condition w e c => s!"Condition '{e}' of workflow '{w}' could not be evaluated: {c.message}"
  | .busy i => s!"Instance '{i}' is being run by another caller"
  | .noWorkflow w => s!"Workflow not found: {w}"
  | .noInstance i => s!"Instance not found: {i}"
  | .wrongModel w e f => s!"Workflow '{w}' governs '{e}', not '{f}'"
  | .store c => s!"Store error: {c.message}"
  | .workflow c => c.message

end Flowgraph
