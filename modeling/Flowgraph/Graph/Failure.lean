import Flowgraph.Graph.Workflow

namespace Flowgraph

inductive WorkflowError where
  | visitLimit (node : NodeId) (visits max : UInt32)
  | nodeNotFound (node : NodeId)
  | wrongWorkflow (expected found : WorkflowId)
  -- A count of visits, or else of passes, that has no room left: checked addition stops here.
  | overflow (node : Option NodeId)
deriving DecidableEq, Repr

def WorkflowError.message : WorkflowError → String
  | .visitLimit n v m => s!"Node '{n}' reached {v} visits, limit is {m}"
  | .nodeNotFound n => s!"Node not found: {n}"
  | .wrongWorkflow e f => s!"Instance belongs to workflow '{e}', not '{f}'"
  | .overflow _ => "attempt to add with overflow"

def Workflow.requireNode (w : Workflow) (n : NodeId) : Except WorkflowError Node :=
  match w.node? n with
  | some x => .ok x
  | none => .error (.nodeNotFound n)

end Flowgraph
