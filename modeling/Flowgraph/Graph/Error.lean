import Flowgraph.Graph.Basic
import Flowgraph.Text.Quoted

namespace Flowgraph

inductive GraphError where
  | noStart (workflow : WorkflowId)
  | manyStarts (workflow : WorkflowId) (nodes : List NodeId)
  | dangling (workflow : WorkflowId) (transition : TransitionId) (node : NodeId)
  | duplicateNode (node : NodeId)
  | duplicateTransition (transition : TransitionId)
  | noVisits (workflow : WorkflowId)
deriving DecidableEq, Repr

namespace GraphError

def nodeList (nodes : List NodeId) : String :=
  Text.bracketed (nodes.map fun n => "NodeId(" ++ Text.quoted n ++ ")")

def message : GraphError → String
  | .noStart w => s!"Workflow '{w}' has no start node"
  | .manyStarts w ns => s!"Workflow '{w}' has {ns.length} start nodes: {nodeList ns}"
  | .dangling w t n => s!"Transition '{t}' references node '{n}' outside workflow '{w}'"
  | .duplicateNode n => s!"Duplicate node ID: {n}"
  | .duplicateTransition t => s!"Duplicate transition ID: {t}"
  | .noVisits w => s!"Workflow '{w}' must allow at least one visit per node (max_node_counter = 0)"

end GraphError

end Flowgraph
