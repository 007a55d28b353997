import Flowgraph.Graph.Error

namespace Flowgraph

structure Header where
  id : WorkflowId
  name : String
  model : String
  description : String := ""
  visitLimit : UInt32 := 1
  active : Bool := true
  sequence : Int32 := 0
  condition : Option String := none
deriving DecidableEq, Repr

structure Draft extends Header where
  nodes : List Node := []
  transitions : List Transition := []
deriving DecidableEq, Repr

namespace Draft

def nodeIds (d : Draft) : List NodeId := d.nodes.map (·.id)

def transitionIds (d : Draft) : List TransitionId := d.transitions.map (·.id)

def looseEnd? (d : Draft) (t : Transition) : Option NodeId :=
  [t.source, t.target].find? fun n => !d.nodeIds.contains n

def addNode (d : Draft) (n : Node) : Except GraphError Draft :=
  if d.nodeIds.contains n.id then .error (.duplicateNode n.id)
  else .ok { d with nodes := d.nodes ++ [n] }

def addTransition (d : Draft) (t : Transition) : Except GraphError Draft :=
  if d.transitionIds.contains t.id then .error (.duplicateTransition t.id)
  else
    match d.looseEnd? t with
    | some n => .error (.dangling d.id t.id n)
    | none => .ok { d with transitions := d.transitions ++ [t] }

end Draft

end Flowgraph
