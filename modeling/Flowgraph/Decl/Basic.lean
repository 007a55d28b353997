import Flowgraph.Graph.Basic

namespace Flowgraph

structure NodeDecl where
  id : NodeId
  kind : String
  line : Nat
  name : Option String := none
  description : Option String := none
  join : Option String := none
  split : Option String := none
  action : Option String := none
deriving DecidableEq, Repr

structure TransitionDecl where
  source : NodeId
  target : NodeId
  line : Nat
  id : Option TransitionId := none
  name : Option String := none
  sequence : Option Int := none
  guard : Option String := none
deriving DecidableEq, Repr

structure Declaration where
  name : String
  id : Option WorkflowId := none
  model : Option String := none
  description : Option String := none
  maxCounter : Option Int := none
  sequence : Option Int := none
  condition : Option String := none
  inactive : Bool := false
  nodes : List NodeDecl := []
  transitions : List TransitionDecl := []
deriving DecidableEq, Repr

def defaultTransitionId (source target : NodeId) : TransitionId := source ++ "_to_" ++ target

def TransitionDecl.effectiveId (t : TransitionDecl) : TransitionId :=
  t.id.getD (defaultTransitionId t.source t.target)

def NodeDecl.effectiveName (n : NodeDecl) : String := n.name.getD n.id

end Flowgraph
