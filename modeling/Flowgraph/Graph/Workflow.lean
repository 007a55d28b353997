import Flowgraph.Graph.Draft
import Flowgraph.Keyed

namespace Flowgraph

structure Graph extends Header where
  root : NodeId
  nodes : Keyed NodeId Node
  transitions : Keyed TransitionId Transition
deriving DecidableEq, Repr

namespace Graph

def ordered (g : Graph) : List Transition := g.transitions.values.mergeSort Transition.precedes

def leaving (g : Graph) (n : NodeId) : List Transition := g.ordered.filter (·.source = n)

def arriving (g : Graph) (n : NodeId) : List Transition := g.ordered.filter (·.target = n)

structure WellFormed (g : Graph) : Prop where
  limit_pos : g.visitLimit ≠ 0
  node_id : ∀ {k n}, g.nodes.get? k = some n → n.id = k
  node_workflow : ∀ {k n}, g.nodes.get? k = some n → n.workflow = g.id
  node_incoming : ∀ {k n}, g.nodes.get? k = some n → n.incoming = (g.arriving k).map (·.id)
  node_outgoing : ∀ {k n}, g.nodes.get? k = some n → n.outgoing = (g.leaving k).map (·.id)
  root_mem : g.nodes.contains g.root = true
  start_iff : ∀ {k n}, g.nodes.get? k = some n → (n.kind = .start ↔ k = g.root)
  transition_id : ∀ {k t}, g.transitions.get? k = some t → t.id = k
  source_mem : ∀ {k t}, g.transitions.get? k = some t → g.nodes.contains t.source = true
  target_mem : ∀ {k t}, g.transitions.get? k = some t → g.nodes.contains t.target = true

end Graph

structure Workflow extends Graph where
  wellFormed : toGraph.WellFormed
deriving DecidableEq

namespace Workflow

def node? (w : Workflow) (n : NodeId) : Option Node := w.nodes.get? n

def transition? (w : Workflow) (t : TransitionId) : Option Transition := w.transitions.get? t

def contains (w : Workflow) (n : NodeId) : Bool := w.nodes.contains n

def isStart (w : Workflow) (n : NodeId) : Bool := (w.node? n).any Node.isStart

def isFinish (w : Workflow) (n : NodeId) : Bool := (w.node? n).any Node.isFinish

def outgoing (w : Workflow) (n : NodeId) : List Transition :=
  match w.node? n with
  | some x => x.outgoing.filterMap w.transition?
  | none => []

def incoming (w : Workflow) (n : NodeId) : List Transition :=
  match w.node? n with
  | some x => x.incoming.filterMap w.transition?
  | none => []

def finishes (w : Workflow) : List Node := w.nodes.values.filter Node.isFinish

def toDraft (w : Workflow) : Draft :=
  { w.toHeader with nodes := w.nodes.values, transitions := w.transitions.values }

end Workflow

end Flowgraph
