import Flowgraph.Graph.Workflow

namespace Flowgraph.Workflow

def successors (w : Workflow) (n : NodeId) : List NodeId := (w.outgoing n).map (·.target)

def unreached (w : Workflow) (unseen stack : List NodeId) : List NodeId :=
  match stack with
  | [] => unseen
  | n :: rest =>
      if n ∈ unseen then unreached w (unseen.erase n) (w.successors n ++ rest)
      else unreached w unseen rest
termination_by (unseen.length, stack.length)
decreasing_by
  · refine Prod.Lex.left _ _ ?_
    rw [List.length_erase_of_mem ‹_›]
    have := List.length_pos_of_mem ‹n ∈ unseen›
    omega
  · exact Prod.Lex.right _ (by simp)

def unreachable (w : Workflow) : List NodeId := w.unreached w.nodes.keys [w.root]

inductive Path (w : Workflow) : NodeId → NodeId → Prop where
  | here (n : NodeId) : Path w n n
  | step {a b : NodeId} {t : Transition} :
      Path w a b → t ∈ w.outgoing b → Path w a t.target

end Flowgraph.Workflow
