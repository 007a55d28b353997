import Flowgraph.Decl.Basic
import Flowgraph.Decl.Error
import Flowgraph.Number.Range
import Flowgraph.Repeat
import Flowgraph.Text.Blank

namespace Flowgraph

namespace NodeDecl

def gates (n : NodeDecl) : List String := n.join.toList ++ n.split.toList

end NodeDecl

namespace Declaration

def modelFault? (d : Declaration) : Option DeclError :=
  if d.model.any fun m => !(Text.trim m.toList).isEmpty then none else some (.missing "MODEL")

def emptyFault? (d : Declaration) : Option DeclError :=
  if d.nodes.isEmpty then some (.invalid .noNodes) else none

def nodeIdFault? (d : Declaration) : Option DeclError :=
  (firstRepeat [] (d.nodes.map (·.id))).map .duplicateNode

def kindFault? (d : Declaration) : Option DeclError :=
  d.nodes.findSome? fun n =>
    if (NodeKind.ofWord? n.kind).isNone then some (.unknownNodeKind n.kind) else none

def starts (d : Declaration) : List NodeId :=
  (d.nodes.filter fun n => n.kind = NodeKind.start.word).map (·.id)

def startFault? (d : Declaration) : Option DeclError :=
  match d.starts with
  | [] => some (.invalid .noStart)
  | [_] => none
  | ids => some (.invalid (.manyStarts ids))

def gateFault? (d : Declaration) : Option DeclError :=
  (d.nodes.flatMap NodeDecl.gates).findSome? fun g =>
    if (Gate.ofWord? g).isNone then some (.unknownGate g) else none

def limitFault? (d : Declaration) : Option DeclError :=
  d.maxCounter.bind fun n =>
    if n < 1 ∨ IntRange.unsigned32.high < n then some (.misfit "MAX_COUNTER" (.outsideLimit n))
    else none

def sequenceMisfit? (field : String) (n : Option Int) : Option DeclError :=
  n.bind fun n => if IntRange.signed32.has n then none else some (.misfit field (.notSequence n))

def sequenceFault? (d : Declaration) : Option DeclError :=
  sequenceMisfit? "SEQUENCE" d.sequence <|>
    d.transitions.findSome? fun t => sequenceMisfit? "transition SEQUENCE" t.sequence

def endFault? (d : Declaration) (t : TransitionDecl) : Option DeclError :=
  [(Decl.Role.source, t.source), (Decl.Role.target, t.target)].findSome? fun (role, n) =>
    if (d.nodes.map (·.id)).contains n then none
    else some (.invalid (.unknownEndpoint t.line role n))

def transitionIdFault? (d : Declaration) : Option DeclError :=
  (firstRepeat [] (d.transitions.filterMap (·.id))).map fun t => .invalid (.duplicateTransition t)

def fault? (d : Declaration) : Option DeclError :=
  d.modelFault? <|> d.emptyFault? <|> d.nodeIdFault? <|> d.kindFault? <|> d.startFault? <|>
    d.gateFault? <|> d.limitFault? <|> d.sequenceFault? <|>
    d.transitions.findSome? d.endFault? <|> d.transitionIdFault?

def check (d : Declaration) : Except DeclError Unit :=
  match d.fault? with
  | some e => .error e
  | none => .ok ()

end Declaration

end Flowgraph
