import Flowgraph.Decl.Check
import Flowgraph.Decl.Read
import Flowgraph.Graph.Build

namespace Flowgraph

namespace Decl

def narrow {α : Type} (field : String) (r : IntRange) (convert : Int → α) (n : Int) :
    Except DeclError α :=
  if r.has n then .ok (convert n) else .error (.misfit field (.outOfRange n))

def narrowLimit (n : Int) : Except DeclError UInt32 :=
  narrow "MAX_COUNTER" IntRange.unsigned32 (fun n => UInt32.ofNat n.toNat) n

def narrowSequence (field : String) (n : Int) : Except DeclError Int32 :=
  narrow field IntRange.signed32 Int32.ofInt n

def inGraph {α : Type} : Except GraphError α → Except DeclError α
  | .ok a => .ok a
  | .error e => .error (.graph e)

def orDefault {α β : Type} (d : β) (convert : α → Except DeclError β) :
    Option α → Except DeclError β
  | none => .ok d
  | some a => convert a

def readKind (word : String) : Except DeclError NodeKind :=
  match NodeKind.ofWord? word with
  | some k => .ok k
  | none => .error (.unknownNodeKind word)

def readGate (word : String) : Except DeclError Gate :=
  match Gate.ofWord? word with
  | some g => .ok g
  | none => .error (.unknownGate word)

end Decl

def NodeDecl.compile (n : NodeDecl) : Except DeclError Node := do
  let kind ← Decl.readKind n.kind
  let join ← Decl.orDefault .or Decl.readGate n.join
  let split ← Decl.orDefault .or Decl.readGate n.split
  .ok {
    id := n.id
    name := n.effectiveName
    kind
    description := n.description.getD ""
    join
    split
    action := n.action }

def TransitionDecl.compile (t : TransitionDecl) : Except DeclError Transition := do
  let sequence ← Decl.orDefault 0 (Decl.narrowSequence "transition SEQUENCE") t.sequence
  .ok {
    id := t.effectiveId
    source := t.source
    target := t.target
    name := t.name.getD ""
    sequence
    guard := t.guard }

namespace Declaration

def header (fresh : WorkflowId) (d : Declaration) : Except DeclError Header := do
  let model ←
    match d.model with
    | some m => .ok m
    | none => .error (.missing "MODEL")
  let visitLimit ← Decl.orDefault 1 Decl.narrowLimit d.maxCounter
  let sequence ← Decl.orDefault 0 (Decl.narrowSequence "SEQUENCE") d.sequence
  .ok {
    id := d.id.getD fresh
    name := d.name
    model
    description := d.description.getD ""
    visitLimit
    active := !d.inactive
    sequence
    condition := d.condition }

def addNode (draft : Draft) (n : NodeDecl) : Except DeclError Draft := do
  Decl.inGraph (draft.addNode (← n.compile))

def addTransition (draft : Draft) (t : TransitionDecl) : Except DeclError Draft := do
  Decl.inGraph (draft.addTransition (← t.compile))

def toDraft (fresh : WorkflowId) (d : Declaration) : Except DeclError Draft := do
  let header ← d.header fresh
  let draft ← d.nodes.foldlM addNode { header with }
  d.transitions.foldlM addTransition draft

def compile (fresh : WorkflowId) (d : Declaration) : Except DeclError Workflow := do
  Decl.inGraph (← d.toDraft fresh).build

end Declaration

def Workflow.ofSource (fresh : WorkflowId) (source : String) : Except DeclError Workflow := do
  let d ← Declaration.read source
  d.check
  d.compile fresh

end Flowgraph
