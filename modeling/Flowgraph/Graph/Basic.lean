namespace Flowgraph

abbrev WorkflowId := String

abbrev NodeId := String

abbrev TransitionId := String

inductive NodeKind where
  | start
  | task
  | gateway
  | finish
deriving DecidableEq, Repr

inductive Gate where
  | and
  | or
deriving DecidableEq, Repr

def NodeKind.word : NodeKind → String
  | .start => "start"
  | .task => "task"
  | .gateway => "gateway"
  | .finish => "end"

def NodeKind.ofWord? : String → Option NodeKind
  | "start" => some .start
  | "task" => some .task
  | "gateway" => some .gateway
  | "end" => some .finish
  | _ => none

def Gate.word : Gate → String
  | .and => "and"
  | .or => "or"

def Gate.ofWord? : String → Option Gate
  | "and" => some .and
  | "or" => some .or
  | _ => none

structure Node where
  id : NodeId
  name : String
  kind : NodeKind
  description : String := ""
  join : Gate := .or
  split : Gate := .or
  action : Option String := none
  workflow : WorkflowId := ""
  incoming : List TransitionId := []
  outgoing : List TransitionId := []
deriving DecidableEq, Repr

structure Transition where
  id : TransitionId
  source : NodeId
  target : NodeId
  name : String := ""
  description : String := ""
  sequence : Int32 := 0
  guard : Option String := none
deriving DecidableEq, Repr

def Transition.label (t : Transition) : String := if t.name.isEmpty then t.id else t.name

def Transition.isGuarded (t : Transition) : Bool := t.guard.isSome

def Transition.precedes (a b : Transition) : Bool :=
  a.sequence < b.sequence || (a.sequence = b.sequence && a.id ≤ b.id)

def Node.isStart (n : Node) : Bool := n.kind = .start

def Node.isFinish (n : Node) : Bool := n.kind = .finish

end Flowgraph
