import Flowgraph.Engine.Error
import Flowgraph.Engine.Invoker

namespace Flowgraph

variable {ω : Type}

namespace Invoker

def opens (inv : Invoker ω) (t : Transition) (site : Site) (s : ω) :
    Except EngineError Bool × ω :=
  match t.guard with
  | none => (.ok true, s)
  | some e =>
      match inv.guard e site s with
      | (.ok b, s) => (.ok b, s)
      | (.error c, s) => (.error (.guard t.id e c), s)

def choose (inv : Invoker ω) (gate : Gate) (site : Site) :
    List Transition → ω → Except EngineError (List Transition) × ω
  | [], s => (.ok [], s)
  | t :: ts, s =>
      match inv.opens t site s with
      | (.error e, s) => (.error e, s)
      | (.ok false, s) => inv.choose gate site ts s
      | (.ok true, s) =>
          match gate with
          | .or => (.ok [t], s)
          | .and =>
              match inv.choose gate site ts s with
              | (.error e, s) => (.error e, s)
              | (.ok l, s) => (.ok (t :: l), s)

end Invoker

namespace Workflow

def split (w : Workflow) (inv : Invoker ω) (site : Site) (n : Node) (s : ω) :
    Except EngineError (List Transition) × ω :=
  if n.isFinish then (.ok [], s) else inv.choose n.split site (w.outgoing n.id) s

def joinHolds (w : Workflow) (n : Node) (arrivals : IdSet) : Bool :=
  match n.join with
  | .or => !arrivals.isEmpty
  | .and => (w.incoming n.id).all fun t => arrivals.contains t.id

end Workflow

end Flowgraph
