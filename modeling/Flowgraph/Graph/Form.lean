import Flowgraph.Graph.Build
import Flowgraph.Json.Record

namespace Flowgraph

open Json

def NodeKind.name : NodeKind → String
  | .start => "Start"
  | .task => "Task"
  | .gateway => "Gateway"
  | .finish => "End"

def NodeKind.ofName? : String → Option NodeKind
  | "Start" => some .start
  | "Task" => some .task
  | "Gateway" => some .gateway
  | "End" => some .finish
  | _ => none

def NodeKind.toJson (k : NodeKind) : Json := .str k.name

def NodeKind.ofJson? : Json → Option NodeKind := readName NodeKind.ofName?

def Gate.name : Gate → String
  | .and => "And"
  | .or => "Or"

def Gate.ofName? : String → Option Gate
  | "And" => some .and
  | "Or" => some .or
  | _ => none

def Gate.toJson (g : Gate) : Json := .str g.name

def Gate.ofJson? : Json → Option Gate := readName Gate.ofName?

namespace Node

def fields : List String :=
  ["id", "name", "description", "node_type", "start_logic_operator", "end_logic_operator", "action"]

def ofJson? (c : Codec) (v : Json) : Option Node := do
  match ← c.slots? fields v with
  | [id, name, description, kind, join, split, action] =>
      some {
        id := ← id.required readText
        name := ← name.required readText
        description := ← description.orElse readText ""
        kind := ← kind.required NodeKind.ofJson?
        join := ← join.orElse Gate.ofJson? .or
        split := ← split.orElse Gate.ofJson? .or
        action := ← action.optionalOrNone readText }
  | _ => none

def toJson (n : Node) : Json :=
  ofFields <| [
    ("id", .str n.id),
    ("name", .str n.name),
    ("node_type", n.kind.toJson),
    ("start_logic_operator", n.join.toJson),
    ("end_logic_operator", n.split.toJson)] ++
    whenText "description" n.description ++ whenSome "action" .str n.action

end Node

namespace Transition

def fields : List String :=
  ["id", "name", "description", "sequence", "start_node", "next_node", "guard"]

def ofJson? (c : Codec) (v : Json) : Option Transition := do
  match ← c.slots? fields v with
  | [id, name, description, sequence, source, target, guard] =>
      some {
        id := ← id.required readText
        name := ← name.orElse readText ""
        description := ← description.orElse readText ""
        sequence := ← sequence.orElse readInt32 0
        source := ← source.required readText
        target := ← target.required readText
        guard := ← guard.optionalOrNone readText }
  | _ => none

def toJson (t : Transition) : Json :=
  ofFields <| [
    ("id", .str t.id),
    ("sequence", ofInt32 t.sequence),
    ("start_node", .str t.source),
    ("next_node", .str t.target)] ++
    whenText "name" t.name ++ whenText "description" t.description ++ whenSome "guard" .str t.guard

end Transition

namespace Draft

def fields : List String :=
  ["id", "name", "description", "target_model", "max_node_counter", "active", "sequence",
    "condition", "nodes", "transitions"]

def ofJson? (c : Codec) (v : Json) : Option Draft := do
  match ← c.slots? fields v with
  | [id, name, description, model, limit, active, sequence, condition, nodes, transitions] =>
      some {
        id := ← id.required readText
        name := ← name.required readText
        description := ← description.orElse readText ""
        model := ← model.required readText
        visitLimit := ← limit.orElse readUInt32 1
        active := ← active.orElse readBool true
        sequence := ← sequence.orElse readInt32 0
        condition := ← condition.optionalOrNone readText
        nodes := ← nodes.orElse (readList (Node.ofJson? c)) []
        transitions := ← transitions.orElse (readList (Transition.ofJson? c)) [] }
  | _ => none

def toJson (d : Draft) : Json :=
  ofFields <| [
    ("id", .str d.id),
    ("name", .str d.name),
    ("target_model", .str d.model),
    ("max_node_counter", ofUInt32 d.visitLimit),
    ("active", .bool d.active),
    ("sequence", ofInt32 d.sequence),
    ("nodes", .arr (d.nodes.map Node.toJson)),
    ("transitions", .arr (d.transitions.map Transition.toJson))] ++
    whenText "description" d.description ++ whenSome "condition" .str d.condition

end Draft

namespace Workflow

def toJson (w : Workflow) : Json := w.toDraft.toJson

def ofJson? (c : Codec) (v : Json) : Option (Except GraphError Workflow) :=
  (Draft.ofJson? c v).map Draft.build

end Workflow

end Flowgraph
