import Flowgraph.Decl.Basic
import Flowgraph.Json.Record

namespace Flowgraph

open Json

namespace NodeDecl

def fields : List String :=
  ["id", "node_type", "name", "description", "join", "split", "action", "line"]

def ofJson? (c : Codec) (v : Json) : Option NodeDecl := do
  match ← c.slots? fields v with
  | [id, kind, name, description, join, split, action, line] =>
      some {
        id := ← id.required readText
        kind := ← kind.required readText
        name := ← name.optional readText
        description := ← description.optional readText
        join := ← join.optional readText
        split := ← split.optional readText
        action := ← action.optional readText
        line := ← line.required readNat }
  | _ => none

def toJson (n : NodeDecl) : Json :=
  ofFields [
    ("id", .str n.id),
    ("node_type", .str n.kind),
    ("name", ofOption .str n.name),
    ("description", ofOption .str n.description),
    ("join", ofOption .str n.join),
    ("split", ofOption .str n.split),
    ("action", ofOption .str n.action),
    ("line", ofNat n.line)]

end NodeDecl

namespace TransitionDecl

def fields : List String := ["from", "to", "id", "name", "sequence", "guard", "line"]

def ofJson? (c : Codec) (v : Json) : Option TransitionDecl := do
  match ← c.slots? fields v with
  | [source, target, id, name, sequence, guard, line] =>
      some {
        source := ← source.required readText
        target := ← target.required readText
        id := ← id.optional readText
        name := ← name.optional readText
        sequence := ← sequence.optional readInt64
        guard := ← guard.optional readText
        line := ← line.required readNat }
  | _ => none

def toJson (t : TransitionDecl) : Json :=
  ofFields [
    ("from", .str t.source),
    ("to", .str t.target),
    ("id", ofOption .str t.id),
    ("name", ofOption .str t.name),
    ("sequence", ofOption .int t.sequence),
    ("guard", ofOption .str t.guard),
    ("line", ofNat t.line)]

end TransitionDecl

namespace Declaration

def fields : List String :=
  ["name", "id", "model", "description", "max_counter", "sequence", "condition", "inactive",
    "nodes", "transitions"]

def ofJson? (c : Codec) (v : Json) : Option Declaration := do
  match ← c.slots? fields v with
  | [name, id, model, description, maxCounter, sequence, condition, inactive, nodes, transitions] =>
      some {
        name := ← name.required readText
        id := ← id.optional readText
        model := ← model.optional readText
        description := ← description.optional readText
        maxCounter := ← maxCounter.optional readInt64
        sequence := ← sequence.optional readInt64
        condition := ← condition.optional readText
        inactive := ← inactive.required readBool
        nodes := ← nodes.required (readList (NodeDecl.ofJson? c))
        transitions := ← transitions.required (readList (TransitionDecl.ofJson? c)) }
  | _ => none

def toJson (d : Declaration) : Json :=
  ofFields [
    ("name", .str d.name),
    ("id", ofOption .str d.id),
    ("model", ofOption .str d.model),
    ("description", ofOption .str d.description),
    ("max_counter", ofOption .int d.maxCounter),
    ("sequence", ofOption .int d.sequence),
    ("condition", ofOption .str d.condition),
    ("inactive", .bool d.inactive),
    ("nodes", .arr (d.nodes.map NodeDecl.toJson)),
    ("transitions", .arr (d.transitions.map TransitionDecl.toJson))]

end Declaration

end Flowgraph
