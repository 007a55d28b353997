import Flowgraph.Instance.Basic
import Flowgraph.Json.Record

namespace Flowgraph

open Json

namespace Target

def fields : List String := ["model", "id"]

def ofJson? (c : Codec) (v : Json) : Option Target := do
  match ← c.slots? fields v with
  | [model, id] => some { model := ← model.required readText, id := ← id.required readText }
  | _ => none

def toJson (t : Target) : Json := ofFields [("model", .str t.model), ("id", .str t.id)]

end Target

namespace Status

def name : Status → String
  | .pending => "Pending"
  | .running => "Running"
  | .waiting => "Waiting"
  | .completed => "Completed"
  | .failed => "Failed"

def ofName? : String → Option Status
  | "Pending" => some .pending
  | "Running" => some .running
  | "Waiting" => some .waiting
  | "Completed" => some .completed
  | "Failed" => some .failed
  | _ => none

def toJson (s : Status) : Json := .str s.name

def ofJson? : Json → Option Status := readName ofName?

end Status

namespace FailureKind

def name : FailureKind → String
  | .visitLimit => "CycleLimitExceeded"
  | .action => "ActionExecution"
  | .guard => "GuardEvaluation"

def ofName? : String → Option FailureKind
  | "CycleLimitExceeded" => some .visitLimit
  | "ActionExecution" => some .action
  | "GuardEvaluation" => some .guard
  | _ => none

def toJson (k : FailureKind) : Json := .str k.name

def ofJson? : Json → Option FailureKind := readName ofName?

end FailureKind

namespace Failure

def fields : List String := ["kind", "message", "node", "transition", "at"]

def ofJson? (c : Codec) (v : Json) : Option Failure := do
  match ← c.slots? fields v with
  | [kind, message, node, transition, moment] =>
      some {
        kind := ← kind.required FailureKind.ofJson?
        message := ← message.required readText
        node := ← node.optionalOrNone readText
        transition := ← transition.optionalOrNone readText
        moment := ← moment.required c.moment? }
  | _ => none

def toJson (c : Codec) (f : Failure) : Json :=
  ofFields <| [
    ("kind", f.kind.toJson),
    ("message", .str f.message),
    ("at", c.ofMoment f.moment)] ++
    whenSome "node" .str f.node ++ whenSome "transition" .str f.transition

end Failure

namespace Firing

def fields : List String := ["sequence", "transition", "from", "to", "at"]

def ofJson? (c : Codec) (v : Json) : Option Firing := do
  match ← c.slots? fields v with
  | [sequence, transition, source, target, moment] =>
      some {
        sequence := ← sequence.required readNat
        transition := ← transition.required readText
        source := ← source.required readText
        target := ← target.required readText
        moment := ← moment.required c.moment? }
  | _ => none

def toJson (c : Codec) (f : Firing) : Json :=
  ofFields [
    ("sequence", ofNat f.sequence),
    ("transition", .str f.transition),
    ("from", .str f.source),
    ("to", .str f.target),
    ("at", c.ofMoment f.moment)]

end Firing

namespace Instance

def fields : List String :=
  ["id", "workflow_id", "target", "status", "failure", "history", "version", "created_at",
    "updated_at", "completed_at", "active_nodes", "visit_counters", "join_arrivals",
    "pending_entry"]

def ofJson? (c : Codec) (v : Json) : Option Instance := do
  match ← c.slots? fields v with
  | [id, workflow, target, status, failure, history, version, created, updated, completed, active,
      visitCounts, arrivals, pending] =>
      some {
        id := ← id.required readText
        workflow := ← workflow.required readText
        target := ← target.required (Target.ofJson? c)
        status := ← status.required Status.ofJson?
        failure := ← failure.optionalOrNone (Failure.ofJson? c)
        history := ← history.orElse (readList (Firing.ofJson? c)) []
        version := ← version.orElse readUInt64 0
        created := ← created.required c.moment?
        updated := ← updated.required c.moment?
        completed := ← completed.optionalOrNone c.moment?
        active := ← active.required readSet
        visitCounts := ← visitCounts.required (readMap readUInt32)
        arrivals := ← arrivals.orElse (readMap readSet) .empty
        pending := ← pending.orElse readSet .empty }
  | _ => none

def toJson (c : Codec) (i : Instance) : Json :=
  ofFields <| [
    ("id", .str i.id),
    ("workflow_id", .str i.workflow),
    ("target", i.target.toJson),
    ("status", i.status.toJson),
    ("history", .arr (i.history.map (Firing.toJson c))),
    ("version", ofUInt64 i.version),
    ("created_at", c.ofMoment i.created),
    ("updated_at", c.ofMoment i.updated),
    ("active_nodes", ofSet i.active),
    ("visit_counters", ofMap ofUInt32 i.visitCounts),
    ("join_arrivals", ofMap ofSet i.arrivals),
    ("pending_entry", ofSet i.pending)] ++
    whenSome "failure" (Failure.toJson c) i.failure ++
    whenSome "completed_at" c.ofMoment i.completed

end Instance

end Flowgraph
