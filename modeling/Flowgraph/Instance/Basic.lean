import Flowgraph.Graph.Failure
import Flowgraph.Moment
import Flowgraph.Number.Counter

namespace Flowgraph

abbrev InstanceId := String

structure Target where
  model : String
  id : String
deriving DecidableEq, Repr

namespace Target

def text (t : Target) : String := t.model ++ "/" ++ t.id

def pair (t : Target) : String × String := (t.model, t.id)

theorem pair_injective {a b : Target} (h : a.pair = b.pair) : a = b := by
  obtain ⟨m, i⟩ := a
  obtain ⟨m', i'⟩ := b
  simp only [pair, Prod.mk.injEq] at h
  obtain ⟨rfl, rfl⟩ := h
  rfl

end Target

instance : Key Target where
  before a b := Key.before a.pair b.pair
  irrefl a := Key.irrefl a.pair
  trans := Key.trans
  connected h₁ h₂ := Target.pair_injective (Key.connected h₁ h₂)

inductive Status where
  | pending
  | running
  | waiting
  | completed
  | failed
deriving DecidableEq, Repr

def Status.word : Status → String
  | .pending => "pending"
  | .running => "running"
  | .waiting => "waiting"
  | .completed => "completed"
  | .failed => "failed"

def Status.isTerminal : Status → Bool
  | .completed => true
  | .failed => true
  | _ => false

inductive FailureKind where
  | visitLimit
  | action
  | guard
deriving DecidableEq, Repr

structure Failure where
  kind : FailureKind
  message : String
  node : Option NodeId := none
  transition : Option TransitionId := none
  moment : Moment
deriving DecidableEq, Repr

structure Firing where
  sequence : Nat
  transition : TransitionId
  source : NodeId
  target : NodeId
  moment : Moment
deriving DecidableEq, Repr

structure Instance where
  id : InstanceId
  workflow : WorkflowId
  target : Target
  status : Status
  failure : Option Failure := none
  history : List Firing := []
  version : UInt64 := 0
  created : Moment
  updated : Moment
  completed : Option Moment := none
  active : IdSet
  visitCounts : Keyed NodeId UInt32
  arrivals : Keyed NodeId IdSet := .empty
  pending : IdSet := .empty
deriving DecidableEq, Repr

namespace Instance

def start (w : Workflow) (id : InstanceId) (target : Target) (now : Moment) : Instance where
  id
  workflow := w.id
  target
  status := .pending
  created := now
  updated := now
  active := Keyed.empty.add w.root
  visitCounts := Keyed.empty.insert w.root 1
  pending := Keyed.empty.add w.root

def isActive (i : Instance) (n : NodeId) : Bool := i.active.contains n

def visits (i : Instance) (n : NodeId) : UInt32 := (i.visitCounts.get? n).getD 0

def isTerminal (i : Instance) : Bool := i.status.isTerminal

def onlyFinished (i : Instance) (w : Workflow) : Bool :=
  !i.active.isEmpty && i.active.keys.all w.isFinish

def activate (i : Instance) (w : Workflow) (n : NodeId) (now : Moment) :
    Except WorkflowError Bool × Instance :=
  if i.workflow ≠ w.id then (.error (.wrongWorkflow i.workflow w.id), i)
  else if !w.contains n then (.error (.nodeNotFound n), i)
  else if i.isActive n then (.ok false, i)
  else
    match (i.visits n).next? with
    | none => (.error (.overflow n), i)
    | some visits =>
        if w.visitLimit < visits then (.error (.visitLimit n visits w.visitLimit), i)
        else
          (.ok true, { i with
            visitCounts := i.visitCounts.insert n visits
            active := i.active.add n
            pending := i.pending.add n
            updated := now })

def deactivate (i : Instance) (n : NodeId) (now : Moment) : Instance :=
  { i with
    active := i.active.erase n
    pending := i.pending.erase n
    updated := if i.isActive n then now else i.updated }

def markEntered (i : Instance) (n : NodeId) : Instance := { i with pending := i.pending.erase n }

def arrivalsAt (i : Instance) (n : NodeId) : IdSet := (i.arrivals.get? n).getD .empty

def recordArrival (i : Instance) (n : NodeId) (t : TransitionId) : Instance :=
  { i with arrivals := i.arrivals.insert n ((i.arrivalsAt n).add t) }

def clearArrivals (i : Instance) (n : NodeId) : Instance :=
  { i with arrivals := i.arrivals.erase n }

def recordFiring (i : Instance) (t : Transition) (now : Moment) : Instance :=
  { i with
    history := i.history ++ [⟨i.history.length, t.id, t.source, t.target, now⟩]
    updated := now }

def setRunning (i : Instance) (now : Moment) : Instance :=
  { i with status := .running, updated := now }

def setWaiting (i : Instance) (now : Moment) : Instance :=
  { i with status := .waiting, updated := now }

def complete (i : Instance) (now : Moment) : Instance :=
  { i with status := .completed, completed := some now, updated := now }

def fail (i : Instance) (f : Failure) : Instance :=
  { i with status := .failed, completed := some f.moment, updated := f.moment, failure := some f }

end Instance

structure Snapshot where
  status : Status
  failure : Option Failure
  historyLength : Nat
  version : UInt64
  updated : Moment
  completed : Option Moment
  active : IdSet
  visitCounts : Keyed NodeId UInt32
  arrivals : Keyed NodeId IdSet
  pending : IdSet
deriving DecidableEq, Repr

namespace Instance

def snapshot (i : Instance) : Snapshot where
  status := i.status
  failure := i.failure
  historyLength := i.history.length
  version := i.version
  updated := i.updated
  completed := i.completed
  active := i.active
  visitCounts := i.visitCounts
  arrivals := i.arrivals
  pending := i.pending

def restore (i : Instance) (s : Snapshot) : Instance :=
  { i with
    status := s.status
    failure := s.failure
    history := i.history.take s.historyLength
    version := s.version
    updated := s.updated
    completed := s.completed
    active := s.active
    visitCounts := s.visitCounts
    arrivals := s.arrivals
    pending := s.pending }

end Instance

end Flowgraph
