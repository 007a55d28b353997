import Flowgraph.Engine.Error

namespace Flowgraph

structure Store where
  workflows : Keyed WorkflowId Workflow
  instances : Keyed InstanceId Instance
  slots : Keyed (WorkflowId × Target) InstanceId

def Instance.slot (i : Instance) : WorkflowId × Target := (i.workflow, i.target)

def Workflow.precedes (a b : Workflow) : Bool :=
  a.sequence < b.sequence || (a.sequence = b.sequence && a.id ≤ b.id)

namespace Store

def empty : Store := ⟨.empty, .empty, .empty⟩

def saveWorkflow (s : Store) (w : Workflow) : Store :=
  { s with workflows := s.workflows.insert w.id w }

def workflow? (s : Store) (id : WorkflowId) : Option Workflow := s.workflows.get? id

def workflowsFor (s : Store) (model : String) : List Workflow :=
  (s.workflows.values.filter (·.model = model)).mergeSort Workflow.precedes

def load? (s : Store) (id : InstanceId) : Option Instance := s.instances.get? id

def find? (s : Store) (w : WorkflowId) (t : Target) : Option Instance :=
  (s.slots.get? (w, t)).bind s.load?

def put (s : Store) (i : Instance) : Store := { s with instances := s.instances.insert i.id i }

def create (s : Store) (i : Instance) : Except StoreError Instance × Store :=
  match s.slots.get? i.slot with
  | some owner =>
      match s.load? owner with
      | some stored => (.ok stored, s)
      | none => (.error (.notFound owner), s)
  | none =>
      let i := { i with version := 1 }
      (.ok i, { s.put i with slots := s.slots.insert i.slot i.id })

def commitNew (s : Store) (i : Instance) : Except StoreError UInt64 × Store :=
  match s.slots.get? i.slot with
  | some owner => (.error (.conflict owner 0 ((s.load? owner).elim 0 (·.version))), s)
  | none =>
      match s.load? i.id with
      | some stored => (.error (.conflict i.id 0 stored.version), s)
      | none =>
          (.ok 1, { s.put { i with version := 1 } with slots := s.slots.insert i.slot i.id })

def commit (s : Store) (i : Instance) : Except StoreError UInt64 × Store :=
  if i.version = 0 then s.commitNew i
  else
    match s.load? i.id with
    | none => (.error (.notFound i.id), s)
    | some stored =>
        if stored.version ≠ i.version then (.error (.conflict i.id i.version stored.version), s)
        else
          match stored.version.next? with
          | none => (.error (.overflow i.id), s)
          | some version => (.ok version, s.put { i with version })

def instancesOf (s : Store) (w : WorkflowId) : List Instance :=
  s.instances.values.filter (·.workflow = w)

def count (s : Store) : Nat := s.instances.size

end Store

end Flowgraph
