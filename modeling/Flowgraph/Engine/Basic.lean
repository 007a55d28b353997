import Flowgraph.Engine.Config
import Flowgraph.Engine.Store
import Flowgraph.Ids

namespace Flowgraph

inductive StoreCall where
  | saveWorkflow
  | loadWorkflow
  | workflowsForModel
  | loadInstance
  | findInstance
  | createInstance
  | commit
  | listInstances
deriving DecidableEq, Repr

abbrev Outages := StoreCall → List (Option String)

structure Engine (γ : Type) where
  store : Store
  outages : Outages
  leases : Leases
  supply : Supply
  guest : γ

namespace Engine

variable {γ α : Type}

def new (guest : γ) (supply : Supply := .numbered) : Engine γ :=
  { store := .empty, outages := fun _ => [], leases := .empty, supply, guest }

def spend (g : Engine γ) (c : StoreCall) : Engine γ :=
  { g with outages := fun d => if d = c then (g.outages c).tail else g.outages d }

def call (g : Engine γ) (c : StoreCall) (use : Store → Except StoreError α × Store) :
    Except StoreError α × Engine γ :=
  match (g.outages c).head? with
  | some (some reason) => (.error (.backend reason), g.spend c)
  | _ =>
      let (r, s) := use g.store
      (r, { g.spend c with store := s })

def read (g : Engine γ) (c : StoreCall) (look : Store → α) : Except StoreError α × Engine γ :=
  g.call c fun s => (.ok (look s), s)

def skipId (g : Engine γ) : Engine γ := { g with supply := g.supply.advance }

def drawId (g : Engine γ) : InstanceId × Engine γ := (g.supply.next, g.skipId)

def register (g : Engine γ) (w : Workflow) : Except EngineError WorkflowId × Engine γ :=
  match g.call .saveWorkflow fun s => (.ok (), s.saveWorkflow w) with
  | (.error e, g) => (.error (.store e), g)
  | (.ok (), g) => (.ok w.id, g)

def workflow (g : Engine γ) (id : WorkflowId) : Except EngineError Workflow × Engine γ :=
  match g.read .loadWorkflow (·.workflow? id) with
  | (.error e, g) => (.error (.store e), g)
  | (.ok none, g) => (.error (.noWorkflow id), g)
  | (.ok (some w), g) => (.ok w, g)

def loadInstance (g : Engine γ) (id : InstanceId) : Except EngineError Instance × Engine γ :=
  match g.read .loadInstance (·.load? id) with
  | (.error e, g) => (.error (.store e), g)
  | (.ok none, g) => (.error (.noInstance id), g)
  | (.ok (some i), g) => (.ok i, g)

def getInstance (g : Engine γ) (w : WorkflowId) (id : String) :
    Except EngineError (Option Instance) × Engine γ :=
  match g.workflow w with
  | (.error e, g) => (.error e, g)
  | (.ok x, g) =>
      match g.read .findInstance (·.find? w ⟨x.model, id⟩) with
      | (.error e, g) => (.error (.store e), g)
      | (.ok i, g) => (.ok i, g)

def instanceFor (g : Engine γ) (w : Workflow) (target : Target) (now : Moment) :
    Except EngineError Instance × Engine γ :=
  match g.read .findInstance (·.find? w.id target) with
  | (.error e, g) => (.error (.store e), g)
  | (.ok (some i), g) => (.ok i, g)
  | (.ok none, g) =>
      let (id, g) := g.drawId
      match g.call .createInstance (·.create (.start w id target now)) with
      | (.error e, g) => (.error (.store e), g)
      | (.ok i, g) => (.ok i, g)

end Engine

end Flowgraph
