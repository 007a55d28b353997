import Flowgraph.Proofs.System.Stages
import Mathlib.Logic.Function.Basic

namespace Flowgraph

structure Call where
  engine : Nat
  request : Request
  stage : Stage

structure System (γ : Type) where
  world : Engine γ
  leases : Nat → Leases
  drawn : Keyed InstanceId (WorkflowId × Target)
  handles : List Instance
  calls : Nat → Option Call

inductive Event (γ : Type) where
  | register (w : Workflow)
  | start (w : Workflow) (id : InstanceId) (target : Target) (now : Moment)
  | load (id : InstanceId)
  | create (i : Instance)
  | call (party engine : Nat) (request : Request)
  | step (party : Nat) (turn : Turn)
  | disturb (guest : γ)

def Request.honest (handles : List Instance) : Request → Bool
  | .run _ i => handles.contains i
  | _ => true

namespace Stage

def isOver : Stage → Bool
  | ended _ _ => true
  | left _ => true
  | _ => false

def draws? : Stage → Option (WorkflowId × Target)
  | creating w target => some (w.id, target)
  | _ => none

def returned : Stage → List Instance
  | ended i _ => [i]
  | _ => []

end Stage

namespace System

variable {γ : Type} (config : Nat → Config) (inv : Nat → Invoker γ)

def start (outages : Outages) (guest : γ) : System γ where
  world := { Engine.new guest with outages }
  leases _ := .empty
  drawn := .empty
  handles := []
  calls _ := none

def engine (s : System γ) (e : Nat) : Engine γ := { s.world with leases := s.leases e }

def stored (s : System γ) (id : InstanceId) : Option Instance := s.world.store.load? id

def stepCall (s : System γ) (party : Nat) (turn : Turn) (c : Call) : System γ :=
  match c.stage.next (config c.engine) (inv c.engine).onGuest turn (s.engine c.engine) with
  | (stage, g) => { s with
      world := g
      leases := Function.update s.leases c.engine g.leases
      handles := stage.returned ++ s.handles
      calls := Function.update s.calls party (some { c with stage }) }

def act (s : System γ) : Event γ → System γ
  | .register w => { s with world := (s.world.register w).2 }
  | .start w id target now =>
      if s.drawn.contains id then s
      else { s with
        drawn := s.drawn.insert id (w.id, target)
        handles := .start w id target now :: s.handles }
  | .load id =>
      match s.world.loadInstance id with
      | (.ok i, g) => { s with world := g, handles := i :: s.handles }
      | (.error _, g) => { s with world := g }
  | .create i =>
      if s.handles.contains i then
        match s.world.call .createInstance (·.create i) with
        | (.ok j, g) => { s with world := g, handles := j :: s.handles }
        | (.error _, g) => { s with world := g }
      else s
  | .call party engine request =>
      if (s.calls party).all (·.stage.isOver) && request.honest s.handles then
        { s with calls := Function.update s.calls party (some ⟨engine, request, request.first⟩) }
      else s
  | .step party turn =>
      match s.calls party with
      | none => s
      | some c =>
          match c.stage.draws? with
          | none => stepCall config inv s party turn c
          | some slot =>
              if s.drawn.contains turn.id then s
              else stepCall config inv { s with drawn := s.drawn.insert turn.id slot } party turn c
  | .disturb guest => { s with world := { s.world with guest } }

def run (s : System γ) (events : List (Event γ)) : System γ := events.foldl (act config inv) s

def trail (id : InstanceId) : System γ → List (Event γ) → List Instance
  | _, [] => []
  | s, e :: es =>
      if (act config inv s e).stored id = s.stored id then trail id (act config inv s e) es
      else ((act config inv s e).stored id).toList ++ trail id (act config inv s e) es

end System

end Flowgraph
