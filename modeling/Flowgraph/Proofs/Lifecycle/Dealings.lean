import Flowgraph.Proofs.System.Basic

namespace Flowgraph

structure Desk (γ : Type) where
  handles : List Instance
  state : γ

namespace Engine

variable {γ : Type}

def hand (g : Engine (Desk γ)) (i : Instance) : Engine (Desk γ) :=
  { g with guest := { g.guest with handles := i :: g.guest.handles } }

def serve (config : Config) (inv : Invoker (Engine (Desk γ))) (now : Moment) :
    Request → Engine (Desk γ) → Engine (Desk γ)
  | .run actor i, g =>
      match run config inv now actor i g with
      | (_, j, g) => g.hand j
  | .runForEntity w target, g =>
      match runForEntity config inv now w target g with
      | (.ok i, g) => g.hand i
      | (.error _, g) => g
  | .runTarget target, g =>
      match runTarget config inv now target g with
      | (.ok (some i), g) => g.hand i
      | (.ok none, g) => g
      | (.error _, g) => g

structure SameDesk (g g' : Engine (Desk γ)) : Prop where
  handles : g'.guest.handles = g.guest.handles
  draw : g'.supply.draw = g.supply.draw
  drawn : g.supply.drawn ≤ g'.supply.drawn

structure Aside (g g' : Engine (Desk γ)) : Prop extends SameDesk g g' where
  store : g'.store = g.store

inductive Dealings : Engine (Desk γ) → Engine (Desk γ) → Prop
  | refl (g : Engine (Desk γ)) : Dealings g g
  | trans {g₁ g₂ g₃ : Engine (Desk γ)} (first : Dealings g₁ g₂) (later : Dealings g₂ g₃) :
      Dealings g₁ g₃
  | aside {g g' : Engine (Desk γ)} (same : Aside g g') : Dealings g g'
  | register (g : Engine (Desk γ)) (w : Workflow) : Dealings g (g.register w).2
  | start (g : Engine (Desk γ)) (w : Workflow) (target : Target) (now : Moment) :
      Dealings g (g.drawId.2.hand (.start w g.drawId.1 target now))
  | load {g : Engine (Desk γ)} {id : InstanceId} {i : Instance}
      (stored : g.store.load? id = some i) : Dealings g (g.hand i)
  | call {config : Config} {inv : Invoker (Engine (Desk γ))} {now : Moment} {request : Request}
      {g : Engine (Desk γ)} (honest : request.honest g.guest.handles = true)
      (guard : ∀ e site g, Dealings g (inv.guard e site g).2)
      (action : ∀ key site g, Dealings g (inv.action key site g).2)
      (apply : ∀ fields site g, Dealings g (inv.apply fields site g)) :
      Dealings g (serve config inv now request g)

end Engine

end Flowgraph
