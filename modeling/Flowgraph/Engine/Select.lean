import Flowgraph.Engine.Basic

namespace Flowgraph.Engine

variable {γ : Type}

def selectFrom (inv : Invoker (Engine γ)) (target : Target) :
    List Workflow → Engine γ → Except EngineError (Option Workflow) × Engine γ
  | [], g => (.ok none, g)
  | w :: ws, g =>
      if !w.active then selectFrom inv target ws g
      else
        match w.condition with
        | none => (.ok (some w), g)
        | some e =>
            match inv.guard e { workflow := w.id, target } g with
            | (.error c, g) => (.error (.condition w.id e c), g)
            | (.ok true, g) => (.ok (some w), g)
            | (.ok false, g) => selectFrom inv target ws g

def workflowFor (inv : Invoker (Engine γ)) (target : Target) (g : Engine γ) :
    Except EngineError (Option Workflow) × Engine γ :=
  match g.read .workflowsForModel (·.workflowsFor target.model) with
  | (.error e, g) => (.error (.store e), g)
  | (.ok ws, g) => selectFrom inv target ws g

end Flowgraph.Engine
