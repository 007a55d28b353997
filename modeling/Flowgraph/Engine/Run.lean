import Flowgraph.Engine.Select

namespace Flowgraph

def Workflow.failureOf (w : Workflow) (now : Moment) (e : EngineError) : Option Failure :=
  match e with
  | .workflow (.visitLimit n _ _) =>
      some { kind := .visitLimit, message := e.message, node := some n, moment := now }
  | .action n _ _ =>
      some { kind := .action, message := e.message, node := some n, moment := now }
  | .guard t _ _ =>
      some {
        kind := .guard
        message := e.message
        transition := some t
        node := (w.transition? t).map (·.source)
        moment := now }
  | _ => none

def Instance.refreshed (i : Instance) : Option Instance → Instance
  | none => i
  | some stored => if i.version < stored.version then stored else i

namespace Engine

variable {γ : Type} (config : Config) (inv : Invoker (Engine γ)) (now : Moment)

def settle (i : Instance) (back : Snapshot) (g : Engine γ) :
    Except EngineError Unit × Instance × Engine γ :=
  match g.call .commit (·.commit i) with
  | (.error e, g) => (.error (.store e), i.restore back, g)
  | (.ok v, g) => (.ok (), { i with version := v }, g)

def applyContext (w : Workflow) (actor : Option String) (i : Instance) (r : Report)
    (g : Engine γ) : Engine γ :=
  if r.context.isEmpty then g
  else
    inv.apply r.context { workflow := w.id, target := i.target, instanceId := some i.id, actor } g

def perform (w : Workflow) (actor : Option String) (i : Instance) (g : Engine γ) :
    Except EngineError Report × Instance × Engine γ :=
  let back := i.snapshot
  match w.advance inv config.options now actor (i.setRunning now) g with
  | (.ok r, i, g) =>
      match settle i back g with
      | (.error e, i, g) => (.error e, i, g)
      | (.ok (), i, g) => (.ok r, i, applyContext inv w actor i r g)
  | (.error e, i, g) =>
      let i := i.restore back
      match w.failureOf now e with
      | none => (.error e, i, g)
      | some f =>
          match settle (i.fail f) back g with
          | (.error e, i, g) => (.error e, i, g)
          | (.ok (), i, g) => (.error e, i, g)

def runHeld (w : Workflow) (actor : Option String) (i : Instance) (g : Engine γ) :
    Except EngineError Report × Instance × Engine γ :=
  match g.read .loadInstance (·.load? i.id) with
  | (.error e, g) => (.error (.store e), i, g)
  | (.ok stored, g) =>
      let i := i.refreshed stored
      if i.isTerminal then (.ok (.unchanged i), i, g) else perform config inv now w actor i g

def run (actor : Option String) (i : Instance) (g : Engine γ) :
    Except EngineError Report × Instance × Engine γ :=
  if i.isTerminal then (.ok (.unchanged i), i, g)
  else
    match g.workflow i.workflow with
    | (.error e, g) => (.error e, i, g)
    | (.ok w, g) =>
        match g.leases.acquire? config.lockPolicy i.id with
        | none => (.error (.busy i.id), i, g)
        | some leases =>
            let (r, j, g) := runHeld config inv now w actor i { g with leases }
            (r, j, { g with leases := g.leases.release i.id })

def runFor (w : Workflow) (target : Target) (g : Engine γ) :
    Except EngineError Instance × Engine γ :=
  match g.instanceFor w target now with
  | (.error e, g) => (.error e, g)
  | (.ok i, g) =>
      match run config inv now none i g with
      | (.error e, _, g) => (.error e, g)
      | (.ok _, i, g) => (.ok i, g)

def runForEntity (w : WorkflowId) (target : Target) (g : Engine γ) :
    Except EngineError Instance × Engine γ :=
  match g.workflow w with
  | (.error e, g) => (.error e, g)
  | (.ok x, g) =>
      if x.model ≠ target.model then (.error (.wrongModel w x.model target.model), g)
      else runFor config inv now x target g

def runTarget (target : Target) (g : Engine γ) :
    Except EngineError (Option Instance) × Engine γ :=
  match workflowFor inv target g with
  | (.error e, g) => (.error e, g)
  | (.ok none, g) => (.ok none, g)
  | (.ok (some w), g) =>
      match runFor config inv now w target g with
      | (.error e, g) => (.error e, g)
      | (.ok i, g) => (.ok (some i), g)

end Engine

end Flowgraph
