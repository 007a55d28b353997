import Flowgraph.Engine.Gates

namespace Flowgraph

structure Options where
  recordHistory : Bool := true
  maxPasses : Option UInt32 := none
deriving DecidableEq, Repr

def Options.passLimit (o : Options) (bound : Nat) : Nat := o.maxPasses.elim bound (·.toNat)

structure Report where
  status : Status := .pending
  passes : UInt32 := 0
  activated : List NodeId := []
  fired : List TransitionId := []
  context : Json.Fields := []
deriving Repr

def Report.unchanged (i : Instance) : Report := { status := i.status }

structure Progress (ω : Type) where
  current : Instance
  report : Report
  world : ω

def Progress.counting {ω : Type} (p : Progress ω) (passes : UInt32) : Progress ω :=
  { p with report := { p.report with passes } }

def Instance.depart (record : Bool) (now : Moment) : List Transition → Instance → Instance
  | [], i => i
  | t :: ts, i =>
      let i := i.deactivate t.source now
      depart record now ts (if record then i.recordFiring t now else i)

def Instance.arrive (w : Workflow) (now : Moment) (t : Transition) (i : Instance) :
    Except WorkflowError Bool × Instance :=
  match w.requireNode t.target with
  | .error e => (.error e, i)
  | .ok n =>
      let i := match n.join with
        | .and => i.recordArrival n.id t.id
        | .or => i
      let arrivals := match n.join with
        | .and => i.arrivalsAt n.id
        | .or => Keyed.empty.add t.id
      if w.joinHolds n arrivals then
        let i := match n.join with
          | .and => i.clearArrivals n.id
          | .or => i
        i.activate w n.id now
      else (.ok false, i)

def Instance.arriveAll (w : Workflow) (now : Moment) :
    List Transition → Instance → Except WorkflowError (List NodeId) × Instance
  | [], i => (.ok [], i)
  | t :: ts, i =>
      match i.arrive w now t with
      | (.error e, i) => (.error e, i)
      | (.ok entered, i) =>
          match arriveAll w now ts i with
          | (.error e, i) => (.error e, i)
          | (.ok ns, i) => (.ok (if entered then t.target :: ns else ns), i)

namespace Workflow

variable {ω : Type} (w : Workflow) (inv : Invoker ω) (site : Site) (options : Options)
  (now : Moment)

def enter : List NodeId → Progress ω → Except EngineError Unit × Progress ω
  | [], p => (.ok (), p)
  | n :: ns, p =>
      match w.requireNode n with
      | .error e => (.error (.workflow e), p)
      | .ok x =>
          match x.action with
          | none => enter ns { p with current := p.current.markEntered n }
          | some key =>
              match inv.action key (site.atNode n) p.world with
              | (.error c, s) => (.error (.action n key c), { p with world := s })
              | (.ok v, s) =>
                  enter ns {
                    current := p.current.markEntered n
                    report := { p.report with context := Json.merge p.report.context v }
                    world := s }

def splitAll : List NodeId → ω → Except EngineError (List Transition) × ω
  | [], s => (.ok [], s)
  | n :: ns, s =>
      match w.requireNode n with
      | .error e => (.error (.workflow e), s)
      | .ok x =>
          match w.split inv (site.atNode n) x s with
          | (.error e, s) => (.error e, s)
          | (.ok taken, s) =>
              match splitAll ns s with
              | (.error e, s) => (.error e, s)
              | (.ok more, s) => (.ok (taken ++ more), s)

def fire (taken : List Transition) (p : Progress ω) : Except EngineError Unit × Progress ω :=
  let report := { p.report with fired := p.report.fired ++ taken.map (·.id) }
  match (p.current.depart options.recordHistory now taken).arriveAll w now taken with
  | (.error e, i) => (.error (.workflow e), { p with current := i, report })
  | (.ok entered, i) =>
      (.ok (), { p with
        current := i
        report := { report with activated := report.activated ++ entered } })

def sweep (p : Progress ω) : Except EngineError Bool × Progress ω :=
  match w.enter inv site p.current.pending.keys p with
  | (.error e, p) => (.error e, p)
  | (.ok (), p) =>
      if p.current.onlyFinished w then (.ok false, { p with current := p.current.complete now })
      else
        match w.splitAll inv site p.current.active.keys p.world with
        | (.error e, s) => (.error e, { p with world := s })
        | (.ok [], s) => (.ok false, { p with current := p.current.setWaiting now, world := s })
        | (.ok taken, s) =>
            match w.fire options now taken { p with world := s } with
            | (.error e, p) => (.error e, p)
            | (.ok (), p) => (.ok true, p)

def pass (p : Progress ω) : Except EngineError Bool × Progress ω :=
  match p.report.passes.next? with
  | none => (.error (.workflow (.overflow none)), p)
  | some k => w.sweep inv site options now (p.counting k)

def passes : Nat → Progress ω → Except EngineError Unit × Progress ω
  | 0, p => (.ok (), { p with current := p.current.setWaiting now })
  | k + 1, p =>
      match w.pass inv site options now p with
      | (.error e, p) => (.error e, p)
      | (.ok false, p) => (.ok (), p)
      | (.ok true, p) => passes k p

def passBound (i : Instance) : Nat :=
  -- every pass but the last leaves an active node, and a node is entered while it has visits left
  i.active.size + w.nodes.keys.foldr (fun n k => w.visitLimit.toNat - (i.visits n).toNat + k) 0 + 1

def advance (actor : Option String) (i : Instance) (s : ω) :
    Except EngineError Report × Instance × ω :=
  let site : Site := { workflow := w.id, target := i.target, instanceId := some i.id, actor }
  let limit := options.passLimit (w.passBound i)
  match w.passes inv site options now limit ⟨i, {}, s⟩ with
  | (.error e, p) => (.error e, p.current, p.world)
  | (.ok (), p) => (.ok { p.report with status := p.current.status }, p.current, p.world)

end Workflow

end Flowgraph
