import Flowgraph.Proofs.Engine.Calls

namespace Flowgraph

inductive Request where
  | run (actor : Option String) (i : Instance)
  | runForEntity (w : WorkflowId) (target : Target)
  | runTarget (target : Target)

inductive Stage where
  | choosing (target : Target)
  | governing (w : WorkflowId) (target : Target)
  | finding (w : Workflow) (target : Target)
  | creating (w : Workflow) (target : Target)
  | opening (actor : Option String) (i : Instance)
  | leasing (w : Workflow) (actor : Option String) (i : Instance)
  | refreshing (lease : InstanceId) (w : Workflow) (actor : Option String) (i : Instance)
  | advancing (lease : InstanceId) (w : Workflow) (actor : Option String) (base : Instance)
  | committing (lease : InstanceId) (w : Workflow) (actor : Option String) (base i : Instance)
      (r : Except EngineError Report)
  | releasing (lease : InstanceId) (i : Instance) (r : Except EngineError Report)
  | ended (i : Instance) (r : Except EngineError Report)
  | left (e : Option EngineError)

def Request.first : Request → Stage
  | .run actor i => .opening actor i
  | .runForEntity w target => .governing w target
  | .runTarget target => .choosing target

structure Turn where
  now : Moment
  id : InstanceId
  late : Bool

namespace Stage

variable {γ : Type} (config : Config) (inv : Invoker (Engine γ)) (turn : Turn)

def next : Stage → Engine γ → Stage × Engine γ
  | choosing target, g =>
      match g.workflowFor inv target with
      | (.error e, g) => (.left (some e), g)
      | (.ok none, g) => (.left none, g)
      | (.ok (some w), g) => (.finding w target, g)
  | governing id target, g =>
      match g.workflow id with
      | (.error e, g) => (.left (some e), g)
      | (.ok w, g) =>
          if w.model ≠ target.model then
            (.left (some (.wrongModel id w.model target.model)), g)
          else (.finding w target, g)
  | finding w target, g =>
      match g.read .findInstance (·.find? w.id target) with
      | (.error e, g) => (.left (some (.store e)), g)
      | (.ok (some i), g) => (.opening none i, g)
      | (.ok none, g) => (.creating w target, g)
  | creating w target, g =>
      match g.skipId.call .createInstance (·.create (.start w turn.id target turn.now)) with
      | (.error e, g) => (.left (some (.store e)), g)
      | (.ok i, g) => (.opening none i, g)
  | opening actor i, g =>
      if i.isTerminal then (.ended i (.ok (.unchanged i)), g)
      else
        match g.workflow i.workflow with
        | (.error e, g) => (.ended i (.error e), g)
        | (.ok w, g) => (.leasing w actor i, g)
  | leasing w actor i, g =>
      match g.leases.attempt config.lockPolicy i.id with
      | .granted leases => (.refreshing i.id w actor i, { g with leases })
      | .refused => (.ended i (.error (.busy i.id)), g)
      | .waiting =>
          if turn.late && config.lockTimeout.isSome then (.ended i (.error (.busy i.id)), g)
          else (.leasing w actor i, g)
  | refreshing lease w actor i, g =>
      match g.read .loadInstance (·.load? i.id) with
      | (.error e, g) => (.releasing lease i (.error (.store e)), g)
      | (.ok stored, g) =>
          let i := i.refreshed stored
          if i.isTerminal then (.releasing lease i (.ok (.unchanged i)), g)
          else (.advancing lease w actor i, g)
  | advancing lease w actor base, g =>
      match w.advance inv config.options turn.now actor (base.setRunning turn.now) g with
      | (.ok r, i, g) => (.committing lease w actor base i (.ok r), g)
      | (.error e, i, g) =>
          let i := i.restore base.snapshot
          match w.failureOf turn.now e with
          | none => (.releasing lease i (.error e), g)
          | some f => (.committing lease w actor base (i.fail f) (.error e), g)
  | committing lease w actor base i r, g =>
      match Engine.settle i base.snapshot g with
      | (.error e, i, g) => (.releasing lease i (.error e), g)
      | (.ok (), i, g) =>
          match r with
          | .ok report => (.releasing lease i r, Engine.applyContext inv w actor i report g)
          | .error _ => (.releasing lease i r, g)
  | releasing lease i r, g => (.ended i r, { g with leases := g.leases.release lease })
  | ended i r, g => (.ended i r, g)
  | left e, g => (.left e, g)

def steps : Nat → Stage → Engine γ → Stage × Engine γ
  | 0, a, g => (a, g)
  | n + 1, a, g => steps n (next config inv turn a g).1 (next config inv turn a g).2

variable {config inv turn} {g : Engine γ}

theorem steps_add (m n : Nat) (a : Stage) :
    steps config inv turn (m + n) a g =
      steps config inv turn n (steps config inv turn m a g).1 (steps config inv turn m a g).2 := by
  induction m generalizing a g with
  | zero => rw [Nat.zero_add, steps]
  | succ m ih => rw [Nat.succ_add, steps, ih, steps]

theorem steps_left (n : Nat) (e : Option EngineError) :
    steps config inv turn n (.left e) g = (.left e, g) := by
  induction n with
  | zero => rfl
  | succ n ih => exact ih

theorem steps_ended (n : Nat) (i : Instance) (r : Except EngineError Report) :
    steps config inv turn n (.ended i r) g = (.ended i r, g) := by
  induction n with
  | zero => rfl
  | succ n ih => exact ih

theorem steps_perform (lease : InstanceId) (w : Workflow) (actor : Option String)
    (i : Instance) :
    steps config inv turn 3 (.advancing lease w actor i) g =
      match Engine.perform config inv turn.now w actor i g with
      | (r, j, g') => (.ended j r, { g' with leases := g'.leases.release lease }) := by
  rw [steps, next, Engine.perform]
  rcases w.advance inv config.options turn.now actor (i.setRunning turn.now) g with
    ⟨e | r, k, g₁⟩
  · cases hf : w.failureOf turn.now e with
    | none => simp only [hf, steps, next]
    | some f =>
      simp only [hf, steps, next]
      rcases Engine.settle ((k.restore i.snapshot).fail f) i.snapshot g₁ with ⟨e' | _, m, g₂⟩ <;>
        rfl
  · simp only [steps, next]
    rcases Engine.settle k i.snapshot g₁ with ⟨e' | _, m, g₂⟩ <;> rfl

theorem steps_runHeld (lease : InstanceId) (w : Workflow) (actor : Option String)
    (i : Instance) :
    steps config inv turn 4 (.refreshing lease w actor i) g =
      match Engine.runHeld config inv turn.now w actor i g with
      | (r, j, g') => (.ended j r, { g' with leases := g'.leases.release lease }) := by
  rw [steps, next, Engine.runHeld]
  rcases g.read .loadInstance (·.load? i.id) with ⟨e | stored, g₁⟩
  · rfl
  · cases ht : (i.refreshed stored).isTerminal with
    | true =>
      simp only [ht, if_true]
      rfl
    | false =>
      simp only [ht, Bool.false_eq_true, if_false]
      exact steps_perform lease w actor (i.refreshed stored)

theorem steps_run (actor : Option String) (i : Instance)
    (hwait : ∀ leases : Leases, leases.attempt config.lockPolicy i.id = .waiting →
      turn.late = true ∧ config.lockTimeout.isSome = true) :
    steps config inv turn 6 (.opening actor i) g =
      match Engine.run config inv turn.now actor i g with
      | (r, j, g') => (.ended j r, g') := by
  rw [steps, next, Engine.run]
  cases ht : i.isTerminal with
  | true =>
    simp only [if_true]
    exact steps_ended 5 i _
  | false =>
    simp only [Bool.false_eq_true, if_false]
    rcases g.workflow i.workflow with ⟨e | w, g₁⟩
    · exact steps_ended 5 i _
    · simp only
      rw [steps, next, Leases.acquire?]
      cases ha : g₁.leases.attempt config.lockPolicy i.id with
      | granted leases =>
        simp only
        exact steps_runHeld i.id w actor i
      | refused =>
        simp only
        exact steps_ended 4 i _
      | waiting =>
        obtain ⟨hl, ht⟩ := hwait _ ha
        simp only [hl, ht, Bool.and_self, if_true]
        exact steps_ended 4 i _

def answer? : Stage → Option (Except EngineError (Option Instance))
  | ended i (.ok _) => some (.ok (some i))
  | ended _ (.error e) => some (.error e)
  | left (some e) => some (.error e)
  | left none => some (.ok none)
  | _ => none

def Answers {α : Type} (wrap : α → Option Instance) (r : Stage × Engine γ)
    (answer : Except EngineError α × Engine γ) : Prop :=
  r.1.answer? = some (answer.1.map wrap) ∧ r.2 = answer.2

variable (hwait : ∀ (id : InstanceId) (leases : Leases),
  leases.attempt config.lockPolicy id = .waiting →
    turn.late = true ∧ config.lockTimeout.isSome = true)

include hwait

theorem steps_opening (n : Nat) (i : Instance) :
    Answers some (steps config inv turn (6 + n) (.opening none i) g)
      (match Engine.run config inv turn.now none i g with
      | (.error e, _, g') => (.error e, g')
      | (.ok _, j, g') => (.ok j, g')) := by
  rw [steps_add, steps_run none i (hwait i.id)]
  rcases Engine.run config inv turn.now none i g with ⟨e | r, j, g'⟩ <;>
    simp only [steps_ended] <;> exact ⟨rfl, rfl⟩

theorem steps_runFor (w : Workflow) (target : Target) (hid : turn.id = g.supply.next) :
    Answers some (steps config inv turn 8 (.finding w target) g)
      (Engine.runFor config inv turn.now w target g) := by
  have hsupply : (g.read .findInstance (·.find? w.id target)).2.supply = g.supply :=
    Engine.supply_call g _ _
  rw [steps, next, Engine.runFor, Engine.instanceFor]
  rcases hr : g.read .findInstance (·.find? w.id target) with ⟨e | _ | i, g₁⟩ <;>
    rw [hr] at hsupply
  · simp only [steps_left]
    exact ⟨rfl, rfl⟩
  · have hdraw : g₁.supply.next = turn.id := (congrArg Supply.next hsupply).trans hid.symm
    simp only
    rw [steps, next, Engine.drawId, hdraw]
    simp only
    rcases g₁.skipId.call .createInstance (·.create (.start w turn.id target turn.now)) with
      ⟨e | i, g₂⟩
    · simp only [steps_left]
      exact ⟨rfl, rfl⟩
    · exact steps_opening hwait 0 i
  · exact steps_opening hwait 1 i

theorem steps_runForEntity (w : WorkflowId) (target : Target) (hid : turn.id = g.supply.next) :
    Answers some (steps config inv turn 9 (Request.runForEntity w target).first g)
      (Engine.runForEntity config inv turn.now w target g) := by
  have hsupply := Engine.supply_workflow g w
  rw [Request.first, steps, next, Engine.runForEntity]
  rcases hw : g.workflow w with ⟨e | x, g₁⟩ <;> rw [hw] at hsupply
  · simp only [steps_left]
    exact ⟨rfl, rfl⟩
  · simp only
    split
    · simp only [steps_left]
      exact ⟨rfl, rfl⟩
    · exact steps_runFor hwait x target (hid.trans (congrArg Supply.next hsupply).symm)

theorem steps_runTarget (target : Target)
    (hid : turn.id = (g.workflowFor inv target).2.supply.next) :
    Answers id (steps config inv turn 9 (Request.runTarget target).first g)
      (Engine.runTarget config inv turn.now target g) := by
  rw [Request.first, steps, next, Engine.runTarget]
  rcases hw : g.workflowFor inv target with ⟨e | _ | w, g₁⟩ <;> rw [hw] at hid
  · simp only [steps_left]
    exact ⟨rfl, rfl⟩
  · simp only [steps_left]
    exact ⟨rfl, rfl⟩
  · obtain ⟨ha, hg⟩ := steps_runFor hwait w target hid
    simp only
    rcases hr : Engine.runFor config inv turn.now w target g₁ with ⟨e | i, g₂⟩ <;>
      rw [hr] at ha hg <;> exact ⟨ha, hg⟩

end Stage

end Flowgraph
