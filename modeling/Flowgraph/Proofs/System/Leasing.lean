import Flowgraph.Proofs.Engine.Leases
import Flowgraph.Proofs.System.Versions

namespace Flowgraph

variable {γ : Type}

def EngineError.isConflict : EngineError → Bool
  | .store (.conflict _ _ _) => true
  | _ => false

def Invoker.KeepsLeases (inv : Invoker (Engine γ)) : Prop := ∀ l, inv.Keeps fun g => g.leases = l

theorem Invoker.onGuest_keepsLeases (inv : Invoker γ) : inv.onGuest.KeepsLeases :=
  fun _ => ⟨fun _ _ _ h => h, fun _ _ _ h => h, fun _ _ _ h => h⟩

namespace Engine

variable {config : Config} {inv : Invoker (Engine γ)} {now : Moment} {w : Workflow}
  {actor : Option String} {i : Instance} {g : Engine γ}

theorem leases_workflowFor (hinv : inv.KeepsLeases) (target : Target) (g : Engine γ) :
    (g.workflowFor inv target).2.leases = g.leases := by
  have hread := leases_read g .workflowsForModel (·.workflowsFor target.model)
  rw [workflowFor]
  rcases hr : g.read .workflowsForModel (·.workflowsFor target.model) with ⟨e | ws, g₁⟩ <;>
    rw [hr] at hread
  · exact hread
  · exact keeps_selectFrom (hinv g.leases) target ws hread

theorem leases_advance (hinv : inv.KeepsLeases) {options : Options} {r : Except EngineError Report}
    {j : Instance} {g' : Engine γ} (h : w.advance inv options now actor i g = (r, j, g')) :
    g'.leases = g.leases :=
  (Workflow.advance_conduct (hinv g.leases) h).2.1 rfl

theorem leases_perform (hinv : inv.KeepsLeases) :
    (perform config inv now w actor i g).2.2.leases = g.leases := by
  rw [perform]
  rcases ha : w.advance inv config.options now actor (i.setRunning now) g with ⟨e | r, k, g₁⟩
  · have hadvance := leases_advance hinv ha
    cases hf : w.failureOf now e with
    | none =>
      simp only [hf]
      exact hadvance
    | some f =>
      have hsettle := leases_settle ((k.restore i.snapshot).fail f) i.snapshot g₁
      simp only [hf]
      rcases hs : settle ((k.restore i.snapshot).fail f) i.snapshot g₁ with ⟨e' | _, m, g₂⟩ <;>
        rw [hs] at hsettle <;> exact hsettle.trans hadvance
  · have hadvance := leases_advance hinv ha
    have hsettle := leases_settle k i.snapshot g₁
    simp only
    rcases hs : settle k i.snapshot g₁ with ⟨e' | _, m, g₂⟩ <;> rw [hs] at hsettle
    · exact hsettle.trans hadvance
    · exact keeps_applyContext (hinv g.leases) w actor m r (hsettle.trans hadvance)

theorem leases_runHeld (hinv : inv.KeepsLeases) :
    (runHeld config inv now w actor i g).2.2.leases = g.leases := by
  have hread := leases_read g .loadInstance (·.load? i.id)
  rw [runHeld]
  rcases hr : g.read .loadInstance (·.load? i.id) with ⟨e | stored, g₁⟩ <;> rw [hr] at hread
  · exact hread
  · simp only
    split
    · exact hread
    · exact (leases_perform hinv).trans hread

theorem leases_run (hinv : inv.KeepsLeases) :
    (run config inv now actor i g).2.2.leases = g.leases := by
  have hwork := leases_workflow g i.workflow
  rw [run]
  split
  · rfl
  rcases hr : g.workflow i.workflow with ⟨e | w, g₁⟩ <;> rw [hr] at hwork
  · exact hwork
  simp only [Leases.acquire?]
  cases ha : g₁.leases.attempt config.lockPolicy i.id with
  | granted l =>
    obtain ⟨hfree, rfl⟩ := Leases.attempt_granted ha
    simp only
    rw [leases_runHeld hinv]
    exact (Leases.release_add hfree).trans hwork
  | refused => exact hwork
  | waiting => exact hwork

end Engine

namespace Stage

def lease? : Stage → Option InstanceId
  | refreshing lease _ _ _ => some lease
  | advancing lease _ _ _ => some lease
  | committing lease _ _ _ _ _ => some lease
  | releasing lease _ _ => some lease
  | _ => none

def error? : Stage → Option EngineError
  | committing _ _ _ _ _ (.error e) => some e
  | releasing _ _ (.error e) => some e
  | ended _ (.error e) => some e
  | left e => e
  | _ => none

theorem lease?_of_isOver {a : Stage} (h : a.isOver = true) : a.lease? = none := by
  cases a with
  | ended => rfl
  | left => rfl
  | _ => cases h

variable {config : Config} {inv : Invoker (Engine γ)} {turn : Turn} {a b : Stage}
  {g g' : Engine γ}

theorem step_of_kept {r r' : Option InstanceId} (hl : g'.leases = g.leases) (hr : r' = r) :
    Leases.Step g.leases r g'.leases r' := by
  rw [hl, hr]
  exact .rest g.leases r

theorem next_lease (hinv : inv.KeepsLeases) (h : next config inv turn a g = (b, g')) :
    Leases.Step g.leases a.lease? g'.leases b.lease? := by
  cases a with
  | choosing target =>
    have hl := Engine.leases_workflowFor hinv target g
    simp only [next] at h
    rcases hr : g.workflowFor inv target with ⟨e | _ | w, g₁⟩ <;> rw [hr] at h hl <;> cases h <;>
      exact step_of_kept hl rfl
  | governing id target =>
    have hl := Engine.leases_workflow g id
    simp only [next] at h
    rcases hr : g.workflow id with ⟨e | w, g₁⟩ <;> simp only [hr] at h hl
    · cases h
      exact step_of_kept hl rfl
    · split at h <;> cases h <;> exact step_of_kept hl rfl
  | finding w target =>
    have hl := Engine.leases_read g .findInstance (·.find? w.id target)
    simp only [next] at h
    rcases hr : g.read .findInstance (·.find? w.id target) with ⟨e | _ | i, g₁⟩ <;>
      rw [hr] at h hl <;> cases h <;> exact step_of_kept hl rfl
  | creating w target =>
    have hl := Engine.leases_call g.skipId .createInstance
      (·.create (.start w turn.id target turn.now))
    simp only [next] at h
    rcases hr : g.skipId.call .createInstance (·.create (.start w turn.id target turn.now)) with
      ⟨e | i, g₁⟩ <;> rw [hr] at h hl <;> cases h <;> exact step_of_kept hl rfl
  | opening actor i =>
    have hl := Engine.leases_workflow g i.workflow
    simp only [next] at h
    split at h
    · cases h
      exact .rest _ _
    · rcases hr : g.workflow i.workflow with ⟨e | w, g₁⟩ <;> rw [hr] at h hl <;> cases h <;>
        exact step_of_kept hl rfl
  | leasing w actor i =>
    simp only [next] at h
    split at h
    case h_1 l ha =>
      cases h
      exact .take ha
    case h_2 =>
      cases h
      exact .rest _ _
    case h_3 => split at h <;> cases h <;> exact .rest _ _
  | refreshing lease w actor i =>
    have hl := Engine.leases_read g .loadInstance (·.load? i.id)
    simp only [next] at h
    rcases hr : g.read .loadInstance (·.load? i.id) with ⟨e | stored, g₁⟩ <;>
      simp only [hr] at h hl
    · cases h
      exact step_of_kept hl rfl
    · split at h <;> cases h <;> exact step_of_kept hl rfl
  | advancing lease w actor base =>
    rw [next] at h
    rcases hr : w.advance inv config.options turn.now actor (base.setRunning turn.now) g with
      ⟨e | r, i, g₁⟩ <;> have hl := Engine.leases_advance hinv hr <;> simp only [hr] at h
    · split at h <;> cases h <;> exact step_of_kept hl rfl
    · cases h
      exact step_of_kept hl rfl
  | committing lease w actor base i r =>
    have hl := Engine.leases_settle i base.snapshot g
    simp only [next] at h
    rcases hr : Engine.settle i base.snapshot g with ⟨e | _, j, g₁⟩ <;> rw [hr] at h hl
    · cases h
      exact step_of_kept hl rfl
    · cases r with
      | ok report =>
        cases h
        exact step_of_kept (Engine.keeps_applyContext (hinv g.leases) w actor j report hl) rfl
      | error e =>
        cases h
        exact step_of_kept hl rfl
  | releasing lease i r =>
    cases h
    exact .letGo g.leases lease
  | ended i r =>
    cases h
    exact .rest _ _
  | left e =>
    cases h
    exact .rest _ _

theorem error?_next_leasing (hpolicy : config.lockPolicy = .failFast) (turn : Turn) (w : Workflow)
    (actor : Option String) (i : Instance) (g : Engine γ) :
    (next config inv turn (.leasing w actor i) g).1.error? = some (.busy i.id) ↔
      g.leases.isHeld i.id = true := by
  rw [next, hpolicy]
  cases hl : g.leases.isHeld i.id with
  | true => simp [Leases.attempt_of_held _ hl, error?]
  | false => simp [Leases.attempt_of_free _ hl, error?]

end Stage

namespace System

variable {config : Nat → Config} {inv : Nat → Invoker γ} {s : System γ}

def holds (s : System γ) (engine party : Nat) : Option InstanceId :=
  (s.calls party).bind fun c => if c.engine = engine then c.stage.lease? else none

def Leased (s : System γ) : Prop := ∀ engine, (s.leases engine).HeldBy (s.holds engine)

theorem holds_eq {party : Nat} {c : Call} (hc : s.calls party = some c) (engine : Nat) :
    s.holds engine party = if c.engine = engine then c.stage.lease? else none := by
  rw [holds, hc]
  rfl

theorem holds_update (party : Nat) (c : Call) {s' : System γ}
    (hs : s'.calls = Function.update s.calls party (some c)) (engine : Nat) :
    s'.holds engine = Function.update (s.holds engine) party
      (if c.engine = engine then c.stage.lease? else none) := by
  funext p
  rw [holds, hs]
  by_cases e : p = party
  · subst e
    rw [Function.update_self, Function.update_self]
    rfl
  · rw [Function.update_of_ne e, Function.update_of_ne e]
    rfl

theorem Leased.stepCall (h : s.Leased) {party : Nat} {c : Call} (hc : s.calls party = some c)
    (turn : Turn) : (stepCall config inv s party turn c).Leased := by
  intro engine
  rcases hr : c.stage.next (config c.engine) (inv c.engine).onGuest turn (s.engine c.engine) with
    ⟨b, g⟩
  have hstep := Stage.next_lease (Invoker.onGuest_keepsLeases _) hr
  rw [System.stepCall, hr, holds_update party { c with stage := b } rfl]
  have hheld := holds_eq hc engine
  by_cases e : c.engine = engine
  · subst e
    rw [if_pos rfl] at hheld
    simp only [Function.update_self, if_true]
    exact (h c.engine).step hheld hstep
  · rw [if_neg e] at hheld
    simp only [Function.update_of_ne fun e' => e e'.symm, if_neg e]
    exact (h engine).step hheld (.rest _ _)

theorem Leased.call (h : s.Leased) (party engine : Nat) (request : Request) :
    (act config inv s (.call party engine request)).Leased := by
  rw [act]
  split
  case isFalse => exact h
  case isTrue hok =>
    intro e
    have hover := (Bool.and_eq_true_iff.1 hok).1
    have hnone : s.holds e party = none := by
      cases hc : s.calls party with
      | none => rw [holds, hc]; rfl
      | some c =>
        rw [hc] at hover
        rw [holds_eq hc, Stage.lease?_of_isOver hover, ite_self]
    have hfirst : request.first.lease? = none := by cases request <;> rfl
    rw [holds_update party ⟨engine, request, request.first⟩ rfl]
    simp only [hfirst, ite_self]
    exact (h e).step hnone (.rest _ _)

theorem Leased.act (h : s.Leased) (e : Event γ) : (act config inv s e).Leased := by
  cases e with
  | register w => exact h
  | start w id target now =>
    rw [System.act]
    split <;> exact h
  | load id =>
    rw [System.act]
    split <;> exact h
  | create i =>
    rw [System.act]
    repeat' split
    all_goals exact h
  | call party engine request => exact h.call party engine request
  | step party turn =>
    rw [System.act]
    split
    · exact h
    case h_2 c hc =>
      split
      · exact h.stepCall hc turn
      · split
        · exact h
        · exact Leased.stepCall (s := { s with drawn := _ }) h hc turn
  | disturb guest => exact h

theorem leased_run (config : Nat → Config) (inv : Nat → Invoker γ) (outages : Outages) (guest : γ)
    (events : List (Event γ)) : (run config inv (start outages guest) events).Leased := by
  induction events using List.reverseRecOn with
  | nil => exact fun _ => .empty
  | append_singleton es e ih =>
    rw [run_concat]
    exact ih.act e

end System

end Flowgraph
