import Flowgraph.Proofs.Engine.Commit
import Flowgraph.Proofs.System.Stages

namespace Flowgraph

variable {γ : Type}

inductive Workflow.Derives (w : Workflow) (inv : Invoker (Engine γ)) (options : Options)
    (actor : Option String) (base : Instance) : Instance → Except EngineError Report → Prop
  | advanced {now : Moment} {g g' : Engine γ} {i : Instance} {r : Report}
      (ok : w.advance inv options now actor (base.setRunning now) g = (.ok r, i, g')) :
      Derives w inv options actor base i (.ok r)
  | failed {now : Moment} {g g' : Engine γ} {i : Instance} {e : EngineError} {f : Failure}
      (error : w.advance inv options now actor (base.setRunning now) g = (.error e, i, g'))
      (fault : w.failureOf now e = some f) :
      Derives w inv options actor base (base.fail f) (.error e)

namespace Workflow

variable {w : Workflow} {inv : Invoker (Engine γ)} {options : Options} {actor : Option String}
  {base i : Instance} {r : Except EngineError Report}

theorem advance_evolves {now : Moment} {g g' : Engine γ} {r : Except EngineError Report}
    (h : w.advance inv options now actor (base.setRunning now) g = (r, i, g')) :
    base.Evolves i :=
  (base.evolves_setRunning now).trans (evolves_of_advance h)

theorem Derives.same (h : w.Derives inv options actor base i r) :
    i.id = base.id ∧ i.slot = base.slot ∧ i.version = base.version := by
  cases h with
  | advanced ok =>
    have hev := advance_evolves ok
    refine ⟨hev.id, ?_, hev.version⟩
    rw [Instance.slot, hev.workflow, hev.target, Instance.slot]
  | failed => exact ⟨rfl, rfl, rfl⟩

theorem Derives.restore (h : w.Derives inv options actor base i r) :
    i.restore base.snapshot = base := by
  cases h with
  | advanced ok => exact Instance.restore_snapshot (advance_evolves ok)
  | failed => exact Instance.restore_fail base _

end Workflow

namespace Stage

def base? : Stage → Option Instance
  | choosing _ => none
  | governing _ _ => none
  | finding _ _ => none
  | creating _ _ => none
  | opening _ i => some i
  | leasing _ _ i => some i
  | refreshing _ _ _ i => some i
  | advancing _ _ _ base => some base
  | committing _ _ _ base _ _ => some base
  | releasing _ i _ => some i
  | ended i _ => some i
  | left _ => none

def Computed (config : Config) (inv : Invoker (Engine γ)) : Stage → Prop
  | committing _ w actor base i r => w.Derives inv config.options actor base i r
  | _ => True

inductive Effect (turn : Turn) (s : Store) : Stage → Stage → Store → Prop
  | quiet {a b : Stage}
      (from? : ∀ i, b.base? = some i → a.base? = some i ∨ ∃ id, s.load? id = some i) :
      Effect turn s a b s
  | create {w : Workflow} {target : Target} {i : Instance} {s' : Store}
      (ok : s.create (.start w turn.id target turn.now) = (.ok i, s')) :
      Effect turn s (.creating w target) (.opening none i) s'
  | commit {lease : InstanceId} {w : Workflow} {actor : Option String} {base i : Instance}
      {r : Except EngineError Report} {v : UInt64} {s' : Store} (ok : s.commit i = (.ok v, s')) :
      Effect turn s (.committing lease w actor base i r)
        (.releasing lease { i with version := v } r) s'

variable {config : Config} {inv : Invoker (Engine γ)} {turn : Turn} {a b : Stage}
  {g g' : Engine γ}

theorem next_computed (h : next config inv turn a g = (b, g')) (ha : a.Computed config inv) :
    b.Computed config inv := by
  cases a with
  | advancing lease w actor base =>
    rw [next] at h
    rcases hr : w.advance inv config.options turn.now actor (base.setRunning turn.now) g with
      ⟨e | r, i, g₁⟩ <;> simp only [hr] at h
    · cases hf : w.failureOf turn.now e with
      | none =>
        simp only [hf] at h
        cases h
        trivial
      | some f =>
        simp only [hf, Instance.restore_snapshot (Workflow.advance_evolves hr)] at h
        cases h
        exact .failed hr hf
    · cases h
      exact .advanced hr
  | _ =>
    simp only [next] at h
    repeat' split at h
    all_goals
      cases h
      trivial

theorem Effect.of_kept {s s' : Store} (hs : s' = s)
    (hb : ∀ i, b.base? = some i → a.base? = some i ∨ ∃ id, s.load? id = some i) :
    Effect turn s a b s' := by
  rw [hs]
  exact .quiet hb

theorem next_effect (hinv : inv.Detached) (h : next config inv turn a g = (b, g'))
    (ha : a.Computed config inv) : Effect turn g.store a b g'.store := by
  cases a with
  | choosing target =>
    have hs := Engine.store_workflowFor hinv target g
    simp only [next] at h
    rcases hr : g.workflowFor inv target with ⟨e | _ | w, g₁⟩ <;> rw [hr] at h hs <;> cases h
    · exact .of_kept hs fun i hi => by cases hi
    · exact .of_kept hs fun i hi => by cases hi
    · exact .of_kept hs fun i hi => by cases hi
  | governing id target =>
    have hs := Engine.store_workflow g id
    simp only [next] at h
    rcases hr : g.workflow id with ⟨e | w, g₁⟩ <;> simp only [hr] at h hs
    · cases h
      exact .of_kept hs fun i hi => by cases hi
    · split at h <;> cases h
      · exact .of_kept hs fun i hi => by cases hi
      · exact .of_kept hs fun i hi => by cases hi
  | finding w target =>
    simp only [next] at h
    rcases hr : g.read .findInstance (·.find? w.id target) with ⟨e | _ | i, g₁⟩ <;>
      rw [hr] at h <;> cases h
    · exact .of_kept (Engine.read_error hr) fun i hi => by cases hi
    · exact .of_kept (Engine.read_ok hr).2 fun i hi => by cases hi
    · obtain ⟨hf, hs⟩ := Engine.read_ok hr
      obtain ⟨id, -, hid⟩ := Option.bind_eq_some_iff.1 hf.symm
      refine .of_kept hs fun j hj => ?_
      cases hj
      exact .inr ⟨id, hid⟩
  | creating w target =>
    simp only [next] at h
    rcases hr : g.skipId.call .createInstance (·.create (.start w turn.id target turn.now)) with
      ⟨e | i, g₁⟩ <;> rw [hr] at h <;> cases h
    · have hs : g'.store = g.skipId.store :=
        Engine.store_call_error Store.create_unchanged hr
      exact .of_kept hs fun i hi => by cases hi
    · exact .create (Engine.call_ok hr)
  | opening actor i =>
    have hs := Engine.store_workflow g i.workflow
    simp only [next] at h
    split at h
    · cases h
      exact .quiet fun j hj => .inl hj
    · rcases hr : g.workflow i.workflow with ⟨e | w, g₁⟩ <;> rw [hr] at h hs <;> cases h
      · exact .of_kept hs fun j hj => .inl hj
      · exact .of_kept hs fun j hj => .inl hj
  | leasing w actor i =>
    simp only [next] at h
    repeat' split at h
    all_goals
      cases h
      exact .quiet fun j hj => .inl hj
  | refreshing lease w actor i =>
    simp only [next] at h
    rcases hr : g.read .loadInstance (·.load? i.id) with ⟨e | stored, g₁⟩ <;> simp only [hr] at h
    · cases h
      exact .of_kept (Engine.read_error hr) fun j hj => .inl hj
    · obtain ⟨hl, hs⟩ := Engine.read_ok hr
      have hb : ∀ j, some (i.refreshed stored) = some j →
          some i = some j ∨ ∃ id, g.store.load? id = some j := by
        intro j hj
        rw [hl] at hj
        cases hl' : g.store.load? i.id with
        | none =>
          rw [hl'] at hj
          exact .inl hj
        | some k =>
          rw [hl', Instance.refreshed] at hj
          split at hj
          · exact .inr ⟨i.id, hl'.trans hj⟩
          · exact .inl hj
      split at h <;> cases h
      · exact .of_kept hs hb
      · exact .of_kept hs hb
  | advancing lease w actor base =>
    rw [next] at h
    rcases hr : w.advance inv config.options turn.now actor (base.setRunning turn.now) g with
      ⟨r, i, g₁⟩
    obtain ⟨-, hhost, -⟩ := Workflow.advance_conduct (hinv g.host) hr
    have hs : g₁.store = g.store := Engine.store_eq_of_host (hhost rfl)
    rw [hr] at h
    cases r with
    | ok r =>
      cases h
      exact .of_kept hs fun j hj => .inl hj
    | error e =>
      simp only [Instance.restore_snapshot (Workflow.advance_evolves hr)] at h
      split at h <;> cases h
      · exact .of_kept hs fun j hj => .inl hj
      · exact .of_kept hs fun j hj => .inl hj
  | committing lease w actor base i r =>
    simp only [next] at h
    rcases hr : Engine.settle i base.snapshot g with ⟨r₁, j, g₁⟩
    rw [hr] at h
    rcases Engine.settle_cases hr with ⟨v, rfl, hc, rfl⟩ | ⟨c, rfl, -, rfl, hs⟩
    · cases r with
      | ok report =>
        cases h
        rw [Engine.store_eq_of_host (Engine.host_applyContext hinv w actor _ report g₁)]
        exact .commit hc
      | error e =>
        cases h
        exact .commit hc
    · cases h
      refine .of_kept hs fun j hj => ?_
      cases hj
      exact .inl (congrArg some (Workflow.Derives.restore ha).symm)
  | releasing lease i r =>
    cases h
    exact .quiet fun j hj => .inl hj
  | ended i r =>
    cases h
    exact .quiet fun j hj => .inl hj
  | left e =>
    cases h
    exact .quiet fun j hj => .inl hj

end Stage

end Flowgraph
