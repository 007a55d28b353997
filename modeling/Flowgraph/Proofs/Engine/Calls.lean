import Flowgraph.Engine.Run
import Flowgraph.Proofs.Engine.Commit
import Flowgraph.Proofs.Run.Conduct

namespace Flowgraph

variable {γ α : Type}

namespace Engine

def outage? (g : Engine γ) (c : StoreCall) : Option String := (g.outages c).head?.join

theorem call_of_outage {g : Engine γ} {c : StoreCall} {reason : String}
    (h : g.outage? c = some reason) (use : Store → Except StoreError α × Store) :
    g.call c use = (.error (.backend reason), g.spend c) := by
  have hh : (g.outages c).head? = some (some reason) := Option.join_eq_some_iff.1 h
  simp [call, hh]

theorem call_of_clear {g : Engine γ} {c : StoreCall} (h : g.outage? c = none)
    (use : Store → Except StoreError α × Store) :
    g.call c use = ((use g.store).1, { g.spend c with store := (use g.store).2 }) := by
  rw [call]
  split
  case h_1 reason hh => simp [outage?, hh] at h
  case h_2 => rfl

theorem read_of_clear {g : Engine γ} {c : StoreCall} (h : g.outage? c = none) (look : Store → α) :
    g.read c look = (.ok (look g.store), g.spend c) :=
  call_of_clear h _

theorem call_cases {g g' : Engine γ} {c : StoreCall} {use : Store → Except StoreError α × Store}
    {r : Except StoreError α} (h : g.call c use = (r, g')) :
    (∃ reason, r = .error (.backend reason) ∧ g'.store = g.store) ∨
      use g.store = (r, g'.store) := by
  cases ho : g.outage? c with
  | some reason =>
    rw [call_of_outage ho] at h
    cases h
    exact .inl ⟨reason, rfl, rfl⟩
  | none =>
    rw [call_of_clear ho] at h
    cases h
    exact .inr rfl

theorem call_ok {g g' : Engine γ} {c : StoreCall} {use : Store → Except StoreError α × Store}
    {a : α} (h : g.call c use = (.ok a, g')) : use g.store = (.ok a, g'.store) := by
  rcases call_cases h with ⟨reason, hr, -⟩ | hu
  · cases hr
  · exact hu

theorem store_call_error {g g' : Engine γ} {c : StoreCall}
    {use : Store → Except StoreError α × Store} {e : StoreError}
    (huse : ∀ {e s}, use g.store = (.error e, s) → s = g.store)
    (h : g.call c use = (.error e, g')) : g'.store = g.store := by
  rcases call_cases h with ⟨-, -, hs⟩ | hu
  · exact hs
  · exact huse hu

theorem leases_call (g : Engine γ) (c : StoreCall) (use : Store → Except StoreError α × Store) :
    (g.call c use).2.leases = g.leases := by
  cases ho : g.outage? c with
  | some reason =>
    rw [call_of_outage ho]
    rfl
  | none =>
    rw [call_of_clear ho]
    rfl

theorem supply_call (g : Engine γ) (c : StoreCall) (use : Store → Except StoreError α × Store) :
    (g.call c use).2.supply = g.supply := by
  cases ho : g.outage? c with
  | some reason =>
    rw [call_of_outage ho]
    rfl
  | none =>
    rw [call_of_clear ho]
    rfl

theorem read_ok {g g' : Engine γ} {c : StoreCall} {look : Store → α} {a : α}
    (h : g.read c look = (.ok a, g')) : a = look g.store ∧ g'.store = g.store := by
  have hu := call_ok h
  simp only [Prod.mk.injEq, Except.ok.injEq] at hu
  exact ⟨hu.1.symm, hu.2.symm⟩

theorem read_error {g g' : Engine γ} {c : StoreCall} {look : Store → α} {e : StoreError}
    (h : g.read c look = (.error e, g')) : g'.store = g.store :=
  store_call_error (fun hu => by cases hu) h

theorem store_workflow (g : Engine γ) (id : WorkflowId) : (g.workflow id).2.store = g.store := by
  rw [workflow]
  rcases hr : g.read .loadWorkflow (·.workflow? id) with ⟨e | _ | w, g'⟩
  · exact read_error hr
  · exact (read_ok hr).2
  · exact (read_ok hr).2

theorem workflow_ok {g g' : Engine γ} {id : WorkflowId} {w : Workflow}
    (h : g.workflow id = (.ok w, g')) : g.store.workflow? id = some w := by
  rw [workflow] at h
  rcases hr : g.read .loadWorkflow (·.workflow? id) with ⟨e | _ | x, g₁⟩ <;> rw [hr] at h <;>
    cases h
  exact (read_ok hr).1.symm

theorem store_register (g : Engine γ) (w : Workflow) :
    (g.register w).2.store = g.store ∨ (g.register w).2.store = g.store.saveWorkflow w := by
  rw [register]
  rcases hr : g.call .saveWorkflow fun s => (.ok (), s.saveWorkflow w) with ⟨e | _, g'⟩
  · exact .inl (store_call_error (fun hu => by cases hu) hr)
  · exact .inr (congrArg Prod.snd (call_ok hr)).symm

theorem load_register (g : Engine γ) (w : Workflow) (id : InstanceId) :
    (g.register w).2.store.load? id = g.store.load? id := by
  rcases g.store_register w with h | h <;> rw [h]
  rfl

theorem slots_register (g : Engine γ) (w : Workflow) :
    (g.register w).2.store.slots = g.store.slots := by
  rcases g.store_register w with h | h <;> rw [h]
  rfl

theorem leases_read (g : Engine γ) (c : StoreCall) (look : Store → α) :
    (g.read c look).2.leases = g.leases := leases_call g c _

theorem leases_workflow (g : Engine γ) (id : WorkflowId) :
    (g.workflow id).2.leases = g.leases := by
  have hread := leases_read g .loadWorkflow (·.workflow? id)
  rw [workflow]
  rcases hr : g.read .loadWorkflow (·.workflow? id) with ⟨e | _ | w, g'⟩ <;> rw [hr] at hread <;>
    exact hread

theorem supply_workflow (g : Engine γ) (id : WorkflowId) :
    (g.workflow id).2.supply = g.supply := by
  have hread : (g.read .loadWorkflow (·.workflow? id)).2.supply = g.supply := supply_call g _ _
  rw [workflow]
  rcases hr : g.read .loadWorkflow (·.workflow? id) with ⟨e | _ | w, g'⟩ <;> rw [hr] at hread <;>
    exact hread

theorem leases_settle (i : Instance) (back : Snapshot) (g : Engine γ) :
    (settle i back g).2.2.leases = g.leases := by
  have hcall := leases_call g .commit (·.commit i)
  rw [settle]
  rcases hr : g.call .commit (·.commit i) with ⟨e | v, g'⟩ <;> rw [hr] at hcall <;> exact hcall

@[simp] theorem store_spend (g : Engine γ) (c : StoreCall) : (g.spend c).store = g.store := rfl

@[simp] theorem leases_spend (g : Engine γ) (c : StoreCall) : (g.spend c).leases = g.leases := rfl

theorem outage_spend (g : Engine γ) {c d : StoreCall} (h : d ≠ c) :
    (g.spend c).outage? d = g.outage? d := by
  simp [outage?, spend, h]

def host (g : Engine γ) : Engine Unit where
  store := g.store
  outages := g.outages
  leases := g.leases
  supply := g.supply
  guest := ()

theorem store_eq_of_host {g g' : Engine γ} (h : g'.host = g.host) : g'.store = g.store :=
  congrArg (fun k : Engine Unit => k.store) h

theorem outage_eq_of_host {g g' : Engine γ} (h : g'.host = g.host) (c : StoreCall) :
    g'.outage? c = g.outage? c :=
  congrArg (fun k : Engine Unit => k.outage? c) h

theorem settle_cases {k j : Instance} {back : Snapshot} {r : Except EngineError Unit}
    {g g' : Engine γ} (h : settle k back g = (r, j, g')) :
    (∃ v, r = .ok () ∧ g.store.commit k = (.ok v, g'.store) ∧ j = { k with version := v }) ∨
      (∃ c, r = .error (.store c) ∧ (g.call .commit (·.commit k)).1 = .error c ∧
        j = k.restore back ∧ g'.store = g.store) := by
  rw [settle] at h
  rcases hc : g.call .commit (·.commit k) with ⟨c | v, g₁⟩ <;> rw [hc] at h <;> cases h
  · exact .inr ⟨c, rfl, rfl, rfl, store_call_error Store.commit_unchanged hc⟩
  · exact .inl ⟨v, rfl, call_ok hc, rfl⟩

end Engine

namespace Invoker

def Detached (inv : Invoker (Engine γ)) : Prop := ∀ h, inv.Keeps fun g => g.host = h

def onGuest (inv : Invoker γ) : Invoker (Engine γ) where
  guard e site g := ((inv.guard e site g.guest).1, { g with guest := (inv.guard e site g.guest).2 })
  action key site g :=
    ((inv.action key site g.guest).1, { g with guest := (inv.action key site g.guest).2 })
  apply fields site g := { g with guest := inv.apply fields site g.guest }

theorem onGuest_detached (inv : Invoker γ) : inv.onGuest.Detached :=
  fun _ => ⟨fun _ _ _ h => h, fun _ _ _ h => h, fun _ _ _ h => h⟩

end Invoker

namespace Engine

variable {inv : Invoker (Engine γ)}

theorem keeps_applyContext {P : Engine γ → Prop} (hinv : inv.Keeps P) (w : Workflow)
    (actor : Option String) (i : Instance) (r : Report) {g : Engine γ} (hg : P g) :
    P (applyContext inv w actor i r g) := by
  rw [applyContext]
  split
  · exact hg
  · exact hinv.apply _ _ _ hg

theorem host_applyContext (hinv : inv.Detached) (w : Workflow) (actor : Option String)
    (i : Instance) (r : Report) (g : Engine γ) :
    (applyContext inv w actor i r g).host = g.host :=
  keeps_applyContext (hinv g.host) w actor i r rfl

theorem keeps_selectFrom {P : Engine γ → Prop} (hinv : inv.Keeps P) (target : Target)
    (ws : List Workflow) {g : Engine γ} (hg : P g) : P (selectFrom inv target ws g).2 := by
  induction ws generalizing g with
  | nil => exact hg
  | cons w ws ih =>
    rw [selectFrom]
    split
    · exact ih hg
    · split
      · exact hg
      case h_2 e he =>
        have hguard := hinv.guard e { workflow := w.id, target } g hg
        rcases hr : inv.guard e { workflow := w.id, target } g with ⟨c | b, g₁⟩ <;>
          rw [hr] at hguard
        · exact hguard
        · cases b with
          | true => exact hguard
          | false => exact ih hguard

theorem host_selectFrom (hinv : inv.Detached) (target : Target) (ws : List Workflow)
    (g : Engine γ) : (selectFrom inv target ws g).2.host = g.host :=
  keeps_selectFrom (hinv g.host) target ws rfl

theorem store_workflowFor (hinv : inv.Detached) (target : Target) (g : Engine γ) :
    (g.workflowFor inv target).2.store = g.store := by
  rw [workflowFor]
  rcases hr : g.read .workflowsForModel (·.workflowsFor target.model) with ⟨e | ws, g₁⟩
  · exact read_error hr
  · exact (store_eq_of_host (host_selectFrom hinv target ws g₁)).trans (read_ok hr).2

end Engine

end Flowgraph
