import Flowgraph.Proofs.Run.Atomicity
import Flowgraph.Proofs.Run.Beside
import Flowgraph.Proofs.Run.Context

namespace Flowgraph

variable {α γ γ' : Type} {R : γ → γ' → Prop}

inductive Engine.Beside (R : γ → γ' → Prop) : Engine γ → Engine γ' → Prop
  | mk (store : Store) (outages : Outages) (leases : Leases) (supply : Supply) {s : γ} {s' : γ'}
      (guests : R s s') :
      Beside R ⟨store, outages, leases, supply, s⟩ ⟨store, outages, leases, supply, s'⟩

theorem Invoker.SameCalls.onGuest {inv : Invoker γ} {inv' : Invoker γ'} (h : inv.SameCalls inv' R) :
    inv.onGuest.SameCalls inv'.onGuest (Engine.Beside R) where
  guard e site g g' hg := by
    obtain ⟨store, outages, leases, supply, hs⟩ := hg
    have hguard := h.guard e site hs
    rw [Invoker.onGuest, Invoker.onGuest]
    simp only
    generalize inv.guard e site _ = p at hguard ⊢
    generalize inv'.guard e site _ = p' at hguard ⊢
    cases hguard with
    | mk a hs' => exact .mk a (.mk store outages leases supply hs')
  action key site g g' hg := by
    obtain ⟨store, outages, leases, supply, hs⟩ := hg
    have haction := h.action key site hs
    rw [Invoker.onGuest, Invoker.onGuest]
    simp only
    generalize inv.action key site _ = p at haction ⊢
    generalize inv'.action key site _ = p' at haction ⊢
    cases haction with
    | mk a hs' => exact .mk a (.mk store outages leases supply hs')

namespace Engine

def withCalls (g : Engine γ) (calls : List (GuardCall γ)) : Engine (γ × List (GuardCall γ)) where
  store := g.store
  outages := g.outages
  leases := g.leases
  supply := g.supply
  guest := (g.guest, calls)

theorem beside_withCalls {P : γ → γ × List (GuardCall γ) → Prop} {g : Engine γ}
    {calls : List (GuardCall γ)} (h : P g.guest (g.guest, calls)) :
    g.Beside P (g.withCalls calls) :=
  .mk g.store g.outages g.leases g.supply h

theorem Beside.eq_of_withCalls {g k : Engine γ} {calls : List (GuardCall γ)}
    (h : k.Beside (fun s p => p.1 = s) (g.withCalls calls)) : k = g := by
  obtain ⟨store, outages, leases, supply, guest⟩ := g
  obtain ⟨_, _, _, _, rfl⟩ := h
  rfl

variable {g : Engine γ} {g' : Engine γ'}

theorem Beside.call (hg : g.Beside R g') (c : StoreCall)
    (use : Store → Except StoreError α × Store) :
    Same (Beside R) (g.call c use) (g'.call c use) := by
  obtain ⟨store, outages, leases, supply, hs⟩ := hg
  rw [Engine.call, Engine.call]
  simp only [Engine.spend]
  rcases (outages c).head? with _ | _ | reason <;> exact .mk _ (.mk _ _ _ _ hs)

theorem Beside.read (hg : g.Beside R g') (c : StoreCall) (look : Store → α) :
    Same (Beside R) (g.read c look) (g'.read c look) := hg.call c _

theorem Beside.workflow (hg : g.Beside R g') (id : WorkflowId) :
    Same (Beside R) (g.workflow id) (g'.workflow id) := by
  have hread := hg.read .loadWorkflow (·.workflow? id)
  rw [Engine.workflow, Engine.workflow]
  generalize g.read .loadWorkflow _ = p at hread ⊢
  generalize g'.read .loadWorkflow _ = p' at hread ⊢
  cases hread with
  | mk a hk => rcases a with e | _ | w <;> exact .mk _ hk

theorem Beside.withLeases (hg : g.Beside R g') (leases : Leases) :
    Beside R { g with leases } { g' with leases } := by
  obtain ⟨store, outages, _, supply, hs⟩ := hg
  exact .mk store outages leases supply hs

theorem Beside.release (hg : g.Beside R g') (id : InstanceId) :
    Beside R { g with leases := g.leases.release id }
      { g' with leases := g'.leases.release id } := by
  obtain ⟨store, outages, leases, supply, hs⟩ := hg
  exact .mk store outages (leases.release id) supply hs

theorem Beside.settle (hg : g.Beside R g') (i : Instance) (back : Snapshot) :
    Same (Same (Beside R)) (settle i back g) (settle i back g') := by
  have hcall := hg.call .commit (·.commit i)
  rw [Engine.settle, Engine.settle]
  generalize g.call .commit _ = p at hcall ⊢
  generalize g'.call .commit _ = p' at hcall ⊢
  cases hcall with
  | mk a hk => cases a <;> exact .mk _ (.mk _ hk)

variable {inv : Invoker γ} {inv' : Invoker γ'} {config : Config} {now : Moment}
  {actor : Option String}

theorem Beside.selectFrom (h : inv.SameCalls inv' R) (target : Target) (ws : List Workflow)
    (hg : g.Beside R g') :
    Same (Beside R) (selectFrom inv.onGuest target ws g)
      (selectFrom inv'.onGuest target ws g') := by
  induction ws generalizing g g' with
  | nil => exact .mk _ hg
  | cons w ws ih =>
    rw [Engine.selectFrom, Engine.selectFrom]
    split
    · exact ih hg
    rcases w.condition with _ | e
    · exact .mk _ hg
    have hguard := h.onGuest.guard e { workflow := w.id, target } hg
    simp only
    generalize inv.onGuest.guard e _ g = p at hguard ⊢
    generalize inv'.onGuest.guard e _ g' = p' at hguard ⊢
    cases hguard with
    | mk a hk =>
      rcases a with c | b
      · exact .mk _ hk
      cases b with
      | true => exact .mk _ hk
      | false => exact ih hk

inductive Ended (inv : Invoker γ) (inv' : Invoker γ') (R : γ → γ' → Prop) (actor : Option String)
    (skipped : Prop) : Except EngineError Report × Instance × Engine γ →
      Except EngineError Report × Instance × Engine γ' → Prop
  | kept {r : Except EngineError Report} (j : Instance) {g : Engine γ} {g' : Engine γ'}
      (states : g.Beside R g') (idle : (∃ e, r = .error e) ∨ skipped) :
      Ended inv inv' R actor skipped (r, j, g) (r, j, g')
  | committed (w : Workflow) {r : Report} (j : Instance) {g : Engine γ} {g' : Engine γ'}
      (states : g.Beside R g') (live : ¬ skipped) (context : Json.Ascending r.context) :
      Ended inv inv' R actor skipped (.ok r, j, applyContext inv.onGuest w actor j r g)
        (.ok r, j, applyContext inv'.onGuest w actor j r g')

theorem applyContext_release (inv : Invoker γ) (w : Workflow) (actor : Option String)
    (j : Instance) (r : Report) (g : Engine γ) (id : InstanceId) :
    let h := applyContext inv.onGuest w actor j r g
    { h with leases := h.leases.release id } =
      applyContext inv.onGuest w actor j r { g with leases := g.leases.release id } := by
  simp only [applyContext]
  split <;> rfl

namespace Ended

variable {skipped skipped' : Prop} {p : Except EngineError Report × Instance × Engine γ}
  {p' : Except EngineError Report × Instance × Engine γ'}

theorem congr (hs : skipped ↔ skipped') (h : Ended inv inv' R actor skipped p p') :
    Ended inv inv' R actor skipped' p p' := propext hs ▸ h

theorem release (h : Ended inv inv' R actor skipped p p') (id : InstanceId) :
    Ended inv inv' R actor skipped
      (p.1, p.2.1, { p.2.2 with leases := p.2.2.leases.release id })
      (p'.1, p'.2.1, { p'.2.2 with leases := p'.2.2.leases.release id }) := by
  cases h with
  | kept j states idle => exact .kept j (states.release id) idle
  | committed w j states live context =>
    simp only [applyContext_release]
    exact .committed w j (states.release id) live context

end Ended

variable (w : Workflow) (i : Instance)

theorem Beside.perform (h : inv.SameCalls inv' R) (hg : g.Beside R g') :
    Ended inv inv' R actor False (perform config inv.onGuest now w actor i g)
      (perform config inv'.onGuest now w actor i g') := by
  have hadvance := h.onGuest.advance w config.options now actor (i.setRunning now) hg
  rw [Engine.perform, Engine.perform]
  generalize hp : w.advance inv.onGuest config.options now actor (i.setRunning now) g = p
    at hadvance ⊢
  generalize w.advance inv'.onGuest config.options now actor (i.setRunning now) g' = p'
    at hadvance ⊢
  cases hadvance with
  | mk a hk =>
    obtain ⟨j, hk⟩ := hk
    simp only
    rcases a with e | r
    · simp only
      cases w.failureOf now e with
      | none => exact .kept _ hk (.inl ⟨e, rfl⟩)
      | some f =>
        have hsettle := hk.settle ((j.restore i.snapshot).fail f) i.snapshot
        simp only
        generalize Engine.settle _ i.snapshot _ = q at hsettle ⊢
        generalize Engine.settle _ i.snapshot _ = q' at hsettle ⊢
        cases hsettle with
        | mk a hm =>
          obtain ⟨m, hm⟩ := hm
          cases a <;> exact .kept _ hm (.inl ⟨_, rfl⟩)
    · have hsettle := hk.settle j i.snapshot
      simp only
      generalize Engine.settle j i.snapshot _ = q at hsettle ⊢
      generalize Engine.settle j i.snapshot _ = q' at hsettle ⊢
      cases hsettle with
      | mk a hm =>
        obtain ⟨m, hm⟩ := hm
        cases a with
        | error e => exact .kept _ hm (.inl ⟨e, rfl⟩)
        | ok u => exact .committed w m hm id (Workflow.context_of_advance hp)

theorem Beside.runHeld (h : inv.SameCalls inv' R) (hg : g.Beside R g') :
    Ended inv inv' R actor ((g.base i).isTerminal = true)
      (runHeld config inv.onGuest now w actor i g)
      (runHeld config inv'.onGuest now w actor i g') := by
  have hread := hg.read .loadInstance (·.load? i.id)
  have hbase : ∀ stored k, g.read .loadInstance (·.load? i.id) = (.ok stored, k) →
      i.refreshed stored = g.base i := by
    intro stored k hr
    rw [(read_ok hr).1, Engine.base]
  rw [Engine.runHeld, Engine.runHeld]
  generalize g.read .loadInstance _ = p at hread hbase ⊢
  generalize g'.read .loadInstance _ = p' at hread ⊢
  cases hread with
  | mk a hk =>
    rcases a with e | stored
    · exact .kept i hk (.inl ⟨_, rfl⟩)
    simp only [hbase stored _ rfl]
    split
    case isTrue ht => exact .kept _ hk (.inr ht)
    case isFalse ht => exact (Beside.perform w (g.base i) h hk).congr (iff_of_false id ht)

theorem Beside.run (h : inv.SameCalls inv' R) (hg : g.Beside R g') :
    Ended inv inv' R actor (i.isTerminal = true ∨ (g.base i).isTerminal = true)
      (run config inv.onGuest now actor i g) (run config inv'.onGuest now actor i g') := by
  have hfetch := hg.workflow i.workflow
  have hstore := store_workflow g i.workflow
  rw [Engine.run, Engine.run]
  split
  case isTrue ht => exact .kept i hg (.inr (.inl ht))
  case isFalse ht =>
    generalize g.workflow i.workflow = p at hfetch hstore ⊢
    generalize g'.workflow i.workflow = p' at hfetch ⊢
    cases hfetch with
    | @mk a k k' hk =>
      rcases a with e | w
      · exact .kept i hk (.inl ⟨e, rfl⟩)
      have hleases : k'.leases = k.leases := by
        cases hk
        rfl
      simp only [hleases]
      rcases k.leases.acquire? config.lockPolicy i.id with _ | leases
      · exact .kept i hk (.inl ⟨_, rfl⟩)
      have hbase : Engine.base { k with leases } i = g.base i := by
        rw [Engine.base, Engine.base, ← hstore]
      refine Ended.release (Ended.congr ?_ (Beside.runHeld w i h (hk.withLeases leases))) i.id
      rw [hbase]
      exact (or_iff_right ht).symm

end Engine

end Flowgraph
