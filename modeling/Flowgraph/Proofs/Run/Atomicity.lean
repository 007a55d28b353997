import Flowgraph.Proofs.Engine.Calls
import Flowgraph.Proofs.Engine.Commit
import Flowgraph.Proofs.Run.Passes
import Mathlib.Logic.ExistsUnique

namespace Flowgraph

inductive Failure.Blames (w : Workflow) (now : Moment) : EngineError → Failure → Prop
  | visitLimit {n : NodeId} (visits max : UInt32) (node : w.contains n = true) :
      Blames w now (.workflow (.visitLimit n visits max)) {
        kind := .visitLimit
        message := (EngineError.workflow (.visitLimit n visits max)).message
        node := some n
        moment := now }
  | action {n : NodeId} {x : Node} {key : String} (cause : InvokerError)
      (node : w.node? n = some x) (due : x.action = some key) :
      Blames w now (.action n key cause) {
        kind := .action
        message := (EngineError.action n key cause).message
        node := some n
        moment := now }
  | guard {t : TransitionId} {x : Transition} {e : String} (cause : InvokerError)
      (transition : w.transition? t = some x) (guarded : x.guard = some e) :
      Blames w now (.guard t e cause) {
        kind := .guard
        message := (EngineError.guard t e cause).message
        node := some x.source
        transition := some t
        moment := now }

theorem Workflow.blames_of_failureOf {w : Workflow} {now : Moment} {e : EngineError} {f : Failure}
    (he : e.RaisedIn w) (h : w.failureOf now e = some f) : f.Blames w now e := by
  cases e with
  | workflow c =>
    cases c with
    | visitLimit n visits max =>
      cases h
      exact .visitLimit visits max he.1
    | nodeNotFound => cases h
    | wrongWorkflow => cases h
    | overflow => cases h
  | action n key cause =>
    obtain ⟨x, hx, hk⟩ := he
    cases h
    exact .action cause hx hk
  | guard t expr cause =>
    obtain ⟨x, hx, hg⟩ := he
    simp only [failureOf, hx, Option.some.injEq] at h
    subst h
    exact .guard cause hx hg
  | _ => cases he

theorem Workflow.discarded_of_failureOf {w : Workflow} {now : Moment} {e : EngineError}
    (he : e.RaisedIn w) (h : w.failureOf now e = none) :
    ∃ c, e = .workflow c ∧ ∀ n visits max, c ≠ .visitLimit n visits max := by
  cases e with
  | workflow c =>
    refine ⟨c, rfl, ?_⟩
    rintro n visits max rfl
    cases h
  | action => cases h
  | guard => cases h
  | _ => cases he

namespace Engine

variable {γ : Type} {config : Config} {inv : Invoker (Engine γ)} {now : Moment} {w : Workflow}
  {actor : Option String} {i j : Instance} {g g' : Engine γ}

def refusal? (config : Config) (i : Instance) (g : Engine γ) : Option EngineError :=
  match g.outage? .loadWorkflow with
  | some reason => some (.store (.backend reason))
  | none =>
      match g.store.workflow? i.workflow with
      | none => some (.noWorkflow i.workflow)
      | some _ =>
          match g.leases.acquire? config.lockPolicy i.id with
          | none => some (.busy i.id)
          | some _ => (g.outage? .loadInstance).map fun reason => .store (.backend reason)

def base (g : Engine γ) (i : Instance) : Instance := i.refreshed (g.store.load? i.id)

inductive Fault where
  | refused
  | discarded
  | recorded
deriving DecidableEq, Repr

def FailsBy (config : Config) (now : Moment) (i : Instance) (g : Engine γ) (e : EngineError)
    (j : Instance) (g' : Engine γ) : Fault → Prop
  | .refused => g.refusal? config i = some e ∧ j = i ∧ g'.store = g.store
  | .discarded =>
      g.refusal? config i = none ∧
        ((∃ c, e = .store c ∧ (g.call .commit (·.commit (g.base i))).1 = .error c) ∨
          ∃ c, e = .workflow c ∧ ∀ n visits max, c ≠ .visitLimit n visits max) ∧
        j = g.base i ∧ g'.store = g.store
  | .recorded =>
      g.refusal? config i = none ∧
        ∃ w f v, g.store.workflow? i.workflow = some w ∧ f.Blames w now e ∧
          (g.base i).version.next? = some v ∧ j = { g.base i with
            status := .failed
            failure := some f
            completed := some f.moment
            updated := f.moment
            version := v } ∧
          g.store.Wrote j g'.store

theorem commit_error_of_base {k : Instance} {c : StoreError} (hid : k.id = i.id)
    (hslot : k.slot = i.slot) (hv : k.version = i.version) (hh : g'.host = g.host)
    (h : (g'.call .commit (·.commit k)).1 = .error c) :
    (g.call .commit (·.commit i)).1 = .error c := by
  have hout := outage_eq_of_host hh .commit
  cases ho : g.outage? .commit with
  | some reason =>
    rw [call_of_outage ho]
    rw [call_of_outage (hout.trans ho)] at h
    exact h
  | none =>
    rw [call_of_clear ho]
    rw [call_of_clear (hout.trans ho), store_eq_of_host hh] at h
    rw [← h, Store.commit_answer_congr hid hslot hv]

theorem perform_cases (hinv : inv.Detached) {r : Except EngineError Report}
    (h : perform config inv now w actor i g = (r, j, g')) :
    (∃ rep k v, r = .ok rep ∧ i.Evolves k ∧ i.version.next? = some v ∧
        j = { k with version := v } ∧ g.store.Wrote j g'.store) ∨
      (∃ c, r = .error (.store c) ∧ (g.call .commit (·.commit i)).1 = .error c ∧ j = i ∧
        g'.store = g.store) ∨
      (∃ e, r = .error e ∧ e.RaisedIn w ∧ w.failureOf now e = none ∧ j = i ∧
        g'.store = g.store) ∨
      ∃ e f v, r = .error e ∧ e.RaisedIn w ∧ w.failureOf now e = some f ∧
        i.version.next? = some v ∧ j = { i.fail f with version := v } ∧
        g.store.Wrote j g'.store := by
  simp only [perform] at h
  rcases ha : w.advance inv config.options now actor (i.setRunning now) g with ⟨ra, k, g₁⟩
  obtain ⟨hev, hhost, herr⟩ := Workflow.advance_conduct (hinv g.host) ha
  have hk := (i.evolves_setRunning now).trans hev
  have hh : g₁.host = g.host := hhost rfl
  have hstore := store_eq_of_host hh
  have hslot : k.slot = i.slot := by rw [Instance.slot, hk.workflow, hk.target, Instance.slot]
  rw [ha] at h
  cases ra with
  | ok rep =>
    rcases hs : settle k i.snapshot g₁ with ⟨rs, m, g₂⟩
    simp only [hs] at h
    rcases settle_cases hs with ⟨v, rfl, hc, rfl⟩ | ⟨c, rfl, hc, rfl, hst⟩
    · obtain ⟨hv, hw, -⟩ := Store.commit_ok hc
      have happly := store_eq_of_host
        (host_applyContext hinv w actor { k with version := v } rep g₂)
      cases h
      rw [happly, ← hstore]
      rw [hk.version] at hv
      exact .inl ⟨rep, k, v, rfl, hk, hv, rfl, hw⟩
    · cases h
      refine .inr (.inl ⟨c, rfl, ?_, Instance.restore_snapshot hk, hst.trans hstore⟩)
      exact commit_error_of_base hk.id hslot hk.version hh hc
  | error e =>
    have hback : k.restore i.snapshot = i := Instance.restore_snapshot hk
    have hraised := herr e rfl
    simp only [hback] at h
    cases hf : w.failureOf now e with
    | none =>
      simp only [hf] at h
      cases h
      exact .inr (.inr (.inl ⟨e, rfl, hraised, hf, rfl, hstore⟩))
    | some f =>
      simp only [hf] at h
      rcases hs : settle (i.fail f) i.snapshot g₁ with ⟨rs, m, g₂⟩
      rw [hs] at h
      rcases settle_cases hs with ⟨v, rfl, hc, rfl⟩ | ⟨c, rfl, hc, rfl, hst⟩
      · obtain ⟨hv, hw, -⟩ := Store.commit_ok hc
        cases h
        rw [← hstore]
        exact .inr (.inr (.inr ⟨e, f, v, rfl, hraised, hf, hv, rfl, hw⟩))
      · cases h
        refine .inr (.inl ⟨c, rfl, ?_, Instance.restore_fail i f, hst.trans hstore⟩)
        exact commit_error_of_base (k := i.fail f) rfl rfl rfl hh hc

theorem runHeld_cases {r : Except EngineError Report}
    (h : runHeld config inv now w actor i g = (r, j, g')) :
    (∃ reason, g.outage? .loadInstance = some reason ∧ r = .error (.store (.backend reason)) ∧
        j = i ∧ g'.store = g.store) ∨
      (g.outage? .loadInstance = none ∧ (g.base i).isTerminal = true ∧
        r = .ok (.unchanged (g.base i)) ∧ j = g.base i ∧ g'.store = g.store) ∨
      (g.outage? .loadInstance = none ∧ (g.base i).isTerminal = false ∧
        perform config inv now w actor (g.base i) (g.spend .loadInstance) = (r, j, g')) := by
  rw [runHeld] at h
  cases ho : g.outage? .loadInstance with
  | some reason =>
    rw [read, call_of_outage ho] at h
    cases h
    exact .inl ⟨reason, rfl, rfl, rfl, rfl⟩
  | none =>
    rw [read_of_clear ho] at h
    have hb : i.refreshed (g.store.load? i.id) = g.base i := rfl
    refine .inr ?_
    simp only [hb] at h
    cases ht : (g.base i).isTerminal with
    | true =>
      rw [ht, if_pos rfl] at h
      cases h
      exact .inl ⟨rfl, rfl, rfl, rfl, rfl⟩
    | false =>
      rw [ht, if_neg Bool.false_ne_true] at h
      exact .inr ⟨rfl, rfl, h⟩

theorem run_cases {r : Except EngineError Report}
    (h : run config inv now actor i g = (r, j, g')) :
    (i.isTerminal = true ∧ r = .ok (.unchanged i) ∧ j = i ∧ g'.store = g.store) ∨
      (i.isTerminal = false ∧ ∃ e, g.refusal? config i = some e ∧ r = .error e ∧ j = i ∧
        g'.store = g.store) ∨
      (i.isTerminal = false ∧ g.refusal? config i = none ∧ (g.base i).isTerminal = true ∧
        r = .ok (.unchanged (g.base i)) ∧ j = g.base i ∧ g'.store = g.store) ∨
      (i.isTerminal = false ∧ g.refusal? config i = none ∧ (g.base i).isTerminal = false ∧
        ∃ w g₁ g₂, g.store.workflow? i.workflow = some w ∧
          perform config inv now w actor (g.base i) g₁ = (r, j, g₂) ∧ g₁.store = g.store ∧
          g₁.outage? .commit = g.outage? .commit ∧ g'.store = g₂.store) := by
  rw [run] at h
  cases hi : i.isTerminal with
  | true =>
    rw [hi, if_pos rfl] at h
    cases h
    exact .inl ⟨rfl, rfl, rfl, rfl⟩
  | false =>
    rw [hi, if_neg Bool.false_ne_true, workflow] at h
    refine .inr ?_
    cases ho : g.outage? .loadWorkflow with
    | some reason =>
      rw [read, call_of_outage ho] at h
      cases h
      exact .inl ⟨rfl, _, by simp [refusal?, ho], rfl, rfl, rfl⟩
    | none =>
      rw [read_of_clear ho] at h
      cases hw : g.store.workflow? i.workflow with
      | none =>
        simp only [hw] at h
        cases h
        exact .inl ⟨rfl, _, by simp [refusal?, ho, hw], rfl, rfl, rfl⟩
      | some w =>
        simp only [hw, leases_spend] at h
        cases hl : g.leases.acquire? config.lockPolicy i.id with
        | none =>
          simp only [hl] at h
          cases h
          exact .inl ⟨rfl, _, by simp [refusal?, ho, hw, hl], rfl, rfl, rfl⟩
        | some leases =>
          simp only [hl] at h
          rcases hr : runHeld config inv now w actor i { g.spend .loadWorkflow with leases } with
            ⟨r', j', g₂⟩
          rw [hr] at h
          cases h
          have hload : Engine.outage? { g.spend .loadWorkflow with leases } .loadInstance =
              g.outage? .loadInstance :=
            outage_spend (c := .loadWorkflow) (d := .loadInstance) g (by decide)
          rcases runHeld_cases hr with ⟨reason, hout, rfl, rfl, hs⟩ | ⟨hout, ht, rfl, rfl, hs⟩ |
            ⟨hout, ht, hp⟩
          · rw [hload] at hout
            exact .inl ⟨rfl, _, by simp [refusal?, ho, hw, hl, hout], rfl, rfl, hs⟩
          · rw [hload] at hout
            exact .inr (.inl ⟨rfl, by simp [refusal?, ho, hw, hl, hout], ht, rfl, rfl, hs⟩)
          · rw [hload] at hout
            have hc := outage_spend (c := .loadWorkflow) (d := .commit) g (by decide)
            have hc' := outage_spend (c := .loadInstance) (d := .commit)
              { g.spend .loadWorkflow with leases } (by decide)
            exact .inr (.inr ⟨rfl, by simp [refusal?, ho, hw, hl, hout], ht, w, _, g₂, rfl, hp,
              rfl, hc'.trans hc, rfl⟩)

theorem not_blames_of_discarded {f : Failure} {e : EngineError}
    (h : (∃ c, e = .store c ∧ (g.call .commit (·.commit (g.base i))).1 = .error c) ∨
      ∃ c, e = .workflow c ∧ ∀ n visits max, c ≠ .visitLimit n visits max) :
    ¬ f.Blames w now e := by
  rintro hf
  rcases h with ⟨c, rfl, -⟩ | ⟨c, rfl, hc⟩
  · cases hf
  · cases hf
    exact hc _ _ _ rfl

theorem failsBy_unique {e : EngineError} {a b : Fault} (ha : FailsBy config now i g e j g' a)
    (hb : FailsBy config now i g e j g' b) : a = b := by
  have refused (h : g.refusal? config i = some e) : g.refusal? config i ≠ none := by simp [h]
  cases a with
  | refused =>
    cases b with
    | refused => rfl
    | discarded => exact absurd hb.1 (refused ha.1)
    | recorded => exact absurd hb.1 (refused ha.1)
  | discarded =>
    cases b with
    | refused => exact absurd ha.1 (refused hb.1)
    | discarded => rfl
    | recorded =>
      obtain ⟨-, w, f, v, -, hf, -⟩ := hb
      exact absurd hf (not_blames_of_discarded ha.2.1)
  | recorded =>
    cases b with
    | refused => exact absurd ha.1 (refused hb.1)
    | discarded =>
      obtain ⟨-, w, f, v, -, hf, -⟩ := ha
      exact absurd hf (not_blames_of_discarded hb.2.1)
    | recorded => rfl

theorem call_answer_congr {α : Type} {g₁ : Engine γ} {c : StoreCall} (hs : g₁.store = g.store)
    (ho : g₁.outage? c = g.outage? c) (use : Store → Except StoreError α × Store) :
    (g₁.call c use).1 = (g.call c use).1 := by
  cases h : g.outage? c with
  | some reason => rw [call_of_outage h, call_of_outage (ho.trans h)]
  | none => rw [call_of_clear h, call_of_clear (ho.trans h), hs]

theorem perform_failsBy (hinv : inv.Detached) {g₁ g₂ : Engine γ} {e : EngineError}
    (hr : g.refusal? config i = none) (hw : g.store.workflow? i.workflow = some w)
    (hp : perform config inv now w actor (g.base i) g₁ = (.error e, j, g₂))
    (hs : g₁.store = g.store) (ho : g₁.outage? .commit = g.outage? .commit)
    (hs' : g'.store = g₂.store) : ∃ k, FailsBy config now i g e j g' k := by
  rcases perform_cases hinv hp with ⟨rep, k, v, hok, -⟩ | ⟨c, he, hc, rfl, hst⟩ |
    ⟨e', he, hraised, hf, rfl, hst⟩ | ⟨e', f, v, he, hraised, hf, hv, rfl, hwr⟩
  · cases hok
  · cases he
    refine ⟨.discarded, hr, .inl ⟨c, rfl, ?_⟩, rfl, hs'.trans (hst.trans hs)⟩
    rw [← hc]
    exact (call_answer_congr hs ho _).symm
  · cases he
    exact ⟨.discarded, hr, .inr (Workflow.discarded_of_failureOf hraised hf), rfl,
      hs'.trans (hst.trans hs)⟩
  · cases he
    rw [hs, ← hs'] at hwr
    exact ⟨.recorded, hr, w, f, v, hw, Workflow.blames_of_failureOf hraised hf, hv, rfl, hwr⟩

theorem run_atomic (hinv : inv.Detached) {r : Except EngineError Report}
    (h : run config inv now actor i g = (r, j, g')) :
    (∀ e, r = .error e → ∃! k, FailsBy config now i g e j g' k) ∧
      ∀ rep, r = .ok rep →
        (i.isTerminal = true ∧ j = i ∧ g'.store = g.store) ∨
          (i.isTerminal = false ∧ (g.base i).isTerminal = true ∧ j = g.base i ∧
            g'.store = g.store) ∨
          (i.isTerminal = false ∧ (g.base i).isTerminal = false ∧
            ∃ k v, (g.base i).Evolves k ∧ (g.base i).version.next? = some v ∧
              j = { k with version := v } ∧ g.store.Wrote j g'.store) := by
  constructor
  · rintro e rfl
    have hex : ∃ k, FailsBy config now i g e j g' k := by
      rcases run_cases h with ⟨-, he, -⟩ | ⟨-, e', hr, he, hj, hst⟩ | ⟨-, -, -, he, -⟩ |
        ⟨-, hr, -, w, g₁, g₂, hw, hp, hs, ho, hs'⟩
      · cases he
      · cases he
        exact ⟨.refused, hr, hj, hst⟩
      · cases he
      · exact perform_failsBy hinv hr hw hp hs ho hs'
    obtain ⟨k, hk⟩ := hex
    exact ⟨k, hk, fun k' hk' => failsBy_unique hk' hk⟩
  · rintro rep rfl
    rcases run_cases h with ⟨hi, -, hj, hst⟩ | ⟨-, e, -, he, -⟩ | ⟨hi, -, hb, -, hj, hst⟩ |
      ⟨hi, -, hb, w, g₁, g₂, -, hp, hs, -, hs'⟩
    · exact .inl ⟨hi, hj, hst⟩
    · cases he
    · exact .inr (.inl ⟨hi, hb, hj, hst⟩)
    · rcases perform_cases hinv hp with ⟨rep', k, v, -, hk, hv, hj, hwr⟩ | ⟨c, he, -⟩ |
        ⟨e, he, -⟩ | ⟨e, f, v, he, -⟩
      · rw [hs, ← hs'] at hwr
        exact .inr (.inr ⟨hi, hb, k, v, hk, hv, hj, hwr⟩)
      · cases he
      · cases he
      · cases he

theorem perform_of_error {r : Except EngineError Report} {e : EngineError} {f : Failure}
    (ha : (w.advance inv config.options now actor (i.setRunning now) g).1 = .error e)
    (hf : w.failureOf now e = some f) (h : perform config inv now w actor i g = (r, j, g')) :
    r = .error e ∨ ∃ c, r = .error (.store c) := by
  simp only [perform] at h
  rcases hr : w.advance inv config.options now actor (i.setRunning now) g with ⟨ra, k, g₁⟩
  rw [hr] at ha h
  obtain rfl : ra = .error e := ha
  simp only [hf] at h
  rcases hs : settle ((k.restore i.snapshot).fail f) i.snapshot g₁ with ⟨rs, m, g₂⟩
  rw [hs] at h
  rcases settle_cases hs with ⟨v, rfl, -⟩ | ⟨c, rfl, -⟩ <;> cases h
  · exact .inl rfl
  · exact .inr ⟨c, rfl⟩

theorem run_records (hinv : inv.Detached) {r : Except EngineError Report} {e : EngineError}
    {f : Failure} (h : run config inv now actor i g = (r, j, g')) (hi : i.isTerminal = false)
    (hrefusal : g.refusal? config i = none) (hb : (g.base i).isTerminal = false)
    (hw : g.store.workflow? i.workflow = some w)
    (hcommit : (g.call .commit (·.commit (g.base i))).1.isOk = true)
    (ha : ∀ g₁, (w.advance inv config.options now actor ((g.base i).setRunning now) g₁).1 =
      .error e) (hf : w.failureOf now e = some f) :
    r = .error e ∧ FailsBy config now i g e j g' .recorded := by
  rcases run_cases h with ⟨ht, -⟩ | ⟨-, e', hr, -⟩ | ⟨-, -, ht, -⟩ |
    ⟨-, -, -, w', g₁, g₂, hw', hp, hs, ho, hs'⟩
  · rw [hi] at ht
    cases ht
  · rw [hrefusal] at hr
    cases hr
  · rw [hb] at ht
    cases ht
  obtain rfl : w = w' := Option.some.inj (hw.symm.trans hw')
  have hans := perform_of_error (ha g₁) hf hp
  rcases perform_cases hinv hp with ⟨rep, k, v, rfl, -⟩ | ⟨c, rfl, hc, -⟩ |
    ⟨e', rfl, hraised, hf', -⟩ | ⟨e', f', v, rfl, hraised, hf', hv, rfl, hwr⟩
  · rcases hans with hans | ⟨c, hans⟩ <;> cases hans
  · rw [← call_answer_congr hs ho, hc] at hcommit
    cases hcommit
  · rcases hans with hans | ⟨c, hans⟩ <;> cases hans
    · rw [hf] at hf'
      cases hf'
    · cases hraised
  · rcases hans with hans | ⟨c, hans⟩ <;> cases hans
    · rw [hs, ← hs'] at hwr
      exact ⟨rfl, hrefusal, w, f', v, hw, Workflow.blames_of_failureOf hraised hf', hv, rfl, hwr⟩
    · cases hraised

def working : Engine Unit :=
  { new () with store := Store.empty.saveWorkflow Workflow.diamond }

def failing : Engine Unit :=
  { working with outages := fun c => if c = .commit then [some "down"] else [] }

def refusing : Invoker (Engine Unit) :=
  (Workflow.steady (.error (.failed "refused"))).onGuest

theorem run_atomic_diamond :
    (∃ e j g', run {} (Workflow.steady (.ok .null)).onGuest Workflow.diamondStart.created none
        Workflow.diamondStart failing = (.error e, j, g') ∧ j.status = .pending ∧
      ∃! k, FailsBy {} Workflow.diamondStart.created Workflow.diamondStart failing e j g' k) ∧
    ∃ e j g', run {} refusing Workflow.diamondStart.created none Workflow.diamondStart working =
        (.error e, j, g') ∧
      FailsBy {} Workflow.diamondStart.created Workflow.diamondStart working e j g' .recorded ∧
      ∃! k, FailsBy {} Workflow.diamondStart.created Workflow.diamondStart working e j g' k := by
  constructor
  · rcases h : run {} (Workflow.steady (.ok .null)).onGuest Workflow.diamondStart.created none
      Workflow.diamondStart failing with ⟨r, j, g'⟩
    have hr : (run {} (Workflow.steady (.ok .null)).onGuest Workflow.diamondStart.created none
        Workflow.diamondStart failing).1.isOk = false := by cbv
    have hs : (run {} (Workflow.steady (.ok .null)).onGuest Workflow.diamondStart.created none
        Workflow.diamondStart failing).2.1.status = .pending := by cbv
    rw [h] at hr hs
    rcases r with e | rep
    · exact ⟨e, j, g', rfl, hs, (run_atomic (Invoker.onGuest_detached _) h).1 e rfl⟩
    · cases hr
  · rcases h : run {} refusing Workflow.diamondStart.created none Workflow.diamondStart working
      with ⟨r, j, g'⟩
    have hdetached : refusing.Detached := Invoker.onGuest_detached _
    have hw : working.store.workflow? Workflow.diamondStart.workflow = some Workflow.diamond := by
      cbv
    obtain ⟨rfl, hrecorded⟩ := run_records hdetached h (by cbv) rfl (by cbv) hw (by cbv)
      (e := .action "b" "notify" (.failed "refused")) (fun g₁ => by cbv) rfl
    exact ⟨_, j, g', rfl, hrecorded, (run_atomic hdetached h).1 _ rfl⟩

end Engine

end Flowgraph
