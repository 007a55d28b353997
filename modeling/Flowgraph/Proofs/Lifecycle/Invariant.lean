import Flowgraph.Proofs.Lifecycle.Ledger
import Flowgraph.Proofs.Run.Atomicity
import Flowgraph.Proofs.System.Changes
import Mathlib

namespace Flowgraph

variable {γ : Type}

structure Invoker.Safe (inv : Invoker (Engine (Desk γ))) : Prop where
  guard : ∀ e site g, Engine.Safe g (inv.guard e site g).2
  action : ∀ key site g, Engine.Safe g (inv.action key site g).2
  apply : ∀ fields site g, Engine.Safe g (inv.apply fields site g)

namespace Engine

variable {config : Config} {inv : Invoker (Engine (Desk γ))} {now : Moment} {w : Workflow}
  {actor : Option String} {L L' : Ledger} {g g' : Engine (Desk γ)} {i j base : Instance}

structure Quiet (g g' : Engine (Desk γ)) : Prop where
  store : g'.store = g.store
  guest : g'.guest = g.guest
  supply : g'.supply = g.supply

theorem Quiet.aside (h : Quiet g g') : Aside g g' :=
  ⟨⟨congrArg Desk.handles h.guest, congrArg Supply.draw h.supply,
    Nat.le_of_eq (congrArg Supply.drawn h.supply.symm)⟩, h.store⟩

theorem sameDesk_call {α : Type} (g : Engine (Desk γ)) (c : StoreCall)
    (use : Store → Except StoreError α × Store) : SameDesk g (g.call c use).2 := by
  rw [call]
  split <;> exact ⟨rfl, rfl, Nat.le_refl _⟩

theorem quiet_read {α : Type} (g : Engine (Desk γ)) (c : StoreCall) (look : Store → α) :
    Quiet g (g.read c look).2 := by
  rw [read, call]
  split
  · exact ⟨rfl, rfl, rfl⟩
  · exact ⟨rfl, rfl, rfl⟩

theorem quiet_workflow (g : Engine (Desk γ)) (id : WorkflowId) : Quiet g (g.workflow id).2 := by
  have hread := quiet_read g .loadWorkflow (·.workflow? id)
  rw [workflow]
  rcases hr : g.read .loadWorkflow (·.workflow? id) with ⟨e | _ | w, g'⟩ <;> rw [hr] at hread
  · exact hread
  · exact hread
  · exact hread

theorem quiet_loadInstance (g : Engine (Desk γ)) (id : InstanceId) :
    Quiet g (g.loadInstance id).2 := by
  have hread := quiet_read g .loadInstance (·.load? id)
  rw [loadInstance]
  rcases hr : g.read .loadInstance (·.load? id) with ⟨e | _ | i, g'⟩ <;> rw [hr] at hread
  · exact hread
  · exact hread
  · exact hread

theorem sameDesk_settle (i : Instance) (back : Snapshot) (g : Engine (Desk γ)) :
    SameDesk g (settle i back g).2.2 := by
  have hcall := sameDesk_call g .commit (·.commit i)
  rw [settle]
  rcases hr : g.call .commit (·.commit i) with ⟨e | v, g'⟩ <;> rw [hr] at hcall
  · exact hcall
  · exact hcall

theorem keeps_of_safe (hinv : inv.Safe) (L : Ledger) (g : Engine (Desk γ)) :
    inv.Keeps fun x => ∃ L', Leads L g L' x := by
  have hstep : ∀ {x y : Engine (Desk γ)}, Safe x y → (∃ L', Leads L g L' x) →
      ∃ L', Leads L g L' y := by
    rintro x y hsafe ⟨L₁, h₁⟩
    obtain ⟨L₂, h₂⟩ := hsafe L₁ h₁.settled
    exact ⟨L₂, h₁.trans h₂⟩
  exact ⟨fun e site x => hstep (hinv.guard e site x), fun key site x =>
    hstep (hinv.action key site x), fun fields site x => hstep (hinv.apply fields site x)⟩

theorem safe_applyContext (hinv : inv.Safe) (w : Workflow) (actor : Option String) (i : Instance)
    (r : Report) (g : Engine (Desk γ)) : Safe g (applyContext inv w actor i r g) := by
  rw [applyContext]
  split
  · exact fun L h => ⟨L, .refl h⟩
  · exact hinv.apply _ _ _

theorem settle_leads (h : Settled L g) (hb : base.Sound L) (hopen : base.isTerminal = false)
    (hsame : i.id = base.id ∧ i.slot = base.slot ∧ i.version = base.version) (hi : i.Proper)
    (hback : i.restore base.snapshot = base) {r : Except EngineError Unit}
    (hs : settle i base.snapshot g = (r, j, g')) : ∃ L', Leads L g L' g' ∧ j.Sound L' := by
  have hd := sameDesk_settle i base.snapshot g
  rw [hs] at hd
  rcases settle_cases hs with ⟨v, -, hc, rfl⟩ | ⟨c, -, -, rfl, hst⟩
  · exact h.commit hb hopen hsame hi hd hc
  · rw [hback]
    exact ⟨L, h.aside ⟨hd, hst⟩, hb⟩

theorem perform_leads (hinv : inv.Safe) (h : Settled L g) (hb : base.Sound L)
    (hopen : base.isTerminal = false) {r : Except EngineError Report}
    (hp : perform config inv now w actor base g = (r, j, g')) :
    ∃ L', Leads L g L' g' ∧ j.Sound L' := by
  simp only [perform] at hp
  rcases ha : w.advance inv config.options now actor (base.setRunning now) g with ⟨ra, k, g₁⟩
  have hev : base.Evolves k := Workflow.advance_evolves ha
  obtain ⟨-, hworld, -⟩ := Workflow.advance_conduct (keeps_of_safe hinv L g) ha
  obtain ⟨L₁, h₁⟩ := hworld ⟨L, .refl h⟩
  have hb₁ := hb.mono h₁.grows
  have hback : k.restore base.snapshot = base := Instance.restore_snapshot hev
  rw [ha] at hp
  cases ra with
  | ok rep =>
    have hslot : k.slot = base.slot := by
      rw [Instance.slot, hev.workflow, hev.target, Instance.slot]
    have hends : base.Ends now k := by
      cases Workflow.advance_ends ha with
      | completed status moment pending => exact .completed status moment pending
      | waiting status moment => exact .waiting status moment
    have hk : k.Proper := hb.proper.ends hopen hev.failure hends
    rcases hs : settle k base.snapshot g₁ with ⟨rs, m, g₂⟩
    obtain ⟨L₂, h₂, hm⟩ :=
      settle_leads h₁.settled hb₁ hopen ⟨hev.id, hslot, hev.version⟩ hk hback hs
    simp only [hs] at hp
    cases rs with
    | error e =>
      cases hp
      exact ⟨L₂, h₁.trans h₂, hm⟩
    | ok =>
      obtain ⟨L₃, h₃⟩ := safe_applyContext hinv w actor m rep g₂ L₂ h₂.settled
      cases hp
      exact ⟨L₃, (h₁.trans h₂).trans h₃, hm.mono h₃.grows⟩
  | error e =>
    simp only [hback] at hp
    cases hf : w.failureOf now e with
    | none =>
      simp only [hf] at hp
      cases hp
      exact ⟨L₁, h₁, hb₁⟩
    | some f =>
      simp only [hf] at hp
      rcases hs : settle (base.fail f) base.snapshot g₁ with ⟨rs, m, g₂⟩
      obtain ⟨L₂, h₂, hm⟩ := settle_leads (i := base.fail f) h₁.settled hb₁ hopen
        ⟨rfl, rfl, rfl⟩ (.fail base f) (Instance.restore_fail base f) hs
      simp only [hs] at hp
      cases rs <;> cases hp <;> exact ⟨L₂, h₁.trans h₂, hm⟩

theorem sound_refreshed (h : Settled L g) (hi : i.Sound L) (id : InstanceId) :
    (i.refreshed (g.store.load? id)).Sound L := by
  cases hl : g.store.load? id with
  | none => exact hi
  | some stored =>
    rw [Instance.refreshed]
    split
    · exact h.sound_of_stored hl
    · exact hi

theorem runHeld_leads (hinv : inv.Safe) (h : Settled L g) (hi : i.Sound L)
    {r : Except EngineError Report} (hr : runHeld config inv now w actor i g = (r, j, g')) :
    ∃ L', Leads L g L' g' ∧ j.Sound L' := by
  have hread := (quiet_read g .loadInstance (·.load? i.id)).aside
  rw [runHeld] at hr
  rcases hl : g.read .loadInstance (·.load? i.id) with ⟨e | stored, g₁⟩ <;> rw [hl] at hr hread
  · cases hr
    exact ⟨L, h.aside hread, hi⟩
  · have h₁ : Leads L g L g₁ := h.aside hread
    have hb : (i.refreshed stored).Sound L := by
      rw [(read_ok hl).1]
      exact sound_refreshed h hi i.id
    simp only at hr
    split at hr
    case isTrue =>
      cases hr
      exact ⟨L, h₁, hb⟩
    case isFalse hopen =>
      obtain ⟨L₂, h₂, hj⟩ := perform_leads hinv h₁.settled hb (Bool.eq_false_iff.2 hopen) hr
      exact ⟨L₂, h₁.trans h₂, hj⟩

theorem run_leads (hinv : inv.Safe) (h : Settled L g) (hi : i.Sound L)
    {r : Except EngineError Report} (hr : run config inv now actor i g = (r, j, g')) :
    ∃ L', Leads L g L' g' ∧ j.Sound L' := by
  rw [run] at hr
  split at hr
  case isTrue =>
    cases hr
    exact ⟨L, .refl h, hi⟩
  case isFalse =>
    have hwork := (quiet_workflow g i.workflow).aside
    rcases hw : g.workflow i.workflow with ⟨e | w, g₁⟩ <;> rw [hw] at hr hwork
    · cases hr
      exact ⟨L, h.aside hwork, hi⟩
    · have h₁ : Leads L g L g₁ := h.aside hwork
      simp only at hr
      split at hr
      case h_1 =>
        cases hr
        exact ⟨L, h₁, hi⟩
      case h_2 leases _ =>
        have hleased : Leads L g₁ L { g₁ with leases } :=
          h₁.settled.aside ⟨⟨rfl, rfl, Nat.le_refl _⟩, rfl⟩
        rcases hheld : runHeld config inv now w actor i { g₁ with leases } with ⟨r', j', g₂⟩
        rw [hheld] at hr
        cases hr
        obtain ⟨L₂, h₂, hj⟩ := runHeld_leads hinv hleased.settled hi hheld
        have hreleased : Leads L₂ g₂ L₂ { g₂ with leases := g₂.leases.release i.id } :=
          h₂.settled.aside ⟨⟨rfl, rfl, Nat.le_refl _⟩, rfl⟩
        exact ⟨L₂, ((h₁.trans hleased).trans h₂).trans hreleased, hj⟩

theorem instanceFor_leads (h : Settled L g) {target : Target} {r : Except EngineError Instance}
    (hr : g.instanceFor w target now = (r, g')) :
    ∃ L', Leads L g L' g' ∧ ∀ i, r = .ok i → i.Sound L' := by
  have hread := (quiet_read g .findInstance (·.find? w.id target)).aside
  rw [instanceFor] at hr
  rcases hf : g.read .findInstance (·.find? w.id target) with ⟨e | _ | i, g₁⟩ <;>
    rw [hf] at hr hread
  · cases hr
    exact ⟨L, h.aside hread, fun i hi => by cases hi⟩
  · have h₁ : Leads L g L g₁ := h.aside hread
    have hdraw := h₁.settled.draw (w.id, target)
    have hcall := sameDesk_call g₁.drawId.2 .createInstance
      (·.create (.start w g₁.drawId.1 target now))
    simp only at hr
    rcases hc : g₁.drawId.2.call .createInstance (·.create (.start w g₁.drawId.1 target now)) with
      ⟨e | i, g₂⟩ <;> rw [hc] at hcall <;> simp only [hc] at hr <;> cases hr
    · have hsame := hdraw.settled.aside ⟨hcall, store_call_error Store.create_unchanged hc⟩
      exact ⟨_, (h₁.trans hdraw).trans hsame, fun i hi => by cases hi⟩
    · obtain ⟨L₂, h₂, hi⟩ := hdraw.settled.create (i := .start w g₁.drawId.1 target now)
        (Keyed.get?_insert_self ..) (.start w g₁.drawId.1 target now) hcall (call_ok hc)
      refine ⟨L₂, (h₁.trans hdraw).trans h₂, fun k hk => ?_⟩
      cases hk
      exact hi
  · cases hr
    obtain ⟨hfind, -⟩ := read_ok hf
    obtain ⟨id, -, hl⟩ := Option.bind_eq_some_iff.1 hfind.symm
    refine ⟨L, h.aside hread, fun k hk => ?_⟩
    cases hk
    exact h.sound_of_stored hl

theorem runFor_leads (hinv : inv.Safe) (h : Settled L g) {target : Target}
    {r : Except EngineError Instance} (hr : runFor config inv now w target g = (r, g')) :
    ∃ L', Leads L g L' g' ∧ ∀ i, r = .ok i → i.Sound L' := by
  rw [runFor] at hr
  rcases hf : g.instanceFor w target now with ⟨e | i, g₁⟩ <;> rw [hf] at hr <;>
    obtain ⟨L₁, h₁, hi⟩ := instanceFor_leads h hf
  · cases hr
    exact ⟨L₁, h₁, fun i hi => by cases hi⟩
  · simp only at hr
    rcases hrun : run config inv now none i g₁ with ⟨r', j, g₂⟩
    obtain ⟨L₂, h₂, hj⟩ := run_leads hinv h₁.settled (hi i rfl) hrun
    rw [hrun] at hr
    cases r' with
    | error e =>
      cases hr
      exact ⟨L₂, h₁.trans h₂, fun k hk => by cases hk⟩
    | ok =>
      cases hr
      refine ⟨L₂, h₁.trans h₂, fun k hk => ?_⟩
      cases hk
      exact hj

theorem workflowFor_leads (hinv : inv.Safe) (h : Settled L g) (target : Target) :
    ∃ L', Leads L g L' (workflowFor inv target g).2 := by
  have hread := (quiet_read g .workflowsForModel (·.workflowsFor target.model)).aside
  rw [workflowFor]
  rcases hr : g.read .workflowsForModel (·.workflowsFor target.model) with ⟨e | ws, g₁⟩ <;>
    rw [hr] at hread
  · exact ⟨L, h.aside hread⟩
  · exact keeps_selectFrom (keeps_of_safe hinv L g) target ws ⟨L, h.aside hread⟩

theorem runForEntity_leads (hinv : inv.Safe) (h : Settled L g) {id : WorkflowId}
    {target : Target} {r : Except EngineError Instance}
    (hr : runForEntity config inv now id target g = (r, g')) :
    ∃ L', Leads L g L' g' ∧ ∀ i, r = .ok i → i.Sound L' := by
  have hwork := (quiet_workflow g id).aside
  rw [runForEntity] at hr
  rcases hw : g.workflow id with ⟨e | w, g₁⟩ <;> rw [hw] at hr hwork
  · cases hr
    exact ⟨L, h.aside hwork, fun i hi => by cases hi⟩
  · have h₁ : Leads L g L g₁ := h.aside hwork
    simp only at hr
    split at hr
    case isTrue =>
      cases hr
      exact ⟨L, h₁, fun i hi => by cases hi⟩
    case isFalse =>
      obtain ⟨L₂, h₂, hi⟩ := runFor_leads hinv h₁.settled hr
      exact ⟨L₂, h₁.trans h₂, hi⟩

theorem runTarget_leads (hinv : inv.Safe) (h : Settled L g) {target : Target}
    {r : Except EngineError (Option Instance)}
    (hr : runTarget config inv now target g = (r, g')) :
    ∃ L', Leads L g L' g' ∧ ∀ i, r = .ok (some i) → i.Sound L' := by
  obtain ⟨L₁, h₁⟩ := workflowFor_leads hinv h target
  rw [runTarget] at hr
  rcases hw : workflowFor inv target g with ⟨e | _ | w, g₁⟩ <;> rw [hw] at hr h₁
  · cases hr
    exact ⟨L₁, h₁, fun i hi => by cases hi⟩
  · cases hr
    exact ⟨L₁, h₁, fun i hi => by cases hi⟩
  · simp only at hr
    rcases hf : runFor config inv now w target g₁ with ⟨e | j, g₂⟩ <;> rw [hf] at hr <;>
      obtain ⟨L₂, h₂, hj⟩ := runFor_leads hinv h₁.settled hf <;> cases hr
    · exact ⟨L₂, h₁.trans h₂, fun i hi => by cases hi⟩
    · refine ⟨L₂, h₁.trans h₂, fun i hi => ?_⟩
      cases hi
      exact hj j rfl

theorem serve_safe (hinv : inv.Safe) {request : Request}
    (hhonest : request.honest g.guest.handles = true) :
    Safe g (serve config inv now request g) := by
  intro L h
  cases request with
  | run actor i =>
    have hi : i.Sound L := h.handles i (List.contains_iff_mem.1 hhonest)
    rcases hr : run config inv now actor i g with ⟨r, j, g₁⟩
    obtain ⟨L₁, h₁, hj⟩ := run_leads hinv h hi hr
    rw [serve, hr]
    exact ⟨L₁, h₁.trans (h₁.settled.hand hj)⟩
  | runForEntity id target =>
    rcases hr : runForEntity config inv now id target g with ⟨e | i, g₁⟩ <;> rw [serve, hr] <;>
      obtain ⟨L₁, h₁, hi⟩ := runForEntity_leads hinv h hr
    · exact ⟨L₁, h₁⟩
    · exact ⟨L₁, h₁.trans (h₁.settled.hand (hi i rfl))⟩
  | runTarget target =>
    rcases hr : runTarget config inv now target g with ⟨e | _ | i, g₁⟩ <;> rw [serve, hr] <;>
      obtain ⟨L₁, h₁, hi⟩ := runTarget_leads hinv h hr
    · exact ⟨L₁, h₁⟩
    · exact ⟨L₁, h₁⟩
    · exact ⟨L₁, h₁.trans (h₁.settled.hand (hi i rfl))⟩

theorem safe_register (g : Engine (Desk γ)) (w : Workflow) : Safe g (g.register w).2 := by
  intro L h
  have hdesk : SameDesk g (g.register w).2 := by
    have hcall := sameDesk_call g .saveWorkflow fun s => (.ok (), s.saveWorkflow w)
    rw [register]
    rcases hr : g.call .saveWorkflow fun s => (.ok (), s.saveWorkflow w) with ⟨e | _, g'⟩ <;>
      rw [hr] at hcall <;> exact hcall
  have hrecalls := h.recalls.congr (g.load_register w) (g.slots_register w)
  exact ⟨L, .refl L, h.moved hdesk hrecalls, fun {id i} hl _ => (g.load_register w id).trans hl⟩

theorem safe_start (g : Engine (Desk γ)) (w : Workflow) (target : Target) (now : Moment) :
    Safe g (g.drawId.2.hand (.start w g.drawId.1 target now)) := by
  intro L h
  have hdraw := h.draw (w.id, target)
  refine ⟨_, hdraw.trans (hdraw.settled.hand ⟨⟨?_, fun hv => absurd rfl hv⟩, ?_⟩)⟩
  · exact Keyed.get?_insert_self ..
  · exact .start w _ target now

theorem Dealings.safe (h : Dealings g g') : Safe g g' := by
  induction h with
  | refl g => exact fun L h => ⟨L, .refl h⟩
  | trans _ _ ih ih' =>
    intro L h
    obtain ⟨L₁, h₁⟩ := ih L h
    obtain ⟨L₂, h₂⟩ := ih' L₁ h₁.settled
    exact ⟨L₂, h₁.trans h₂⟩
  | aside same => exact fun L h => ⟨L, h.aside same⟩
  | register g w => exact safe_register g w
  | start g w target now => exact safe_start g w target now
  | load stored => exact fun L h => ⟨L, h.hand (h.sound_of_stored stored)⟩
  | call honest _ _ _ ihguard ihaction ihapply =>
    exact serve_safe ⟨ihguard, ihaction, ihapply⟩ honest

theorem settled_new (state : γ) (supply : Supply) :
    Settled ⟨fun _ => [], .empty⟩ (Engine.new (⟨[], state⟩ : Desk γ) supply) where
  recalls := ⟨fun _ => rfl, fun _ => rfl, fun h => (by cases h), fun h => (by cases h)⟩
  drawn h := by cases h
  supply h := by cases h
  proper h := by cases h
  handles _ h := by cases h

theorem run_of_terminal (config : Config) (now : Moment) (actor : Option String)
    (h : (g.base i).isTerminal = true) :
    ∃ r j g', g'.store = g.store ∧ g'.guest = g.guest ∧
      ∀ inv : Invoker (Engine (Desk γ)), run config inv now actor i g = (r, j, g') := by
  by_cases ht : i.isTerminal = true
  · exact ⟨_, i, g, rfl, rfl, fun inv => by rw [run, if_pos ht]⟩
  have hwork := quiet_workflow g i.workflow
  rcases hw : g.workflow i.workflow with ⟨e | w, g₁⟩ <;> rw [hw] at hwork
  · exact ⟨.error e, i, g₁, hwork.store, hwork.guest, fun inv => by rw [run, if_neg ht, hw]⟩
  cases hl : g₁.leases.acquire? config.lockPolicy i.id with
  | none =>
    exact ⟨.error (.busy i.id), i, g₁, hwork.store, hwork.guest, fun inv => by
      simp only [run, if_neg ht, hw, hl]⟩
  | some leases =>
    have hread := quiet_read { g₁ with leases } .loadInstance (·.load? i.id)
    rcases hr : Engine.read { g₁ with leases } .loadInstance (·.load? i.id) with
      ⟨e | stored, g₂⟩ <;> rw [hr] at hread
    · exact ⟨.error (.store e), i, { g₂ with leases := g₂.leases.release i.id },
        hread.store.trans hwork.store, hread.guest.trans hwork.guest, fun inv => by
          simp only [run, if_neg ht, hw, hl, runHeld, hr]⟩
    · have hbase : i.refreshed stored = g.base i := by
        rw [(read_ok hr).1, base, ← hwork.store]
      exact ⟨.ok (.unchanged (g.base i)), g.base i,
        { g₂ with leases := g₂.leases.release i.id }, hread.store.trans hwork.store,
        hread.guest.trans hwork.guest, fun inv => by
          simp only [run, if_neg ht, hw, hl, runHeld, hr, hbase, if_pos h]⟩

theorem lifecycle {state : γ} {supply : Supply} (h : Dealings (Engine.new ⟨[], state⟩ supply) g) :
    (∀ id i, g.store.load? id = some i → i.Proper) ∧ (∀ i ∈ g.guest.handles, i.Proper) ∧
      (∀ g' id i, Dealings g g' → g.store.load? id = some i → i.isTerminal = true →
        g'.store.load? id = some i) ∧
      ∀ i ∈ g.guest.handles, (g.base i).isTerminal = true → ∀ config now actor,
        ∃ r j g', g'.store = g.store ∧ g'.guest = g.guest ∧
          ∀ inv : Invoker (Engine (Desk γ)), run config inv now actor i g = (r, j, g') := by
  obtain ⟨L, hL⟩ := h.safe _ (settled_new state supply)
  refine ⟨?_, ?_, ?_, ?_⟩
  · intro id i hl
    exact (hL.settled.sound_of_stored hl).proper
  · intro i hi
    exact (hL.settled.handles i hi).proper
  · intro g' id i hdeal hl ht
    obtain ⟨L', hL'⟩ := hdeal.safe L hL.settled
    exact hL'.frozen hl ht
  · intro i _ ht config now actor
    exact run_of_terminal config now actor ht

def curious : Invoker (Engine (Desk Unit)) where
  guard _ _ g := (.ok true, g)
  action _ _ g := (.ok .null, (g.loadInstance "1").2)
  apply _ _ g := g

def diamondNamed (id : InstanceId) : Instance :=
  .start Workflow.diamond id ⟨"order", "7"⟩ Workflow.diamondStart.created

def diamondBegun : Engine (Desk Unit) :=
  { (Engine.new ⟨[], ()⟩ |>.register Workflow.diamond).2 with supply := Supply.numbered.advance }

def diamondRun (id : InstanceId) : Engine (Desk Unit) :=
  serve {} curious Workflow.diamondStart.created (.run none (diamondNamed id))
    (diamondBegun.hand (diamondNamed id))

theorem diamondRun_statuses (id : InstanceId) :
    (diamondRun id).store.instances.values.map (·.status) = [.completed] := by cbv

theorem dealings_diamondRun : Dealings (Engine.new ⟨[], ()⟩) (diamondRun (freshId 0)) := by
  have hbegun : Dealings (Engine.new ⟨[], ()⟩) (diamondBegun.hand (diamondNamed (freshId 0))) :=
    (Dealings.register _ Workflow.diamond).trans (.start _ _ _ _)
  refine hbegun.trans (.call ?_ ?_ ?_ ?_)
  · exact List.contains_iff_mem.2 List.mem_cons_self
  · exact fun _ _ g => .refl g
  · exact fun _ _ g => .aside (quiet_loadInstance g "1").aside
  · exact fun _ _ g => .refl g

theorem lifecycle_diamond :
    ∃ id i, (diamondRun (freshId 0)).store.load? id = some i ∧ i.status = .completed ∧
      i.Proper ∧ ∀ w, ((diamondRun (freshId 0)).register w).2.store.load? id = some i := by
  obtain ⟨hproper, -, hfrozen, -⟩ := lifecycle dealings_diamondRun
  have hmem : Status.completed ∈
      (diamondRun (freshId 0)).store.instances.values.map (·.status) := by
    rw [diamondRun_statuses]
    exact List.mem_singleton_self _
  obtain ⟨i, hi, hdone⟩ := List.mem_map.1 hmem
  obtain ⟨id, hl⟩ := Keyed.mem_values_iff.1 hi
  refine ⟨id, i, hl, hdone, hproper id i hl, fun w => ?_⟩
  exact hfrozen _ id i (.register _ w) hl (Instance.isTerminal_iff.2 (.inl hdone))

end Engine

end Flowgraph
