import Flowgraph.Proofs.System.Turns

namespace Flowgraph

variable {γ : Type}

namespace Stage

def seeks? : Stage → Option (WorkflowId × Target)
  | finding w target => some (w.id, target)
  | creating w target => some (w.id, target)
  | _ => none

def Serves (P : WorkflowId × Target → Prop) (st : Store) : Stage → Prop
  | choosing target => ∀ w, P (w, target)
  | governing w target => P (w, target)
  | finding w target => P (w.id, target)
  | creating w target => P (w.id, target)
  | a => ∀ i, a.base? = some i → P i.slot ∧ st.slots.get? i.slot = some i.id

variable {P : WorkflowId × Target → Prop} {config : Config} {inv : Invoker (Engine γ)}
  {turn : Turn} {a b : Stage} {g g' : Engine γ} {st st' : Store} {i : Instance}

theorem Serves.base (h : a.Serves P st) (hi : a.base? = some i) :
    P i.slot ∧ st.slots.get? i.slot = some i.id := by
  cases a with
  | choosing => cases hi
  | governing => cases hi
  | finding => cases hi
  | creating => cases hi
  | _ => exact h i hi

theorem serves_of_base (hb : b.base? = some i) (hP : P i.slot)
    (hentry : st.slots.get? i.slot = some i.id) : b.Serves P st := by
  have hj : ∀ j, b.base? = some j → P j.slot ∧ st.slots.get? j.slot = some j.id := by
    intro j hj
    rw [hb] at hj
    cases hj
    exact ⟨hP, hentry⟩
  cases b with
  | choosing => cases hb
  | governing => cases hb
  | finding => cases hb
  | creating => cases hb
  | _ => exact hj

theorem serves_left (e : Option EngineError) : (left e).Serves P st := fun _ h => nomatch h

theorem Serves.mono (h : a.Serves P st)
    (hst : ∀ k id, st.slots.get? k = some id → st'.slots.get? k = some id) : a.Serves P st' := by
  cases a with
  | choosing => exact h
  | governing => exact h
  | finding => exact h
  | creating => exact h
  | _ => exact fun i hi => ⟨(h i hi).1, hst _ _ (h i hi).2⟩

theorem serves_of_seeks {k : WorkflowId × Target} (h : a.seeks? = some k) :
    a.Serves (· = k) st := by
  cases a with
  | finding => exact Option.some.inj h
  | creating => exact Option.some.inj h
  | _ => cases h

theorem next_base (h : next config inv turn a g = (b, g')) (ha : a.Computed config inv)
    (hi : a.base? = some i) :
    ∃ j, b.base? = some j ∧ (j.id = i.id ∧ j.slot = i.slot ∨ g.store.load? i.id = some j) := by
  cases a with
  | choosing => cases hi
  | governing => cases hi
  | finding => cases hi
  | creating => cases hi
  | left => cases hi
  | refreshing lease w actor i =>
    cases hi
    simp only [next] at h
    rcases hr : g.read .loadInstance (·.load? i.id) with ⟨e | stored, g₁⟩ <;> simp only [hr] at h
    · cases h
      exact ⟨i, rfl, .inl ⟨rfl, rfl⟩⟩
    · have hj : (i.refreshed stored).id = i.id ∧ (i.refreshed stored).slot = i.slot ∨
          g.store.load? i.id = some (i.refreshed stored) := by
        rw [(Engine.read_ok hr).1]
        cases g.store.load? i.id with
        | none => exact .inl ⟨rfl, rfl⟩
        | some k =>
          rw [Instance.refreshed]
          split
          · exact .inr rfl
          · exact .inl ⟨rfl, rfl⟩
      split at h <;> cases h
      · exact ⟨_, rfl, hj⟩
      · exact ⟨_, rfl, hj⟩
  | advancing lease w actor base =>
    cases hi
    rw [next] at h
    rcases hr : w.advance inv config.options turn.now actor (i.setRunning turn.now) g with
      ⟨e | r, k, g₁⟩ <;> simp only [hr] at h
    · rw [Instance.restore_snapshot (Workflow.advance_evolves hr)] at h
      split at h <;> cases h
      · exact ⟨_, rfl, .inl ⟨rfl, rfl⟩⟩
      · exact ⟨_, rfl, .inl ⟨rfl, rfl⟩⟩
    · cases h
      exact ⟨_, rfl, .inl ⟨rfl, rfl⟩⟩
  | committing lease w actor base k r =>
    cases hi
    obtain ⟨hid, hslot, -⟩ := Workflow.Derives.same ha
    simp only [next] at h
    rcases hr : Engine.settle k i.snapshot g with ⟨r₁, j, g₁⟩
    rw [hr] at h
    rcases Engine.settle_cases hr with ⟨v, rfl, hc, rfl⟩ | ⟨c, rfl, -, rfl, -⟩
    · cases r <;> cases h <;> exact ⟨_, rfl, .inl ⟨hid, hslot⟩⟩
    · cases h
      refine ⟨_, rfl, .inl ?_⟩
      rw [Workflow.Derives.restore ha]
      exact ⟨rfl, rfl⟩
  | _ =>
    cases hi
    simp only [next] at h
    repeat' split at h
    all_goals
      cases h
      exact ⟨_, rfl, .inl ⟨rfl, rfl⟩⟩

theorem Serves.next_of_base (h : a.Serves P g.store) (hn : next config inv turn a g = (b, g'))
    (ha : a.Computed config inv) (hst : g.store.Indexed) (hturns : g.store.Turns g'.store)
    (hi : a.base? = some i) : b.Serves P g'.store := by
  obtain ⟨hP, hentry⟩ := h.base hi
  obtain ⟨j, hb, ⟨hid, hslot⟩ | hl⟩ := next_base hn ha hi
  · refine serves_of_base hb (hslot ▸ hP) (hturns.entry ?_)
    rw [hslot, hid]
    exact hentry
  · obtain ⟨i', hl', hslot⟩ := (hst.entry_iff _ _).1 hentry
    rw [hl] at hl'
    cases hl'
    refine serves_of_base hb (hslot ▸ hP) (hturns.entry ?_)
    rw [hst.key _ _ hl, hslot]
    exact hentry

theorem Serves.next (h : a.Serves P g.store) (hn : next config inv turn a g = (b, g'))
    (ha : a.Computed config inv) (hst : g.store.Indexed) (hturns : g.store.Turns g'.store) :
    b.Serves P g'.store := by
  cases a with
  | choosing target =>
    simp only [Stage.next] at hn
    rcases hr : g.workflowFor inv target with ⟨e | _ | w, g₁⟩ <;> rw [hr] at hn <;> cases hn
    · exact serves_left _
    · exact serves_left _
    · exact h w.id
  | governing id target =>
    simp only [Stage.next] at hn
    rcases hr : g.workflow id with ⟨e | w, g₁⟩ <;> simp only [hr] at hn
    · cases hn
      exact serves_left _
    · split at hn <;> cases hn
      · exact serves_left _
      · have hid : w.id = id := hst.workflow_key id w (Engine.workflow_ok hr)
        rw [← hid] at h
        exact h
  | finding w target =>
    simp only [Stage.next] at hn
    rcases hr : g.read .findInstance (·.find? w.id target) with ⟨e | _ | i, g₁⟩ <;>
      rw [hr] at hn <;> cases hn
    · exact serves_left _
    · exact h
    · obtain ⟨id, hk, hl⟩ := Option.bind_eq_some_iff.1 (Engine.read_ok hr).1.symm
      obtain ⟨i', hl', hslot⟩ := (hst.entry_iff _ _).1 hk
      rw [hl] at hl'
      cases hl'
      refine serves_of_base rfl (hslot ▸ h) (hturns.entry ?_)
      rw [hslot, hst.key _ _ hl]
      exact hk
  | creating w target =>
    simp only [Stage.next] at hn
    rcases hr : g.skipId.call .createInstance (·.create (.start w turn.id target turn.now)) with
      ⟨e | i, g₁⟩ <;> rw [hr] at hn <;> cases hn
    · exact serves_left _
    · obtain ⟨hslot, hentry⟩ := hst.create (Engine.call_ok hr)
      exact serves_of_base rfl (hslot ▸ h) (hslot ▸ hentry)
  | left e =>
    cases hn
    exact serves_left e
  | _ => exact h.next_of_base hn ha hst hturns rfl

end Stage

def Request.isFor : Request → WorkflowId × Target → Prop
  | .run _ _, _ => False
  | .runForEntity w target, k => k = (w, target)
  | .runTarget target, k => k.2 = target

def Call.returned? (c : Call) : Option Instance :=
  match c.request, c.stage with
  | .run _ _, _ => none
  | _, .ended i (.ok _) => some i
  | _, _ => none

theorem Call.base?_of_returned {c : Call} {i : Instance} (h : c.returned? = some i) :
    c.stage.base? = some i ∧ ∀ actor j, c.request ≠ .run actor j := by
  obtain ⟨engine, request, stage⟩ := c
  cases request with
  | run => cases h
  | _ =>
    cases stage with
    | ended j r =>
      cases r with
      | error => cases h
      | ok =>
        cases h
        exact ⟨rfl, fun _ _ h => nomatch h⟩
    | _ => cases h

namespace System

variable {config : Nat → Config} {inv : Nat → Invoker γ} {H : Histories} {s : System γ}
  {P : WorkflowId × Target → Prop}

def Underway (config : Nat → Config) (inv : Nat → Invoker γ) (party : Nat) :
    System γ → List (Event γ) → Prop
  | _, [] => True
  | s, e :: es =>
      (∃ c, s.calls party = some c ∧ c.stage.isOver = false) ∧
        Underway config inv party (act config inv s e) es

def Sound (config : Nat → Config) (inv : Nat → Invoker γ) (s : System γ) : Prop :=
  (∃ H, Coherent config inv H s) ∧ s.world.store.Indexed

theorem Sound.act (h : Sound config inv s) (e : Event γ) :
    Sound config inv (act config inv s e) := by
  obtain ⟨⟨H, hc⟩, hst⟩ := h
  refine ⟨?_, (hc.turns e).indexed hst⟩
  rcases hc.act e with hc' | ⟨b, hc', -⟩
  · exact ⟨_, hc'⟩
  · exact ⟨_, hc'⟩

theorem Sound.run (h : Sound config inv s) (es : List (Event γ)) :
    Sound config inv (run config inv s es) := by
  induction es generalizing s with
  | nil => exact h
  | cons e es ih => exact ih (h.act e)

theorem sound_start (config : Nat → Config) (inv : Nat → Invoker γ) (outages : Outages)
    (guest : γ) : Sound config inv (start outages guest) :=
  ⟨⟨_, coherent_start outages guest⟩, Store.indexed_empty⟩

theorem Sound.entry_run (h : Sound config inv s) (es : List (Event γ)) {k : WorkflowId × Target}
    {id : InstanceId} (hk : s.world.store.slots.get? k = some id) :
    (System.run config inv s es).world.store.slots.get? k = some id := by
  induction es generalizing s with
  | nil => exact hk
  | cons e es ih =>
    obtain ⟨H, hc⟩ := h.1
    exact ih (h.act e) ((hc.turns e).entry hk)

theorem Sound.stored_run (h : Sound config inv s) (es : List (Event γ)) {id : InstanceId}
    {i : Instance} (hl : s.stored id = some i) :
    ∃ j, (System.run config inv s es).stored id = some j ∧ j.slot = i.slot := by
  induction es generalizing s i with
  | nil => exact ⟨i, hl, rfl⟩
  | cons e es ih =>
    obtain ⟨H, hc⟩ := h.1
    obtain ⟨j, hj, hslot⟩ := (hc.turns e).load hl
    obtain ⟨k, hk, hslot'⟩ := ih (h.act e) hj
    exact ⟨k, hk, hslot'.trans hslot⟩

theorem Sound.calls_act (h : Sound config inv s) {e : Event γ} {party : Nat} {d : Call}
    (hd : (System.act config inv s e).calls party = some d) :
    ((s.calls party).all (·.stage.isOver) = true ∧ d.stage = d.request.first) ∨
      ∃ c, s.calls party = some c ∧ d.request = c.request ∧
        ∀ P, c.stage.Serves P s.world.store →
          d.stage.Serves P (System.act config inv s e).world.store := by
  obtain ⟨⟨H, hc⟩, hst⟩ := h
  have hturns := hc.turns e
  have hkept : ∀ {c : Call}, s.calls party = some c → d = c →
      ∃ c, s.calls party = some c ∧ d.request = c.request ∧
        ∀ P, c.stage.Serves P s.world.store →
          d.stage.Serves P (System.act config inv s e).world.store := by
    rintro c hp rfl
    exact ⟨d, hp, rfl, fun P hP => hP.mono fun k id => hturns.entry⟩
  cases e with
  | call p engine request =>
    rw [System.act] at hd
    split at hd
    case isTrue hok =>
      simp only [Function.update_apply] at hd
      split at hd
      case isTrue e =>
        cases hd
        subst e
        exact .inl ⟨(Bool.and_eq_true_iff.1 hok).1, rfl⟩
      case isFalse => exact .inr (hkept hd rfl)
    case isFalse => exact .inr (hkept hd rfl)
  | step p turn =>
    rcases hc.act_step p turn with hs | ⟨c, drawn, hp, hdrawn, -, hs⟩
    · rw [hs] at hd
      exact .inr (hkept hd rfl)
    rcases hr : c.stage.next (config c.engine) (inv c.engine).onGuest turn
      (engine { s with drawn } c.engine) with ⟨b, g⟩
    have hworld : (System.act config inv s (.step p turn)).world = g := by
      rw [hs, stepCall, hr]
    rw [hs, stepCall, hr] at hd
    simp only [Function.update_apply] at hd
    split at hd
    case isTrue e =>
      cases hd
      subst e
      refine .inr ⟨c, hp, rfl, fun P hP => ?_⟩
      rw [hworld] at hturns ⊢
      exact Stage.Serves.next (g := engine { s with drawn } c.engine) hP hr (hc.computed hp) hst
        hturns
    case isFalse => exact .inr (hkept hd rfl)
  | _ =>
    rw [System.calls_act config inv s rfl] at hd
    exact .inr (hkept hd rfl)

theorem Sound.serves_run (h : Sound config inv s) {party : Nat} {es : List (Event γ)}
    (hu : Underway config inv party s es)
    (hs : ∀ c, s.calls party = some c → c.stage.Serves P s.world.store) :
    ∀ c, (System.run config inv s es).calls party = some c →
      c.stage.Serves P (System.run config inv s es).world.store := by
  induction es generalizing s with
  | nil => exact hs
  | cons e es ih =>
    obtain ⟨⟨c, hc, hgoing⟩, hrest⟩ := hu
    refine ih (h.act e) hrest fun d hd => ?_
    rcases h.calls_act hd with ⟨hover, -⟩ | ⟨c', hc', -, hserves⟩
    · rw [hc, Option.all_some, hgoing] at hover
      cases hover
    · exact hserves P (hs c' hc')

theorem serves_first {r : Request} (h : ∀ actor i, r ≠ .run actor i)
    (st : Store) : r.first.Serves r.isFor st := by
  cases r with
  | run actor i => exact absurd rfl (h actor i)
  | runForEntity w target => rfl
  | runTarget target => exact fun _ => rfl

theorem serves_run (outages : Outages) (guest : γ) (events : List (Event γ)) {party : Nat}
    {c : Call} (hc : (run config inv (start outages guest) events).calls party = some c)
    (hrun : ∀ actor i, c.request ≠ .run actor i) :
    c.stage.Serves c.request.isFor (run config inv (start outages guest) events).world.store := by
  induction events using List.reverseRecOn generalizing c with
  | nil => cases hc
  | append_singleton es e ih =>
    rw [run_concat] at hc ⊢
    have hsound := (sound_start config inv outages guest).run es
    rcases hsound.calls_act hc with ⟨-, hfirst⟩ | ⟨c', hc', hreq, hserves⟩
    · rw [hfirst]
      exact serves_first hrun _
    · rw [hreq] at hrun ⊢
      exact hserves _ (ih hc' hrun)

theorem one_instance_per_slot (config : Nat → Config) (inv : Nat → Invoker γ) (outages : Outages)
    (guest : γ) (events : List (Event γ)) :
    ((∀ k id, (run config inv (start outages guest) events).world.store.slots.get? k = some id ↔
        ∃ i, (run config inv (start outages guest) events).stored id = some i ∧ i.slot = k) ∧
      ∀ id i, (run config inv (start outages guest) events).stored id = some i → i.id = id) ∧
    (∀ id id' i i', (run config inv (start outages guest) events).stored id = some i →
      (run config inv (start outages guest) events).stored id' = some i' →
        i.slot = i'.slot → id = id') ∧
    (∀ more id i, (run config inv (start outages guest) events).stored id = some i →
      ∃ j, (run config inv (start outages guest) (events ++ more)).stored id = some j ∧
        j.slot = i.slot) ∧
    (∀ party c i, (run config inv (start outages guest) events).calls party = some c →
      c.returned? = some i → c.request.isFor i.slot ∧
        (run config inv (start outages guest) events).world.store.slots.get? i.slot = some i.id) ∧
    (∀ more party c k d i, (run config inv (start outages guest) events).calls party = some c →
      c.stage.seeks? = some k →
      Underway config inv party (run config inv (start outages guest) events) more →
      (run config inv (start outages guest) (events ++ more)).calls party = some d →
      d.returned? = some i → i.slot = k) ∧
    ∀ more p p' c c' i i', (run config inv (start outages guest) events).calls p = some c →
      c.returned? = some i →
      (run config inv (start outages guest) (events ++ more)).calls p' = some c' →
      c'.returned? = some i' → i.slot = i'.slot → i.id = i'.id := by
  have hrun : ∀ more, run config inv (start outages guest) (events ++ more) =
      run config inv (run config inv (start outages guest) events) more := fun more => by
    rw [run, List.foldl_append, run, run]
  have hsound := (sound_start config inv outages guest).run events
  have hreturned : ∀ {es party c i},
      (run config inv (start outages guest) es).calls party = some c → c.returned? = some i →
      c.request.isFor i.slot ∧
        (run config inv (start outages guest) es).world.store.slots.get? i.slot = some i.id := by
    intro es party c i hc hi
    obtain ⟨hbase, hask⟩ := Call.base?_of_returned hi
    exact (serves_run outages guest es hc hask).base hbase
  refine ⟨⟨hsound.2.entry_iff, hsound.2.key⟩, ?_, ?_, fun party c i => hreturned, ?_, ?_⟩
  · intro id id' i i' hi hi' hslot
    exact hsound.2.eq_of_slot hi hi' hslot
  · intro more id i hi
    rw [hrun]
    exact hsound.stored_run more hi
  · intro more party c k d i hc hk hu hd hi
    rw [hrun] at hd
    refine ((hsound.serves_run (P := (· = k)) hu fun c' hc' => ?_) d hd).base
      (Call.base?_of_returned hi).1 |>.1
    rw [hc] at hc'
    cases hc'
    exact Stage.serves_of_seeks hk
  · intro more p p' c c' i i' hc hi hc' hi' hslot
    have hentry := hsound.entry_run more (hreturned hc hi).2
    have hentry' := (hreturned hc' hi').2
    rw [hrun, ← hslot, hentry] at hentry'
    exact Option.some.inj hentry'

def rivals : List (Event Unit) :=
  let now := Workflow.diamondStart.created
  let both : List (Event Unit) := [.step 0 ⟨now, "1", false⟩, .step 1 ⟨now, "2", false⟩]
  [.register Workflow.diamond, .call 0 0 (.runForEntity "diamond" ⟨"order", "7"⟩),
    .call 1 1 (.runForEntity "diamond" ⟨"order", "7"⟩)] ++
  both ++ both ++ both ++ List.replicate 6 (.step 0 ⟨now, "3", false⟩) ++
  List.replicate 6 (.step 1 ⟨now, "3", false⟩)

example :
    [0, 1].map (fun party =>
      ((run (fun _ => { maxPasses := some 1 }) (fun _ => Workflow.steady (.ok .null))
        (start (fun _ => []) ()) rivals).calls party).bind fun c =>
          c.returned?.map fun i => (i.id, i.version)) =
      [some ("1", 2), some ("1", 3)] := by
  cbv

end System

end Flowgraph
