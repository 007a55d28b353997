import Flowgraph.Proofs.System.Versions

namespace Flowgraph

namespace Store

inductive Turns (s : Store) : Store → Prop
  | same : Turns s s
  | saved (w : Workflow) : Turns s (s.saveWorkflow w)
  | first {b : Instance} {s' : Store} (wrote : Wrote s b s') (id : s.load? b.id = none)
      (slot : s.slots.get? b.slot = none) (slots : s'.slots = s.slots.insert b.slot b.id) :
      Turns s s'
  | next {a b : Instance} {s' : Store} (wrote : Wrote s b s') (stored : s.load? b.id = some a)
      (slot : b.slot = a.slot) (slots : s'.slots = s.slots) : Turns s s'

structure Indexed (s : Store) : Prop where
  entry_iff : ∀ k id, s.slots.get? k = some id ↔ ∃ i, s.load? id = some i ∧ i.slot = k
  key : ∀ id i, s.load? id = some i → i.id = id
  workflow_key : ∀ id w, s.workflow? id = some w → w.id = id

variable {s s' : Store} {i j b : Instance} {k : WorkflowId × Target} {id : InstanceId}

theorem indexed_empty : empty.Indexed where
  entry_iff k id := by
    constructor
    · intro h
      cases h
    · rintro ⟨i, h, -⟩
      cases h
  key id i h := by cases h
  workflow_key id w h := by cases h

theorem Indexed.entry (h : s.Indexed) (hl : s.load? id = some i) :
    s.slots.get? i.slot = some id :=
  (h.entry_iff i.slot id).2 ⟨i, hl, rfl⟩

theorem Indexed.eq_of_slot (h : s.Indexed) {id' : InstanceId} (hi : s.load? id = some i)
    (hj : s.load? id' = some j) (hslot : i.slot = j.slot) : id = id' := by
  have he := h.entry hi
  rw [hslot, h.entry hj] at he
  exact (Option.some.inj he).symm

theorem Wrote.key (hw : s.Wrote b s') (hkey : ∀ id i, s.load? id = some i → i.id = id)
    (id : InstanceId) (i : Instance) (hl : s'.load? id = some i) : i.id = id := by
  by_cases e : id = b.id
  · rw [e, hw.here] at hl
    cases hl
    exact e.symm
  · rw [hw.elsewhere id e] at hl
    exact hkey id i hl

theorem Indexed.first (h : s.Indexed) (hw : s.Wrote b s') (hid : s.load? b.id = none)
    (hslot : s.slots.get? b.slot = none) (hslots : s'.slots = s.slots.insert b.slot b.id) :
    s'.Indexed where
  entry_iff k id := by
    rw [hslots, Keyed.get?_insert]
    by_cases e : id = b.id
    · subst e
      rw [hw.here]
      by_cases ek : b.slot = k
      · simp [ek]
      · have hno : s.slots.get? k ≠ some b.id := fun hk => by
          obtain ⟨i, hi, -⟩ := (h.entry_iff k b.id).1 hk
          rw [hid] at hi
          cases hi
        simp [ek, hno]
    · rw [hw.elsewhere id e, ← h.entry_iff]
      by_cases ek : b.slot = k
      · subst ek
        simp [hslot, Ne.symm e]
      · rw [if_neg ek]
  key := hw.key h.key
  workflow_key id w hf := h.workflow_key id w (by rwa [workflow?, ← hw.workflows])

theorem Indexed.next (h : s.Indexed) (hw : s.Wrote b s') {a : Instance}
    (hl : s.load? b.id = some a) (hslot : b.slot = a.slot) (hslots : s'.slots = s.slots) :
    s'.Indexed where
  entry_iff k id := by
    rw [hslots, h.entry_iff]
    by_cases e : id = b.id
    · subst e
      simp [hw.here, hl, hslot]
    · rw [hw.elsewhere id e]
  key := hw.key h.key
  workflow_key id w hf := h.workflow_key id w (by rwa [workflow?, ← hw.workflows])

namespace Turns

theorem indexed (h : s.Turns s') (hs : s.Indexed) : s'.Indexed := by
  cases h with
  | same => exact hs
  | saved w =>
    refine ⟨hs.entry_iff, hs.key, fun id x hx => ?_⟩
    rw [workflow?, saveWorkflow, Keyed.get?_insert] at hx
    split at hx
    case isTrue e =>
      cases hx
      exact e
    case isFalse => exact hs.workflow_key id x hx
  | first wrote hid slot slots => exact hs.first wrote hid slot slots
  | next wrote stored slot slots => exact hs.next wrote stored slot slots

theorem entry (h : s.Turns s') (hk : s.slots.get? k = some id) : s'.slots.get? k = some id := by
  cases h with
  | same => exact hk
  | saved w => exact hk
  | first wrote hid slot slots =>
    rw [slots]
    exact Keyed.get?_insert_of_free _ slot hk
  | next wrote stored slot slots =>
    rw [slots]
    exact hk

theorem load (h : s.Turns s') (hl : s.load? id = some i) :
    ∃ j, s'.load? id = some j ∧ j.slot = i.slot := by
  cases h with
  | same => exact ⟨i, hl, rfl⟩
  | saved w => exact ⟨i, hl, rfl⟩
  | @first b s' wrote hid slot slots =>
    have hne : id ≠ b.id := by
      rintro rfl
      rw [hid] at hl
      cases hl
    exact ⟨i, (wrote.elsewhere id hne).trans hl, rfl⟩
  | @next a b s' wrote stored slot slots =>
    by_cases e : id = b.id
    · subst e
      rw [stored] at hl
      cases hl
      exact ⟨b, wrote.here, slot⟩
    · exact ⟨i, (wrote.elsewhere id e).trans hl, rfl⟩

end Turns

theorem Indexed.create (h : s.Indexed) (hc : s.create i = (.ok j, s')) :
    j.slot = i.slot ∧ s'.slots.get? i.slot = some j.id := by
  rw [Store.create] at hc
  split at hc
  case h_1 owner ho =>
    split at hc
    case h_1 stored hl =>
      cases hc
      obtain ⟨j', hl', hslot⟩ := (h.entry_iff _ _).1 ho
      rw [hl] at hl'
      cases hl'
      rw [h.key owner j hl]
      exact ⟨hslot, ho⟩
    case h_2 => cases hc
  case h_2 =>
    cases hc
    exact ⟨rfl, Keyed.get?_insert_self ..⟩

variable {H : Histories} {drawn : Keyed InstanceId (WorkflowId × Target)}

theorem Recalls.turns_create (h : s.Recalls H) (hi : drawn.get? i.id = some i.slot)
    (hd : ∀ {id a}, a ∈ H id → drawn.get? id = some a.slot) (hc : s.create i = (.ok j, s')) :
    s.Turns s' := by
  rcases create_ok hc with ⟨rfl, -⟩ | ⟨hslot, rfl, hw, hslots⟩
  · exact .same
  · rcases h.create hi hd hc with ⟨rfl, id, hl⟩ | ⟨hnone, -, -⟩
    · exact .same
    · exact .first hw hnone hslot hslots

theorem Recalls.turns_commit (h : s.Recalls H) {base : Instance} (hbase : base.Genuine H drawn)
    (hsame : i.id = base.id ∧ i.slot = base.slot ∧ i.version = base.version) {v : UInt64}
    (hc : s.commit i = (.ok v, s')) : s.Turns s' := by
  obtain ⟨-, -, hlast⟩ := h.commit hbase hsame hc
  obtain ⟨-, hw, ⟨-, hid, hslot, hslots⟩ | ⟨-, ⟨a, hl, -⟩, hslots⟩⟩ := commit_ok hc
  · exact .first hw hid hslot hslots
  · refine .next hw hl ?_ hslots
    rw [hlast a hl]
    exact hsame.2.1

end Store

def Event.ofParty {γ : Type} : Event γ → Bool
  | .call _ _ _ => true
  | .step _ _ => true
  | _ => false

namespace System

variable {γ : Type} {config : Nat → Config} {inv : Nat → Invoker γ} {H : Histories}
  {s : System γ}

theorem calls_act (config : Nat → Config) (inv : Nat → Invoker γ) (s : System γ) {e : Event γ}
    (he : e.ofParty = false) :
    (act config inv s e).calls = s.calls := by
  cases e with
  | call => cases he
  | step => cases he
  | _ =>
    rw [act]
    repeat' split
    all_goals rfl

theorem store_register (config : Nat → Config) (inv : Nat → Invoker γ) (s : System γ)
    (w : Workflow) :
    (act config inv s (.register w)).world.store = s.world.store ∨
      (act config inv s (.register w)).world.store = s.world.store.saveWorkflow w := by
  exact s.world.store_register w

theorem store_load (config : Nat → Config) (inv : Nat → Invoker γ) (s : System γ)
    (id : InstanceId) :
    (act config inv s (.load id)).world.store = s.world.store := by
  rw [act, Engine.loadInstance]
  rcases hr : s.world.read .loadInstance (·.load? id) with ⟨e | _ | i, g⟩
  · exact Engine.read_error hr
  · exact (Engine.read_ok hr).2
  · exact (Engine.read_ok hr).2

theorem store_create (config : Nat → Config) (inv : Nat → Invoker γ) (s : System γ)
    (i : Instance) :
    (act config inv s (.create i)).world.store = s.world.store ∨
      i ∈ s.handles ∧
        ∃ j, s.world.store.create i = (.ok j, (act config inv s (.create i)).world.store) := by
  rw [act]
  split
  case isFalse => exact .inl rfl
  case isTrue hi =>
    rcases hr : s.world.call .createInstance (·.create i) with ⟨e | j, g⟩
    · exact .inl (Engine.store_call_error Store.create_unchanged hr)
    · exact .inr ⟨List.contains_iff_mem.1 hi, j, Engine.call_ok hr⟩

namespace Coherent

theorem act_step (h : Coherent config inv H s) (party : Nat) (turn : Turn) :
    System.act config inv s (.step party turn) = s ∨
      ∃ c drawn, s.calls party = some c ∧ Coherent config inv H { s with drawn } ∧
        (∀ slot, c.stage.draws? = some slot → drawn.get? turn.id = some slot) ∧
        System.act config inv s (.step party turn) =
          System.stepCall config inv { s with drawn } party turn c := by
  rw [System.act]
  split
  · exact .inl rfl
  case h_2 c hc =>
    split
    case h_1 hnone =>
      refine .inr ⟨c, s.drawn, hc, h, fun slot hs => ?_, rfl⟩
      rw [hnone] at hs
      cases hs
    case h_2 slot hslot =>
      split
      · exact .inl rfl
      case isFalse hid =>
        refine .inr ⟨c, s.drawn.insert turn.id slot, hc,
          h.draw slot (Option.not_isSome_iff_eq_none.1 hid), fun slot' hs => ?_, rfl⟩
        rw [hslot] at hs
        cases hs
        exact Keyed.get?_insert_self ..

theorem turns_stepCall (h : Coherent config inv H s) {party : Nat} {turn : Turn} {c : Call}
    (hc : s.calls party = some c)
    (hdraw : ∀ slot, c.stage.draws? = some slot → s.drawn.get? turn.id = some slot) :
    s.world.store.Turns (System.stepCall config inv s party turn c).world.store := by
  rw [System.stepCall]
  rcases hr : c.stage.next (config c.engine) (inv c.engine).onGuest turn (s.engine c.engine) with
    ⟨b, g⟩
  have hcomp := h.computed hc
  have heff := Stage.next_effect (Invoker.onGuest_detached _) hr hcomp
  have hbase := fun i => h.base (i := i) hc
  generalize c.stage = a at heff hbase hdraw hcomp
  simp only
  generalize g.store = st at heff
  cases heff with
  | quiet => exact .same
  | @create w target i _ ok =>
    exact h.recalls.turns_create (i := .start w turn.id target turn.now)
      (hdraw (w.id, target) rfl) h.drawn ok
  | @commit lease w actor base i r v _ ok =>
    exact h.recalls.turns_commit (hbase base rfl) (Workflow.Derives.same hcomp) ok

theorem turns (h : Coherent config inv H s) (e : Event γ) :
    s.world.store.Turns (System.act config inv s e).world.store := by
  cases e with
  | register w =>
    rcases store_register config inv s w with hs | hs <;> rw [hs]
    · exact .same
    · exact .saved w
  | start w id target now =>
    rw [System.act]
    split <;> exact .same
  | load id =>
    rw [store_load]
    exact .same
  | create i =>
    rcases store_create config inv s i with hs | ⟨hi, j, hc⟩
    · rw [hs]
      exact .same
    · exact h.recalls.turns_create (h.handles i hi).slot h.drawn hc
  | call party engine request =>
    rw [System.act]
    split <;> exact .same
  | step party turn =>
    rcases h.act_step party turn with hs | ⟨c, drawn, hc, hd, hdraw, hs⟩
    · rw [hs]
      exact .same
    · rw [hs]
      exact hd.turns_stepCall hc hdraw
  | disturb guest => exact .same

end Coherent

end System

end Flowgraph
