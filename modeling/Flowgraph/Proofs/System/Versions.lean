import Flowgraph.Proofs.Run.Passes
import Flowgraph.Proofs.System.Basic
import Flowgraph.Proofs.System.Changes
import Flowgraph.Proofs.System.Histories
import Mathlib.Data.List.Induction

namespace Flowgraph

namespace System

variable {γ : Type} {config : Nat → Config} {inv : Nat → Invoker γ} {H H' : Histories}
  {s : System γ}

structure Coherent (config : Nat → Config) (inv : Nat → Invoker γ) (H : Histories)
    (s : System γ) : Prop where
  recalls : s.world.store.Recalls H
  drawn : ∀ {id a}, a ∈ H id → s.drawn.get? id = some a.slot
  handles : ∀ c ∈ s.handles, c.Genuine H s.drawn
  base : ∀ {p c i}, s.calls p = some c → c.stage.base? = some i → i.Genuine H s.drawn
  computed : ∀ {p c}, s.calls p = some c →
    c.stage.Computed (config c.engine) (inv c.engine).onGuest

theorem coherent_start (outages : Outages) (guest : γ) :
    Coherent config inv (fun _ => []) (start outages guest) where
  recalls := ⟨fun _ => rfl, fun _ => rfl, fun h => (by cases h), fun h => (by cases h)⟩
  drawn h := by cases h
  handles c h := by cases h
  base h := by cases h
  computed h := by cases h

def Succeeds (config : Nat → Config) (inv : Nat → Invoker γ) (s : System γ) (a b : Instance) :
    Prop :=
  ∃ party c lease w actor i r v, s.calls party = some c ∧
    c.stage = .committing lease w actor a i r ∧
    w.Derives (inv c.engine).onGuest (config c.engine).options actor a i r ∧
    a.version.next? = some v ∧ b = { i with version := v }

def Continues (config : Nat → Config) (inv : Nat → Invoker γ) (H : Histories) (s s' : System γ) :
    Prop :=
  Coherent config inv H s' ∨
    ∃ b, Coherent config inv (H.add b) s' ∧
      ∀ a, s.stored b.id = some a → Succeeds config inv s a b

namespace Coherent

theorem genuine_of_stored (h : Coherent config inv H s) {id : InstanceId} {i : Instance}
    (hl : s.stored id = some i) : i.Genuine H s.drawn := by
  have hm := h.recalls.mem hl
  have hk := h.recalls.key hm
  refine ⟨?_, fun _ => ?_⟩
  · rw [hk]
    exact h.drawn hm
  · rw [hk]
    exact hm

theorem moved (h : Coherent config inv H s) {g : Engine γ} (hg : g.store.Recalls H)
    {handles : List Instance} (hh : ∀ c ∈ handles, c.Genuine H s.drawn) :
    Coherent config inv H { s with world := g, handles } :=
  ⟨hg, h.drawn, hh, h.base, h.computed⟩

theorem draw (h : Coherent config inv H s) {id : InstanceId} (slot : WorkflowId × Target)
    (hid : s.drawn.get? id = none) :
    Coherent config inv H { s with drawn := s.drawn.insert id slot } where
  recalls := h.recalls
  drawn ha := Keyed.get?_insert_of_free slot hid (h.drawn ha)
  handles c hc := (h.handles c hc).mono (fun ha => ha) (Keyed.get?_insert_of_free slot hid)
  base hc hi := (h.base hc hi).mono (fun ha => ha) (Keyed.get?_insert_of_free slot hid)
  computed := h.computed

theorem register (h : Coherent config inv H s) (w : Workflow) :
    Coherent config inv H (act config inv s (.register w)) := by
  exact h.moved (h.recalls.congr (s.world.load_register w) (s.world.slots_register w)) h.handles

theorem begin (h : Coherent config inv H s) (w : Workflow) (id : InstanceId) (target : Target)
    (now : Moment) : Coherent config inv H (act config inv s (.start w id target now)) := by
  rw [act]
  split
  · exact h
  case isFalse hid =>
    have hd := h.draw (w.id, target) (Option.not_isSome_iff_eq_none.1 hid)
    refine hd.moved hd.recalls fun c hc => ?_
    rcases List.mem_cons.1 hc with rfl | hc
    · exact ⟨Keyed.get?_insert_self .., fun hv => absurd rfl hv⟩
    · exact hd.handles c hc

theorem load (h : Coherent config inv H s) (id : InstanceId) :
    Coherent config inv H (act config inv s (.load id)) := by
  rw [act, Engine.loadInstance]
  rcases hr : s.world.read .loadInstance (·.load? id) with ⟨e | _ | i, g⟩
  · exact h.moved (by rw [Engine.read_error hr]; exact h.recalls) h.handles
  · exact h.moved (by rw [(Engine.read_ok hr).2]; exact h.recalls) h.handles
  · obtain ⟨hl, hs⟩ := Engine.read_ok hr
    refine h.moved (by rw [hs]; exact h.recalls) fun c hc => ?_
    rcases List.mem_cons.1 hc with rfl | hc
    · exact h.genuine_of_stored hl.symm
    · exact h.handles c hc

theorem assign (h : Coherent config inv H s) (party : Nat) {d : Call}
    (hbase : ∀ i, d.stage.base? = some i → i.Genuine H s.drawn)
    (hcomp : d.stage.Computed (config d.engine) (inv d.engine).onGuest) :
    Coherent config inv H { s with calls := Function.update s.calls party (some d) } := by
  refine ⟨h.recalls, h.drawn, h.handles, fun {p c i} hc hi => ?_, fun {p c} hc => ?_⟩
  · by_cases e : p = party
    · simp only [e, Function.update_self, Option.some.injEq] at hc
      subst hc
      exact hbase i hi
    · simp only [Function.update_of_ne e] at hc
      exact h.base hc hi
  · by_cases e : p = party
    · simp only [e, Function.update_self, Option.some.injEq] at hc
      subst hc
      exact hcomp
    · simp only [Function.update_of_ne e] at hc
      exact h.computed hc

theorem call (h : Coherent config inv H s) (party engine : Nat) (request : Request) :
    Coherent config inv H (act config inv s (.call party engine request)) := by
  rw [act]
  split
  case isFalse => exact h
  case isTrue hok =>
    have hhonest := (Bool.and_eq_true_iff.1 hok).2
    refine h.assign party (fun i hi => ?_) ?_
    · cases request with
      | run actor k =>
        cases hi
        exact h.handles _ (List.contains_iff_mem.1 hhonest)
      | runForEntity => cases hi
      | runTarget => cases hi
    · cases request <;> trivial

theorem grown (h : Coherent config inv H s) {b : Instance} {g : Engine γ}
    (hd : s.drawn.get? b.id = some b.slot) (hg : g.store.Recalls (H.add b)) :
    Coherent config inv (H.add b) { s with world := g } := by
  have hH : ∀ {id a}, a ∈ H id → a ∈ H.add b id := fun ha => Histories.mem_add.2 (.inl ha)
  refine ⟨hg, fun {id a} ha => ?_, fun c hc => ?_, fun {p c i} hc hi => ?_, h.computed⟩
  · rcases Histories.mem_add.1 ha with ha | ⟨rfl, rfl⟩
    · exact h.drawn ha
    · exact hd
  · exact (h.handles c hc).mono hH fun hk => hk
  · exact (h.base hc hi).mono hH fun hk => hk

theorem create (h : Coherent config inv H s) (i : Instance) :
    Continues config inv H s (act config inv s (.create i)) := by
  rw [act]
  split
  case isFalse => exact .inl h
  case isTrue hi =>
    have hgen := h.handles i (List.contains_iff_mem.1 hi)
    rcases hr : s.world.call .createInstance (·.create i) with ⟨e | j, g⟩
    · have hs := Engine.store_call_error Store.create_unchanged hr
      exact .inl (h.moved (by rw [hs]; exact h.recalls) h.handles)
    · rcases h.recalls.create hgen.slot h.drawn (Engine.call_ok hr) with
        ⟨hs, id, hl⟩ | ⟨hnone, rfl, hg⟩
      · refine .inl (h.moved (by rw [hs]; exact h.recalls) fun c hc => ?_)
        rcases List.mem_cons.1 hc with rfl | hc
        · exact h.genuine_of_stored hl
        · exact h.handles c hc
      · have hgrown := h.grown (b := { i with version := 1 }) hgen.slot hg
        refine .inr ⟨_, hgrown.moved hgrown.recalls fun c hc => ?_, fun a ha => ?_⟩
        · rcases List.mem_cons.1 hc with rfl | hc
          · exact Instance.genuine_add hgen.slot
          · exact hgrown.handles c hc
        · cases hnone.symm.trans ha

theorem genuine_of_returned {b : Stage} (hb : ∀ i, b.base? = some i → i.Genuine H s.drawn)
    {i : Instance} (hi : i ∈ b.returned) : i.Genuine H s.drawn := by
  cases b with
  | ended j r =>
    rw [Stage.returned, List.mem_singleton] at hi
    subst hi
    exact hb i rfl
  | _ => cases hi

theorem staged (h : Coherent config inv H s) (party : Nat) {c : Call}
    (leases : Nat → Leases) {b : Stage} (hb : ∀ i, b.base? = some i → i.Genuine H s.drawn)
    (hcomp : b.Computed (config c.engine) (inv c.engine).onGuest) :
    Coherent config inv H { s with
      leases
      handles := b.returned ++ s.handles
      calls := Function.update s.calls party (some { c with stage := b }) } := by
  obtain ⟨hrecalls, hdrawn, hhandles, hbase, hcomputed⟩ :=
    h.assign party (d := { c with stage := b }) hb hcomp
  refine ⟨hrecalls, hdrawn, fun i hi => ?_, hbase, hcomputed⟩
  rcases List.mem_append.1 hi with hi | hi
  · exact genuine_of_returned hb hi
  · exact hhandles i hi

theorem stepCall (h : Coherent config inv H s) {party : Nat} {turn : Turn} {c : Call}
    (hc : s.calls party = some c)
    (hdraw : ∀ slot, c.stage.draws? = some slot → s.drawn.get? turn.id = some slot) :
    Continues config inv H s (stepCall config inv s party turn c) := by
  rw [System.stepCall]
  rcases hr : c.stage.next (config c.engine) (inv c.engine).onGuest turn (s.engine c.engine) with
    ⟨b, g⟩
  have hcomp := h.computed hc
  have heff := Stage.next_effect (Invoker.onGuest_detached _) hr hcomp
  have hcomp' := Stage.next_computed hr hcomp
  have hbase := fun i => h.base (i := i) hc
  generalize hstage : c.stage = a at heff hbase hdraw hcomp
  generalize hstore : g.store = st at heff
  cases heff with
  | quiet hfrom =>
    have hm := h.moved (g := g) (by rw [hstore]; exact h.recalls) h.handles
    refine .inl (hm.staged party _ (fun i hi => ?_) hcomp')
    rcases hfrom i hi with hi | ⟨id, hl⟩
    · exact hbase i hi
    · exact h.genuine_of_stored hl
  | @create w target i _ ok =>
    have hd := hdraw (w.id, target) rfl
    rcases h.recalls.create (i := .start w turn.id target turn.now) hd h.drawn ok with
      ⟨hs, id, hl⟩ | ⟨hnone, rfl, hg⟩
    · have hm := h.moved (g := g) (by rw [hstore, hs]; exact h.recalls) h.handles
      refine .inl (hm.staged party _ (fun j hj => ?_) hcomp')
      cases hj
      exact h.genuine_of_stored hl
    · have hgrown := h.grown (g := g) hd (by rw [hstore]; exact hg)
      refine .inr ⟨_, hgrown.staged party _ (fun j hj => ?_) hcomp', fun a ha => ?_⟩
      · cases hj
        exact Instance.genuine_add hd
      · cases hnone.symm.trans ha
  | @commit lease w actor base i r v _ ok =>
    have hgen := hbase base rfl
    have hsame := Workflow.Derives.same hcomp
    obtain ⟨hv, hg, hlast⟩ := h.recalls.commit hgen hsame ok
    have hd : s.drawn.get? i.id = some i.slot := by
      rw [hsame.1, hsame.2.1]
      exact hgen.slot
    have hgrown := h.grown (b := { i with version := v }) (g := g) hd
      (by rw [hstore]; exact hg)
    refine .inr ⟨_, hgrown.staged party _ (fun j hj => ?_) hcomp', fun a ha => ?_⟩
    · cases hj
      exact Instance.genuine_add hd
    · cases hlast a ha
      exact ⟨party, c, lease, w, actor, i, r, v, hc, hstage, hcomp, hv, rfl⟩

theorem act (h : Coherent config inv H s) (e : Event γ) :
    Continues config inv H s (act config inv s e) := by
  cases e with
  | register w => exact .inl (h.register w)
  | start w id target now => exact .inl (h.begin w id target now)
  | load id => exact .inl (h.load id)
  | create i => exact h.create i
  | call party engine request => exact .inl (h.call party engine request)
  | step party turn =>
    rw [System.act]
    split
    · exact .inl h
    case h_2 c hc =>
      split
      case h_1 hnone =>
        refine h.stepCall hc fun slot hs => ?_
        rw [hnone] at hs
        cases hs
      case h_2 slot hslot =>
        split
        · exact .inl h
        case isFalse hid =>
          have hd := h.draw slot (Option.not_isSome_iff_eq_none.1 hid)
          refine hd.stepCall hc fun slot' hs => ?_
          rw [hslot] at hs
          cases hs
          exact Keyed.get?_insert_self ..
  | disturb guest => exact .inl (h.moved (g := { s.world with guest }) h.recalls h.handles)

end Coherent

theorem run_concat (s : System γ) (es : List (Event γ)) (e : Event γ) :
    run config inv s (es ++ [e]) = act config inv (run config inv s es) e := by
  rw [run, List.foldl_concat, run]

theorem trail_concat (id : InstanceId) (s : System γ) (es : List (Event γ)) (e : Event γ) :
    trail config inv id s (es ++ [e]) =
      trail config inv id s es ++ trail config inv id (run config inv s es) [e] := by
  induction es generalizing s with
  | nil => rfl
  | cons d es ih =>
    have hrun : run config inv s (d :: es) = run config inv (act config inv s d) es := rfl
    rw [List.cons_append, trail, trail, ih, hrun]
    split
    · rfl
    · rw [List.append_assoc]

theorem trail_of_continues {s' : System γ} {e : Event γ} (hs : act config inv s e = s')
    (h : Coherent config inv H s) (h' : Continues config inv H s s') :
    Coherent config inv (fun id => H id ++ trail config inv id s [e]) s' := by
  rcases h' with h' | ⟨b, h', -⟩
  · have hsame : ∀ id, trail config inv id s [e] = [] := fun id => by
      have hl : s'.stored id = s.stored id :=
        (h'.recalls.last id).symm.trans (h.recalls.last id)
      rw [trail, hs, if_pos hl, trail]
    simpa [hsame] using h'
  · have hadd : (fun id => H id ++ trail config inv id s [e]) = H.add b := by
      funext id
      have hl' := h'.recalls.last id
      rw [trail, hs]
      by_cases e : id = b.id
      · subst e
        rw [Histories.add_self, List.getLast?_concat] at hl'
        have hb : s'.stored b.id = some b := hl'.symm
        have hne : s'.stored b.id ≠ s.stored b.id := fun heq => by
          have hlen := h.recalls.version_eq_length (heq.symm.trans hb)
          have hlen' := h'.recalls.version_eq_length hb
          rw [Histories.add_self, List.length_append, ← hlen] at hlen'
          simp at hlen'
        rw [if_neg hne, hb, Histories.add_self]
        rfl
      · rw [Histories.add_of_ne e, h.recalls.last] at hl'
        have heq : s'.stored id = s.stored id := hl'.symm
        rw [if_pos heq, Histories.add_of_ne e, trail, List.append_nil]
    rw [hadd]
    exact h'

theorem coherent_run (config : Nat → Config) (inv : Nat → Invoker γ) (outages : Outages)
    (guest : γ) (events : List (Event γ)) :
    Coherent config inv (fun id => trail config inv id (start outages guest) events)
      (run config inv (start outages guest) events) := by
  induction events using List.reverseRecOn with
  | nil => exact coherent_start outages guest
  | append_singleton es e ih =>
    have hnext := trail_of_continues rfl ih (ih.act e)
    rw [run_concat]
    simp only [trail_concat]
    exact hnext

theorem no_update_lost (config : Nat → Config) (inv : Nat → Invoker γ) (outages : Outages)
    (guest : γ) (events : List (Event γ)) (id : InstanceId) :
    (trail config inv id (start outages guest) events).map (·.version.toNat) =
        List.range' 1 (trail config inv id (start outages guest) events).length ∧
      (trail config inv id (start outages guest) events).getLast? =
        (run config inv (start outages guest) events).stored id ∧
      ∀ e a, (run config inv (start outages guest) events).stored id = some a →
        (run config inv (start outages guest) (events ++ [e])).stored id = some a ∨
          ∃ b, (run config inv (start outages guest) (events ++ [e])).stored id = some b ∧
            Succeeds config inv (run config inv (start outages guest) events) a b := by
  have h := coherent_run config inv outages guest events
  refine ⟨h.recalls.versions id, h.recalls.last id, fun e a ha => ?_⟩
  rw [run_concat]
  rcases h.act e with h' | ⟨b, h', hb⟩
  · exact .inl ((h'.recalls.last id).symm.trans ((h.recalls.last id).trans ha))
  · have hl' := h'.recalls.last id
    by_cases hid : id = b.id
    · subst hid
      rw [Histories.add_self, List.getLast?_concat] at hl'
      exact .inr ⟨b, hl'.symm, hb a ha⟩
    · rw [Histories.add_of_ne hid, h.recalls.last] at hl'
      exact .inl (hl'.symm.trans ha)

def race : List (Event Unit) :=
  let turn : Turn := ⟨Workflow.diamondStart.created, "2", false⟩
  let both : List (Event Unit) := [.step 0 turn, .step 1 turn]
  [.register Workflow.diamond,
    .start Workflow.diamond "1" ⟨"order", "7"⟩ Workflow.diamondStart.created,
    .call 0 0 (.run none Workflow.diamondStart), .call 1 1 (.run none Workflow.diamondStart)] ++
  both ++ both ++ both ++ both ++ both ++ both ++
  [.call 1 1 (.run none Workflow.diamondStart)] ++ both ++ both ++ both ++ both ++ both

example :
    (trail (fun _ => { maxPasses := some 1 }) (fun _ => Workflow.steady (.ok .null)) "1"
      (start (fun _ => []) ()) race).map (·.version) = [1, 2] := by
  cbv

end System

end Flowgraph
