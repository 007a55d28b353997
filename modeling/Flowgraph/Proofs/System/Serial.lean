import Flowgraph.Proofs.System.Current
import Flowgraph.Proofs.System.Turns

namespace Flowgraph

variable {γ : Type}

def Event.keepsTo (engine : Nat) (H : Histories) : Event γ → Bool
  | .call _ e (.run _ i) => e = engine && (H i.id).contains i
  | .call _ e _ => e = engine
  | _ => true

namespace System

variable {config : Nat → Config} {inv : Nat → Invoker γ} {H : Histories} {s s' : System γ}
  {engine : Nat}

def KeepsTo (config : Nat → Config) (inv : Nat → Invoker γ) (engine : Nat) (s : System γ)
    (events : List (Event γ)) : Prop :=
  ∀ n (hn : n < events.length),
    events[n].keepsTo engine fun id => trail config inv id s (events.take n)

theorem KeepsTo.append {es fs : List (Event γ)} (h : KeepsTo config inv engine s (es ++ fs)) :
    KeepsTo config inv engine s es := by
  intro n hn
  have hnext := h n (by rw [List.length_append]; omega)
  rwa [List.getElem_append_left hn, List.take_append_of_le_length hn.le] at hnext

theorem KeepsTo.last {es : List (Event γ)} {e : Event γ}
    (h : KeepsTo config inv engine s (es ++ [e])) :
    e.keepsTo engine fun id => trail config inv id s es := by
  have hlast := h es.length (by simp)
  rwa [List.getElem_concat_length rfl, List.take_left' rfl] at hlast

structure Serial (engine : Nat) (s : System γ) : Prop where
  one : ∀ p c, s.calls p = some c → c.engine = engine
  inOrder : ∀ p c, s.calls p = some c → c.stage.InOrder s.world.store

namespace Serial

theorem of_kept (h : s.Serial engine) (hcalls : s'.calls = s.calls)
    (hl : ∀ id i, s.stored id = some i → s'.stored id = some i) : s'.Serial engine where
  one p c hc := h.one p c (hcalls ▸ hc)
  inOrder p c hc := (h.inOrder p c (hcalls ▸ hc)).mono fun id i _ hi => hl id i hi

theorem call (h : s.Serial engine) (hc : Coherent config inv H s) {party e : Nat}
    {request : Request} (hkeeps : (.call party e request : Event γ).keepsTo engine H) :
    (act config inv s (.call party e request)).Serial engine := by
  rw [act]
  split
  case isFalse => exact h
  case isTrue =>
    have hfirst : e = engine ∧ request.first.InOrder s.world.store := by
      cases request with
      | run actor i =>
        obtain ⟨he, hi⟩ := Bool.and_eq_true_iff.1 hkeeps
        refine ⟨of_decide_eq_true he, ?_, trivial, ?_⟩
        · rintro _ ⟨⟩
          exact hc.recalls.version_ne_zero (List.contains_iff_mem.1 hi)
        · rintro _ ⟨⟩
      | _ =>
        refine ⟨of_decide_eq_true hkeeps, ?_, trivial, ?_⟩
        · rintro _ ⟨⟩
        · rintro _ ⟨⟩
    constructor <;> intro p c hp
    all_goals
      simp only [Function.update_apply] at hp
      split at hp
    · cases hp
      exact hfirst.1
    · exact h.one p c hp
    · cases hp
      exact hfirst.2
    · exact h.inOrder p c hp

theorem stepCall (h : s.Serial engine) (hc : Coherent config inv H s) (hl : s.Leased)
    {party : Nat} {turn : Turn} {c : Call} (hp : s.calls party = some c)
    (hdraw : ∀ slot, c.stage.draws? = some slot → s.drawn.get? turn.id = some slot) :
    (stepCall config inv s party turn c).Serial engine := by
  rw [System.stepCall]
  rcases hr : c.stage.next (config c.engine) (inv c.engine).onGuest turn (s.engine c.engine) with
    ⟨b, g⟩
  have hinv := Invoker.onGuest_detached (inv c.engine)
  have hcomp := hc.computed hp
  have ho : c.stage.InOrder (s.engine c.engine).store := h.inOrder party c hp
  have hnext : b.InOrder g.store :=
    ho.next hr hinv hcomp hc.recalls fun i hi => hc.base hp hi
  constructor <;> intro q d hq
  all_goals
    simp only [Function.update_apply] at hq
    split at hq
  · cases hq
    exact h.one party c hp
  · exact h.one q d hq
  · cases hq
    exact hnext
  · case isFalse hne =>
    refine (h.inOrder q d hq).mono fun id k hid hk => ?_
    refine Stage.load_of_next hinv hr hcomp ho.current hc.recalls hc.drawn hdraw ?_ hk
    intro hsame
    have hown : s.holds engine q = some id := by
      rw [holds_eq hq, if_pos (h.one q d hq), hid]
    have hother : s.holds engine party = some id := by
      rw [holds_eq hp, if_pos (h.one party c hp), hsame]
    exact hne ((hl engine).once hown hother)

theorem act (h : s.Serial engine) (hc : Coherent config inv H s) (hl : s.Leased) {e : Event γ}
    (hkeeps : e.keepsTo engine H) : (act config inv s e).Serial engine := by
  cases e with
  | register w =>
    refine h.of_kept (calls_act config inv s rfl) fun id i hi => ?_
    rcases store_register config inv s w with hs | hs
    all_goals
      rw [stored, hs]
      exact hi
  | start w id target now =>
    rw [System.act]
    split
    · exact h
    · exact h.of_kept rfl fun _ _ hi => hi
  | load id =>
    refine h.of_kept (calls_act config inv s rfl) fun id' i hi => ?_
    rw [stored, store_load]
    exact hi
  | create i =>
    refine h.of_kept (calls_act config inv s rfl) fun id k hk => ?_
    rcases store_create config inv s i with hs | ⟨hi, j, hj⟩
    · rw [stored, hs]
      exact hk
    · exact hc.recalls.load_of_create (hc.handles i hi).slot hc.drawn hj hk
  | call party e request => exact h.call hc hkeeps
  | step party turn =>
    rcases hc.act_step party turn with hs | ⟨c, drawn, hp, hd, hdraw, hs⟩
    · rw [hs]
      exact h
    · have hserial : Serial engine { s with drawn } := h.of_kept rfl fun _ _ hi => hi
      rw [hs]
      exact hserial.stepCall hd hl hp hdraw
  | disturb guest => exact h.of_kept rfl fun _ _ hi => hi

end Serial

theorem serial_run (outages : Outages) (guest : γ) {events : List (Event γ)}
    (h : KeepsTo config inv engine (start outages guest) events) :
    (run config inv (start outages guest) events).Serial engine := by
  induction events using List.reverseRecOn with
  | nil => exact ⟨(fun _ _ hc => nomatch hc), (fun _ _ hc => nomatch hc)⟩
  | append_singleton es e ih =>
    -- the last event meets stores that are coherent and leases that are held by one call each
    rw [run_concat]
    exact (ih h.append).act (coherent_run config inv outages guest es)
      (leased_run config inv outages guest es) h.last

theorem leases_serialize_runs (config : Nat → Config) (inv : Nat → Invoker γ) (outages : Outages)
    (guest : γ) :
    (∀ moves : List Leases.Move,
      (Leases.Register.run moves).leases.HeldBy (Leases.Register.run moves).holds ∧
        (∀ n d, (Leases.Register.run moves).demands n = none →
          ((Leases.Register.run moves).act (.ask n d)).demands n = some (d,
            if (Leases.Register.run moves).leases.isHeld d.id then
              match d.policy with
              | .failFast => .refused
              | .block => .waiting
            else .holding)) ∧
        ∀ n d id, (Leases.Register.run moves).demands n = some (d, .holding) →
          ((Leases.Register.run moves).act (.letGo n)).leases.isHeld id =
            (!decide (d.id = id) && (Leases.Register.run moves).leases.isHeld id)) ∧
      (∀ events : List (Event γ),
        (∀ engine, ((run config inv (start outages guest) events).leases engine).HeldBy
          ((run config inv (start outages guest) events).holds engine)) ∧
        ∀ party c, (run config inv (start outages guest) events).calls party = some c →
          c.stage.isOver = true →
            ∀ engine, (run config inv (start outages guest) events).holds engine party = none) ∧
      (∀ (config : Config) (inv : Invoker (Engine γ)), config.lockPolicy = .failFast →
        ∀ turn w actor i g,
          ((Stage.leasing w actor i).next config inv turn g).1.error? = some (.busy i.id) ↔
            g.leases.isHeld i.id = true) ∧
      (∀ (config : Config) (inv : Invoker (Engine γ)), inv.KeepsLeases → ∀ now actor i g,
        (Engine.run config inv now actor i g).2.2.leases = g.leases) ∧
      ∀ engine events, KeepsTo config inv engine (start outages guest) events →
        ∀ party c e, (run config inv (start outages guest) events).calls party = some c →
          c.stage.error? = some e → e.isConflict = false := by
  refine ⟨fun moves => ⟨?_, fun n d hn => ?_, fun n d id hn => ?_⟩, fun events => ⟨?_, ?_⟩, ?_, ?_,
    ?_⟩
  · exact Leases.Register.heldBy_run moves
  · exact Leases.Register.demands_ask hn d
  · exact Leases.Register.isHeld_letGo hn id
  · exact leased_run config inv outages guest events
  · intro party c hc hover engine
    rw [holds_eq hc, Stage.lease?_of_isOver hover, ite_self]
  · intro config inv hpolicy turn w actor i g
    exact Stage.error?_next_leasing hpolicy turn w actor i g
  · intro config inv hinv now actor i g
    exact Engine.leases_run hinv
  · intro engine events hkeeps party c e hc he
    exact ((serial_run outages guest hkeeps).inOrder party c hc).unrivalled e he

def queue : List (Event Unit) :=
  let turn : Turn := ⟨Workflow.diamondStart.created, "2", false⟩
  let both : List (Event Unit) := [.step 0 turn, .step 1 turn]
  let stored : Instance := { Workflow.diamondStart with version := 1 }
  [.register Workflow.diamond,
    .start Workflow.diamond "1" ⟨"order", "7"⟩ Workflow.diamondStart.created,
    .create Workflow.diamondStart, .call 0 0 (.run none stored), .call 1 0 (.run none stored)] ++
  (List.replicate 11 both).flatten

theorem leases_serialize_runs_queue :
    KeepsTo (fun _ => { maxPasses := some 1 }) (fun _ => Workflow.steady (.ok .null)) 0
        (start (fun _ => []) ()) queue ∧
      ∀ party c e,
        (run (fun _ => { maxPasses := some 1 }) (fun _ => Workflow.steady (.ok .null))
          (start (fun _ => []) ()) queue).calls party = some c →
        c.stage.error? = some e → e.isConflict = false := by
  have hkeeps : KeepsTo (fun _ => { maxPasses := some 1 }) (fun _ => Workflow.steady (.ok .null)) 0
      (start (fun _ => []) ()) queue := by
    unfold KeepsTo
    decide +kernel
  have hserial := leases_serialize_runs (fun _ => { maxPasses := some 1 })
    (fun _ => Workflow.steady (.ok .null)) (fun _ => []) ()
  exact ⟨hkeeps, hserial.2.2.2.2 0 queue hkeeps⟩

example :
    ((run (fun _ => { maxPasses := some 1 }) (fun _ => Workflow.steady (.ok .null))
      (start (fun _ => []) ()) queue).stored "1").map (·.version) = some 3 := by
  cbv

end System

end Flowgraph
