import Flowgraph.Proofs.Run.Effects
import Flowgraph.Proofs.Run.Evolution

namespace Flowgraph

variable {ω : Type}

structure Invoker.Keeps (inv : Invoker ω) (P : ω → Prop) : Prop where
  guard : ∀ e site s, P s → P (inv.guard e site s).2
  action : ∀ key site s, P s → P (inv.action key site s).2
  apply : ∀ fields site s, P s → P (inv.apply fields site s)

def EngineError.RaisedIn (w : Workflow) : EngineError → Prop
  | .action n key _ => ∃ x, w.node? n = some x ∧ x.action = some key
  | .guard t e _ => ∃ x, w.transition? t = some x ∧ x.guard = some e
  | .workflow (.visitLimit n visits max) =>
      w.contains n = true ∧ max = w.visitLimit ∧ max < visits
  | .workflow _ => True
  | _ => False

namespace Instance

variable {i j : Instance} {w : Workflow} {now : Moment}

theorem activate_evolves {n : NodeId} {b : Bool} (h : i.activate w n now = (.ok b, j)) :
    Evolves i j := by
  rcases activate_ok h with ⟨-, -, rfl⟩ | ⟨-, -, -, rfl⟩
  · exact .refl _
  · exact ⟨rfl, rfl, rfl, rfl, rfl, rfl, List.prefix_rfl⟩

theorem activate_error {n : NodeId} {e : WorkflowError} (h : i.activate w n now = (.error e, j)) :
    (EngineError.workflow e).RaisedIn w := by
  have hspec := activate_spec i w n now
  rw [h] at hspec
  cases hspec with
  | stranger | unknown | overflows => exact trivial
  | exceeds known _ _ beyond => exact ⟨known, rfl, beyond⟩

theorem requireNode_error {n : NodeId} {e : WorkflowError} (h : w.requireNode n = .error e) :
    (EngineError.workflow e).RaisedIn w := by
  rw [Workflow.requireNode] at h
  split at h
  · cases h
  · cases h
    exact trivial

theorem depart_evolves {record : Bool} {ts : List Transition} :
    Evolves i (i.depart record now ts) := by
  induction ts generalizing i with
  | nil => exact .refl i
  | cons t ts ih =>
    have hd := evolves_deactivate i t.source now
    cases record with
    | false => exact hd.trans ih
    | true => exact hd.trans ((evolves_recordFiring _ t now).trans ih)

variable (w now)

theorem activate_conduct {k : Instance} (hk : Evolves i k) (n : NodeId) :
    Evolves i (k.activate w n now).2 ∧
      ∀ e, (k.activate w n now).1 = .error e → (EngineError.workflow e).RaisedIn w := by
  rcases activate_error_or_ok k w n now with ⟨e, ha⟩ | ⟨b, m, ha⟩ <;> rw [ha]
  · exact ⟨hk, fun e' he => by cases he; exact activate_error ha⟩
  · exact ⟨hk.trans (activate_evolves ha), fun e he => by cases he⟩

theorem arrive_conduct (i : Instance) (t : Transition) :
    Evolves i (i.arrive w now t).2 ∧
      ∀ e, (i.arrive w now t).1 = .error e → (EngineError.workflow e).RaisedIn w := by
  rw [arrive]
  cases hx : w.requireNode t.target with
  | error e =>
    refine ⟨.refl i, fun e' he => ?_⟩
    cases he
    exact requireNode_error hx
  | ok x =>
    cases hg : x.join with
    | or =>
      simp only [hg]
      split
      · exact activate_conduct w now (.refl i) x.id
      · exact ⟨.refl i, fun e he => by cases he⟩
    | and =>
      have hrec := evolves_recordArrival i x.id t.id
      simp only [hg]
      split
      · exact activate_conduct w now (hrec.trans (evolves_clearArrivals _ x.id)) x.id
      · exact ⟨hrec, fun e he => by cases he⟩

theorem arriveAll_conduct (i : Instance) (ts : List Transition) :
    Evolves i (i.arriveAll w now ts).2 ∧
      ∀ e, (i.arriveAll w now ts).1 = .error e → (EngineError.workflow e).RaisedIn w := by
  induction ts generalizing i with
  | nil => exact ⟨.refl i, fun e he => by cases he⟩
  | cons t ts ih =>
    obtain ⟨hi, he⟩ := arrive_conduct w now i t
    rw [arriveAll]
    cases ht : i.arrive w now t with
    | mk r k =>
      rw [ht] at hi he
      cases r with
      | error e => exact ⟨hi, fun e' h => he e' (by simpa using h)⟩
      | ok b =>
        obtain ⟨hk, hke⟩ := ih k
        cases hr : k.arriveAll w now ts with
        | mk r m =>
          rw [hr] at hk hke
          simp only [hr]
          cases r with
          | error e => exact ⟨hi.trans hk, fun e' h => hke e' (by simpa using h)⟩
          | ok ns => exact ⟨hi.trans hk, fun e' h => by cases h⟩

end Instance

structure Workflow.Heeds {α : Type} (w : Workflow) (P : ω → Prop) (s : ω)
    (r : Except EngineError α × ω) : Prop where
  world : P s → P r.2
  error : ∀ e, r.1 = .error e → e.RaisedIn w

structure Workflow.Conduct {α : Type} (w : Workflow) (P : ω → Prop) (p : Progress ω)
    (r : Except EngineError α × Progress ω) : Prop where
  evolves : p.current.Evolves r.2.current
  world : P p.world → P r.2.world
  error : ∀ e, r.1 = .error e → e.RaisedIn w

namespace Workflow

variable {w : Workflow} {inv : Invoker ω} {P : ω → Prop} {site : Site} {options : Options}
  {now : Moment} {p : Progress ω} {s : ω}

theorem opens_heeds (hinv : inv.Keeps P) {t : Transition} (ht : w.transition? t.id = some t) :
    Heeds w P s (inv.opens t site s) := by
  rw [Invoker.opens]
  cases hg : t.guard with
  | none => exact ⟨id, fun e he => by cases he⟩
  | some x =>
    have hk := hinv.guard x site s
    cases hr : inv.guard x site s with
    | mk r s' =>
      rw [hr] at hk
      simp only [hr]
      cases r with
      | error c =>
        refine ⟨hk, fun e he => ?_⟩
        cases he
        exact ⟨t, ht, hg⟩
      | ok b => exact ⟨hk, fun e he => by cases he⟩

theorem choose_heeds (hinv : inv.Keeps P) {gate : Gate} {ts : List Transition}
    (hts : ∀ t ∈ ts, w.transition? t.id = some t) : Heeds w P s (inv.choose gate site ts s) := by
  induction ts generalizing s with
  | nil => exact ⟨id, fun e he => by cases he⟩
  | cons t ts ih =>
    have ho : Heeds w P s (inv.opens t site s) := opens_heeds hinv (hts t List.mem_cons_self)
    have hrest := fun s' => ih (s := s') fun u hu => hts u (List.mem_cons_of_mem _ hu)
    rw [Invoker.choose]
    rcases hr : inv.opens t site s with ⟨e | b, s'⟩ <;> rw [hr] at ho
    · exact ⟨ho.world, fun e' he => by cases he; exact ho.error e rfl⟩
    have hs' := hrest s'
    cases b with
    | false => exact ⟨fun h => hs'.world (ho.world h), hs'.error⟩
    | true =>
      cases gate with
      | or => exact ⟨ho.world, fun e he => by cases he⟩
      | and =>
        rcases hc : inv.choose .and site ts s' with ⟨e | l, s''⟩ <;> rw [hc] at hs' <;>
          simp only [hc]
        · exact ⟨fun h => hs'.world (ho.world h), fun e' he => by cases he; exact hs'.error e rfl⟩
        · exact ⟨fun h => hs'.world (ho.world h), fun e he => by cases he⟩

theorem split_heeds (hinv : inv.Keeps P) (x : Node) : Heeds w P s (w.split inv site x s) := by
  rw [split]
  split
  · exact ⟨id, fun e he => by cases he⟩
  · exact choose_heeds hinv fun t ht => (mem_outgoing_iff.1 ht).1

theorem splitAll_heeds (hinv : inv.Keeps P) (ns : List NodeId) :
    Heeds w P s (w.splitAll inv site ns s) := by
  induction ns generalizing s with
  | nil => exact ⟨id, fun e he => by cases he⟩
  | cons n ns ih =>
    rw [splitAll]
    rcases hx : w.requireNode n with e | x
    · exact ⟨id, fun e' he => by cases he; exact Instance.requireNode_error hx⟩
    have hsplit : Heeds w P s (w.split inv (site.atNode n) x s) := split_heeds hinv x
    rcases hr : w.split inv (site.atNode n) x s with ⟨e | taken, s'⟩ <;> rw [hr] at hsplit <;>
      simp only [hr]
    · exact ⟨hsplit.world, fun e' he => by cases he; exact hsplit.error e rfl⟩
    have hs' := ih (s := s')
    rcases hm : w.splitAll inv site ns s' with ⟨e | more, s''⟩ <;> rw [hm] at hs'
    · exact ⟨fun h => hs'.world (hsplit.world h), fun e' he => by cases he; exact hs'.error e rfl⟩
    · exact ⟨fun h => hs'.world (hsplit.world h), fun e he => by cases he⟩

theorem Conduct.trans {α β : Type} {q : Progress ω} {a : α} {r : Except EngineError β × Progress ω}
    (h : Conduct w P p ((.ok a : Except EngineError α), q)) (h' : Conduct w P q r) :
    Conduct w P p r :=
  ⟨h.evolves.trans h'.evolves, fun hp => h'.world (h.world hp), h'.error⟩

theorem enter_conduct (hinv : inv.Keeps P) (ns : List NodeId) :
    Conduct w P p (w.enter inv site ns p) := by
  induction ns generalizing p with
  | nil => exact ⟨.refl _, id, fun e he => by cases he⟩
  | cons n ns ih =>
    have hm := Instance.evolves_markEntered p.current n
    rw [enter]
    rcases hx : w.requireNode n with e | x
    · exact ⟨.refl _, id, fun e' he => by cases he; exact Instance.requireNode_error hx⟩
    rcases hk : x.action with _ | key <;> simp only [hk]
    · refine Conduct.trans (a := ()) ?_ ih
      exact ⟨hm, id, fun e he => by cases he⟩
    have hact := hinv.action key (site.atNode n) p.world
    rcases hr : inv.action key (site.atNode n) p.world with ⟨c | v, s'⟩ <;> rw [hr] at hact
    · exact ⟨.refl _, hact, fun e he => by cases he; exact ⟨x, requireNode_ok hx, hk⟩⟩
    · refine Conduct.trans (a := ()) ?_ ih
      exact ⟨hm, hact, fun e he => by cases he⟩

theorem fire_conduct (taken : List Transition) :
    Conduct w P p (w.fire options now taken p) := by
  have hd : p.current.Evolves (p.current.depart options.recordHistory now taken) :=
    Instance.depart_evolves
  obtain ⟨ha, he⟩ := Instance.arriveAll_conduct w now
    (p.current.depart options.recordHistory now taken) taken
  rw [fire]
  rcases hr : (p.current.depart options.recordHistory now taken).arriveAll w now taken with
    ⟨e | ns, k⟩ <;> rw [hr] at ha he
  · exact ⟨hd.trans ha, id, fun e' h => by cases h; exact he e rfl⟩
  · exact ⟨hd.trans ha, id, fun e h => by cases h⟩

theorem sweep_conduct (hinv : inv.Keeps P) : Conduct w P p (w.sweep inv site options now p) := by
  rw [sweep]
  have hin : Conduct w P p (w.enter inv site p.current.pending.keys p) := enter_conduct hinv _
  rcases hr : w.enter inv site p.current.pending.keys p with ⟨e | _, q⟩ <;> rw [hr] at hin
  · exact ⟨hin.evolves, hin.world, fun e' he => by cases he; exact hin.error e rfl⟩
  simp only
  split
  · exact hin.trans ⟨Instance.evolves_complete _ now, id, fun e he => by cases he⟩
  have hsplit : Heeds w P q.world (w.splitAll inv site q.current.active.keys q.world) :=
    splitAll_heeds hinv _
  rcases hs : w.splitAll inv site q.current.active.keys q.world with ⟨e | taken, s'⟩ <;>
    rw [hs] at hsplit
  · exact hin.trans ⟨.refl _, hsplit.world, fun e' he => by cases he; exact hsplit.error e rfl⟩
  rcases taken with _ | ⟨t, ts⟩
  · exact hin.trans ⟨Instance.evolves_setWaiting _ now, hsplit.world, fun e he => by cases he⟩
  have hmid : Conduct w P q ((.ok () : Except EngineError Unit), { q with world := s' }) :=
    ⟨.refl _, hsplit.world, fun e he => by cases he⟩
  have hfire : Conduct w P p (w.fire options now (t :: ts) { q with world := s' }) :=
    hin.trans (hmid.trans (fire_conduct _))
  rcases hf : w.fire options now (t :: ts) { q with world := s' } with ⟨e | _, q'⟩ <;>
    rw [hf] at hfire <;> simp only [hf]
  · exact ⟨hfire.evolves, hfire.world, fun e' he => by cases he; exact hfire.error e rfl⟩
  · exact ⟨hfire.evolves, hfire.world, fun e he => by cases he⟩

theorem pass_conduct (hinv : inv.Keeps P) : Conduct w P p (w.pass inv site options now p) := by
  rw [pass]
  split
  · exact ⟨.refl _, id, fun e he => by cases he; exact trivial⟩
  · refine Conduct.trans (a := ()) ?_ (sweep_conduct hinv)
    exact ⟨.refl _, id, fun e he => by cases he⟩

theorem passes_conduct (hinv : inv.Keeps P) (k : Nat) :
    Conduct w P p (w.passes inv site options now k p) := by
  induction k generalizing p with
  | zero => exact ⟨Instance.evolves_setWaiting _ now, id, fun e he => by cases he⟩
  | succ k ih =>
    have hpass : Conduct w P p (w.pass inv site options now p) := pass_conduct hinv
    rw [passes]
    rcases hr : w.pass inv site options now p with ⟨e | b, q⟩ <;> rw [hr] at hpass
    · exact ⟨hpass.evolves, hpass.world, fun e' he => by cases he; exact hpass.error e rfl⟩
    cases b with
    | false => exact ⟨hpass.evolves, hpass.world, fun e he => by cases he⟩
    | true => exact hpass.trans ih

theorem advance_conduct (hinv : inv.Keeps P) {actor : Option String} {i : Instance}
    {r : Except EngineError Report} {j : Instance} {s' : ω}
    (h : w.advance inv options now actor i s = (r, j, s')) :
    i.Evolves j ∧ (P s → P s') ∧ ∀ e, r = .error e → e.RaisedIn w := by
  simp only [advance] at h
  generalize hsite : ({ workflow := w.id, target := i.target, instanceId := some i.id, actor } :
    Site) = site at h
  have hp : Conduct w P ⟨i, {}, s⟩ (w.passes inv site options now
    (options.passLimit (w.passBound i)) ⟨i, {}, s⟩) := passes_conduct hinv _
  rcases hr : w.passes inv site options now (options.passLimit (w.passBound i)) ⟨i, {}, s⟩ with
    ⟨e | _, q⟩ <;> rw [hr] at h hp <;> cases h
  · exact ⟨hp.evolves, hp.world, fun e' he => by cases he; exact hp.error e rfl⟩
  · exact ⟨hp.evolves, hp.world, fun e he => by cases he⟩

theorem evolves_of_advance {actor : Option String} {i : Instance}
    {r : Except EngineError Report} {j : Instance} {s' : ω}
    (h : w.advance inv options now actor i s = (r, j, s')) : i.Evolves j := by
  have hinv : inv.Keeps fun _ => True :=
    ⟨fun _ _ _ _ => trivial, fun _ _ _ _ => trivial, fun _ _ _ _ => trivial⟩
  exact (advance_conduct hinv h).1

end Workflow

end Flowgraph
