import Flowgraph.Proofs.Run.Effects
import Mathlib.Logic.Relation

namespace Flowgraph

namespace Instance

inductive Change (w : Workflow) : Instance → Instance → Prop
  | activate {i j : Instance} {n : NodeId} {b : Bool} {now : Moment}
      (enter : i.activate w n now = (.ok b, j)) : Change w i j
  | deactivate (i : Instance) (n : NodeId) (now : Moment) : Change w i (i.deactivate n now)
  | markEntered (i : Instance) (n : NodeId) : Change w i (i.markEntered n)
  | recordArrival (i : Instance) (n : NodeId) (t : TransitionId) : Change w i (i.recordArrival n t)
  | clearArrivals (i : Instance) (n : NodeId) : Change w i (i.clearArrivals n)
  | recordFiring (i : Instance) (t : Transition) (now : Moment) : Change w i (i.recordFiring t now)
  | setWaiting (i : Instance) (now : Moment) : Change w i (i.setWaiting now)
  | complete (i : Instance) (now : Moment) : Change w i (i.complete now)

abbrev Changes (w : Workflow) : Instance → Instance → Prop := Relation.ReflTransGen (Change w)

theorem Change.visits_le {w : Workflow} {i j : Instance} (h : Change w i j) (n : NodeId) :
    (j.visits n).toNat ≤ max (i.visits n).toNat w.visitLimit.toNat := by
  cases h with
  | activate enter =>
    rcases activate_ok enter with ⟨-, -, rfl⟩ | ⟨-, -, hroom, rfl⟩
    · exact Nat.le_max_left ..
    · rw [visits_entering hroom]
      split
      case isTrue e => subst e; omega
      case isFalse => exact Nat.le_max_left ..
  | _ => exact Nat.le_max_left ..

theorem Changes.visits_le {w : Workflow} {i j : Instance} (h : Changes w i j) (n : NodeId) :
    (j.visits n).toNat ≤ max (i.visits n).toNat w.visitLimit.toNat := by
  induction h with
  | refl => exact Nat.le_max_left ..
  | tail _ last ih =>
    have hlast := last.visits_le n
    omega

theorem Changes.preserve {w : Workflow} {P : Instance → Prop}
    (step : ∀ {i j}, Change w i j → P i → P j) {i j : Instance} (h : Changes w i j) (hi : P i) :
    P j := by
  induction h with
  | refl => exact hi
  | tail _ last ih => exact step last ih

end Instance

def EngineError.ShownBy (w : Workflow) (i : Instance) : EngineError → Prop
  | .workflow (.visitLimit n visits max) =>
      max = w.visitLimit ∧ visits.toNat = (i.visits n).toNat + 1 ∧ max < visits
  | .workflow (.overflow (some n)) => i.visits n = 4294967295
  | .workflow (.overflow none) => False
  | _ => True

namespace Instance

variable {w : Workflow} {now : Moment}

theorem requireNode_shown {n : NodeId} {e : WorkflowError} (h : w.requireNode n = .error e)
    (i : Instance) : (EngineError.workflow e).ShownBy w i := by
  rw [Workflow.requireNode] at h
  split at h
  · cases h
  · cases h
    exact trivial

theorem activate_shown {i j : Instance} {n : NodeId} {e : WorkflowError}
    (h : i.activate w n now = (.error e, j)) : (EngineError.workflow e).ShownBy w j := by
  have hspec := activate_spec i w n now
  rw [h] at hspec
  cases hspec with
  | stranger | unknown => exact trivial
  | overflows _ _ full => exact full
  | exceeds _ _ next beyond => exact ⟨rfl, next, beyond⟩

variable (w now)

theorem depart_changes (record : Bool) (i : Instance) (ts : List Transition) :
    Changes w i (i.depart record now ts) := by
  induction ts generalizing i with
  | nil => exact .refl
  | cons t ts ih =>
    have hleave := Relation.ReflTransGen.single (Change.deactivate (w := w) i t.source now)
    cases record with
    | false => exact hleave.trans (ih _)
    | true => exact (hleave.tail (.recordFiring _ t now)).trans (ih _)

theorem activate_changes (i k : Instance) (hk : Changes w i k) (n : NodeId) :
    Changes w i (k.activate w n now).2 ∧
      ∀ e, (k.activate w n now).1 = .error e →
        (EngineError.workflow e).ShownBy w (k.activate w n now).2 := by
  rcases activate_error_or_ok k w n now with ⟨e, ha⟩ | ⟨b, m, ha⟩ <;> rw [ha]
  · exact ⟨hk, fun e' he => by cases he; exact activate_shown ha⟩
  · exact ⟨hk.tail (.activate ha), fun e he => by cases he⟩

theorem arrive_changes (i : Instance) (t : Transition) :
    Changes w i (i.arrive w now t).2 ∧
      ∀ e, (i.arrive w now t).1 = .error e →
        (EngineError.workflow e).ShownBy w (i.arrive w now t).2 := by
  rw [arrive]
  cases hx : w.requireNode t.target with
  | error e =>
    refine ⟨.refl, fun e' he => ?_⟩
    cases he
    exact requireNode_shown hx i
  | ok x =>
    cases hg : x.join with
    | or =>
      simp only [hg]
      split
      · exact activate_changes w now i i .refl x.id
      · exact ⟨.refl, fun e he => by cases he⟩
    | and =>
      have hrec : Changes w i (i.recordArrival x.id t.id) := .single (.recordArrival i x.id t.id)
      simp only [hg]
      split
      · exact activate_changes w now i _ (hrec.tail (.clearArrivals _ x.id)) x.id
      · exact ⟨hrec, fun e he => by cases he⟩

theorem arriveAll_changes (i : Instance) (ts : List Transition) :
    Changes w i (i.arriveAll w now ts).2 ∧
      ∀ e, (i.arriveAll w now ts).1 = .error e →
        (EngineError.workflow e).ShownBy w (i.arriveAll w now ts).2 := by
  induction ts generalizing i with
  | nil => exact ⟨.refl, fun e he => by cases he⟩
  | cons t ts ih =>
    obtain ⟨hi, he⟩ := arrive_changes w now i t
    rw [arriveAll]
    rcases ht : i.arrive w now t with ⟨e | b, k⟩ <;> rw [ht] at hi he
    · exact ⟨hi, fun e' h => by cases h; exact he e rfl⟩
    obtain ⟨hk, hke⟩ := ih k
    rcases hr : k.arriveAll w now ts with ⟨e | ns, m⟩ <;> rw [hr] at hk hke <;> simp only [hr]
    · exact ⟨hi.trans hk, fun e' h => by cases h; exact hke e rfl⟩
    · exact ⟨hi.trans hk, fun e h => by cases h⟩

end Instance

namespace Workflow

variable {ω : Type} (w : Workflow) (inv : Invoker ω) (site : Site) (options : Options)
  (now : Moment)

structure Moves {α : Type} (i : Instance) (r : Except EngineError α × Progress ω) : Prop where
  changes : i.Changes w r.2.current
  shown : ∀ e, r.1 = .error e → e.ShownBy w r.2.current

variable {w}

theorem opens_shown {t : Transition} {s : ω} {e : EngineError} (i : Instance)
    (h : (inv.opens t site s).1 = .error e) : e.ShownBy w i := by
  rw [Invoker.opens] at h
  cases hg : t.guard with
  | none =>
    rw [hg] at h
    cases h
  | some x =>
    simp only [hg] at h
    rcases hr : inv.guard x site s with ⟨c | b, s'⟩ <;> simp only [hr] at h <;> cases h
    exact trivial

theorem choose_shown {gate : Gate} {ts : List Transition} {s : ω} {e : EngineError} (i : Instance)
    (h : (inv.choose gate site ts s).1 = .error e) : e.ShownBy w i := by
  induction ts generalizing s with
  | nil => cases h
  | cons t ts ih =>
    rw [Invoker.choose] at h
    rcases ho : inv.opens t site s with ⟨e' | b, s'⟩ <;> simp only [ho] at h
    · cases h
      exact opens_shown inv site i (congrArg Prod.fst ho)
    cases b with
    | false => exact ih h
    | true =>
      cases gate with
      | or => cases h
      | and =>
        rcases hc : inv.choose .and site ts s' with ⟨e' | l, s''⟩ <;> simp only [hc] at h <;>
          cases h
        exact ih (congrArg Prod.fst hc)

theorem splitAll_shown {ns : List NodeId} {s : ω} {e : EngineError} (i : Instance)
    (h : (w.splitAll inv site ns s).1 = .error e) : e.ShownBy w i := by
  induction ns generalizing s with
  | nil => cases h
  | cons n ns ih =>
    rw [splitAll] at h
    rcases hx : w.requireNode n with e' | x <;> simp only [hx] at h
    · cases h
      exact Instance.requireNode_shown hx i
    rcases hr : w.split inv (site.atNode n) x s with ⟨e' | l, s'⟩ <;> simp only [hr] at h
    · cases h
      rw [split] at hr
      split at hr
      · cases hr
      · exact choose_shown inv (site.atNode n) i (congrArg Prod.fst hr)
    rcases hm : w.splitAll inv site ns s' with ⟨e' | more, s''⟩ <;> simp only [hm] at h <;> cases h
    exact ih (congrArg Prod.fst hm)

variable (w)

theorem enter_moves (ns : List NodeId) (p : Progress ω) :
    w.Moves p.current (w.enter inv site ns p) := by
  induction ns generalizing p with
  | nil => exact ⟨.refl, fun e he => by cases he⟩
  | cons n ns ih =>
    have hmark : p.current.Changes w (p.current.markEntered n) := .single (.markEntered _ n)
    rw [enter]
    rcases hx : w.requireNode n with e | x
    · exact ⟨.refl, fun e' he => by cases he; exact Instance.requireNode_shown hx _⟩
    rcases hk : x.action with _ | key <;> simp only [hk]
    · have hrest := ih { p with current := p.current.markEntered n }
      exact ⟨hmark.trans hrest.changes, hrest.shown⟩
    rcases hr : inv.action key (site.atNode n) p.world with ⟨c | v, s'⟩
    · exact ⟨.refl, fun e he => by cases he; exact trivial⟩
    · have hrest := ih {
        current := p.current.markEntered n
        report := { p.report with context := Json.merge p.report.context v }
        world := s' }
      exact ⟨hmark.trans hrest.changes, hrest.shown⟩

theorem fire_moves (taken : List Transition) (p : Progress ω) :
    w.Moves p.current (w.fire options now taken p) := by
  have hd := Instance.depart_changes w now options.recordHistory p.current taken
  obtain ⟨ha, he⟩ := Instance.arriveAll_changes w now
    (p.current.depart options.recordHistory now taken) taken
  rw [fire]
  rcases hr : (p.current.depart options.recordHistory now taken).arriveAll w now taken with
    ⟨e | ns, k⟩ <;> rw [hr] at ha he
  · exact ⟨hd.trans ha, fun e' h => by cases h; exact he e rfl⟩
  · exact ⟨hd.trans ha, fun e h => by cases h⟩

theorem sweep_moves (p : Progress ω) : w.Moves p.current (w.sweep inv site options now p) := by
  have hin := enter_moves w inv site p.current.pending.keys p
  rw [sweep]
  rcases hr : w.enter inv site p.current.pending.keys p with ⟨e | _, q⟩ <;> rw [hr] at hin
  · exact ⟨hin.changes, fun e' he => by cases he; exact hin.shown e rfl⟩
  simp only
  split
  · exact ⟨hin.changes.tail (.complete _ now), fun e he => by cases he⟩
  rcases hs : w.splitAll inv site q.current.active.keys q.world with ⟨e | taken, s'⟩
  · refine ⟨hin.changes, fun e' he => ?_⟩
    cases he
    exact splitAll_shown inv site _ (congrArg Prod.fst hs)
  rcases taken with _ | ⟨t, ts⟩
  · exact ⟨hin.changes.tail (.setWaiting _ now), fun e he => by cases he⟩
  have hfire := fire_moves w options now (t :: ts) { q with world := s' }
  rcases hf : w.fire options now (t :: ts) { q with world := s' } with ⟨e | _, q'⟩ <;>
    rw [hf] at hfire <;> simp only [hf]
  · exact ⟨hin.changes.trans hfire.changes, fun e' he => by cases he; exact hfire.shown e rfl⟩
  · exact ⟨hin.changes.trans hfire.changes, fun e he => by cases he⟩

theorem pass_moves (p : Progress ω) :
    w.Moves p.current (w.pass inv site options now p) ∨
      p.report.passes = 4294967295 ∧
        w.pass inv site options now p = (.error (.workflow (.overflow none)), p) := by
  rw [pass]
  split
  case h_1 hk => exact .inr ⟨UInt32.next?_eq_none.1 hk, rfl⟩
  case h_2 k _ => exact .inl (sweep_moves w inv site options now (p.counting k))

theorem passes_moves (k : Nat) (p : Progress ω) :
    p.current.Changes w (w.passes inv site options now k p).2.current ∧
      ∀ e, (w.passes inv site options now k p).1 = .error e → e ≠ .workflow (.overflow none) →
        e.ShownBy w (w.passes inv site options now k p).2.current := by
  induction k generalizing p with
  | zero => exact ⟨.single (.setWaiting _ now), fun e he => by cases he⟩
  | succ k ih =>
    rw [passes]
    rcases pass_moves w inv site options now p with hpass | ⟨-, hpass⟩
    · rcases hr : w.pass inv site options now p with ⟨e | b, q⟩ <;> rw [hr] at hpass
      · exact ⟨hpass.changes, fun e' he _ => by cases he; exact hpass.shown e rfl⟩
      cases b with
      | false => exact ⟨hpass.changes, fun e he => by cases he⟩
      | true => exact ⟨hpass.changes.trans (ih q).1, (ih q).2⟩
    · rw [hpass]
      exact ⟨.refl, fun e he hne => by cases he; exact absurd rfl hne⟩

theorem advance_changes (actor : Option String) (i : Instance) (s : ω) :
    i.Changes w (w.advance inv options now actor i s).2.1 ∧
      ∀ e, (w.advance inv options now actor i s).1 = .error e →
        e ≠ .workflow (.overflow none) → e.ShownBy w (w.advance inv options now actor i s).2.1 := by
  simp only [advance]
  generalize ({ workflow := w.id, target := i.target, instanceId := some i.id, actor } : Site) =
    site
  obtain ⟨hchanges, hshown⟩ :=
    passes_moves w inv site options now (options.passLimit (w.passBound i)) ⟨i, {}, s⟩
  rcases hr : w.passes inv site options now (options.passLimit (w.passBound i)) ⟨i, {}, s⟩ with
    ⟨e | _, q⟩ <;> rw [hr] at hchanges hshown
  · exact ⟨hchanges, fun e' he => by cases he; exact hshown e rfl⟩
  · exact ⟨hchanges, fun e he => by cases he⟩

end Workflow

end Flowgraph
