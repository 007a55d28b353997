import Flowgraph.Proofs.Run.Log

namespace Flowgraph

variable {ω α β : Type}

def EngineError.isVisitLimit : EngineError → Bool
  | .workflow (.visitLimit ..) => true
  | _ => false

def Unlimited (r : Except EngineError α × β) : Prop :=
  ∀ e, r.1 = .error e → e.isVisitLimit = false

theorem Unlimited.ok (a : α) (s : β) : Unlimited ((.ok a, s) : Except EngineError α × β) :=
  fun _ h => by cases h

theorem Unlimited.error {e : EngineError} (he : e.isVisitLimit = false) (s : β) :
    Unlimited ((.error e, s) : Except EngineError α × β) := by
  intro e' h
  cases h
  exact he

theorem Invoker.opens_unlimited (inv : Invoker ω) (t : Transition) (site : Site) (s : ω) :
    Unlimited (inv.opens t site s) := by
  rw [opens]
  cases t.guard with
  | none => exact .ok true s
  | some e =>
    simp only
    rcases inv.guard e site s with ⟨c | b, s'⟩
    · exact .error rfl s'
    · exact .ok b s'

theorem Invoker.choose_unlimited (inv : Invoker ω) (gate : Gate) (site : Site)
    (ts : List Transition) (s : ω) : Unlimited (inv.choose gate site ts s) := by
  induction ts generalizing s with
  | nil => exact .ok [] s
  | cons t ts ih =>
    have ho := inv.opens_unlimited t site s
    rw [choose]
    rcases hr : inv.opens t site s with ⟨e | b, s'⟩ <;> rw [hr] at ho
    · exact .error (ho e rfl) s'
    cases b with
    | false => exact ih s'
    | true =>
      cases gate with
      | or => exact .ok [t] s'
      | and =>
        have hrest := ih s'
        rcases hc : inv.choose .and site ts s' with ⟨e | l, s''⟩ <;> rw [hc] at hrest <;>
          simp only [hc]
        · exact .error (hrest e rfl) s''
        · exact .ok (t :: l) s''

namespace Workflow

variable (w : Workflow) (inv : Invoker ω) (site : Site)

theorem requireNode_unlimited {n : NodeId} {e : WorkflowError} (h : w.requireNode n = .error e) :
    (EngineError.workflow e).isVisitLimit = false := by
  rw [requireNode] at h
  split at h <;> cases h
  rfl

theorem splitAll_unlimited (ns : List NodeId) (s : ω) : Unlimited (w.splitAll inv site ns s) := by
  induction ns generalizing s with
  | nil => exact .ok [] s
  | cons n ns ih =>
    rw [splitAll]
    rcases hx : w.requireNode n with e | x
    · exact .error (w.requireNode_unlimited hx) s
    have hsplit : Unlimited (w.split inv (site.atNode n) x s) := by
      rw [split]
      split
      · exact .ok [] s
      · exact inv.choose_unlimited x.split _ _ s
    rcases hr : w.split inv (site.atNode n) x s with ⟨e | taken, s'⟩ <;> rw [hr] at hsplit <;>
      simp only [hr]
    · exact .error (hsplit e rfl) s'
    have hrest := ih s'
    rcases hm : w.splitAll inv site ns s' with ⟨e | more, s''⟩ <;> rw [hm] at hrest
    · exact .error (hrest e rfl) s''
    · exact .ok (taken ++ more) s''

structure Readies (p : Progress ω) (r : Except EngineError α × Progress ω) : Prop where
  current : r.2.current = { p.current with pending := r.2.current.pending }
  fired : r.2.report.fired = p.report.fired
  unlimited : Unlimited r

variable {w inv site}

theorem Readies.trans {p q : Progress ω} {a : β} {r : Except EngineError α × Progress ω}
    (h : Readies p ((.ok a : Except EngineError β), q)) (h' : Readies q r) : Readies p r := by
  refine ⟨?_, h'.fired.trans h.fired, h'.unlimited⟩
  rw [h'.current, show q.current = _ from h.current]

variable (w inv site)

theorem enter_readies (ns : List NodeId) (p : Progress ω) :
    Readies p (w.enter inv site ns p) := by
  induction ns generalizing p with
  | nil => exact ⟨rfl, rfl, .ok () p⟩
  | cons n ns ih =>
    rw [enter]
    rcases hx : w.requireNode n with e | x
    · exact ⟨rfl, rfl, .error (w.requireNode_unlimited hx) p⟩
    rcases hk : x.action with _ | key <;> simp only [hk]
    · refine Readies.trans (a := ()) ?_ (ih _)
      exact ⟨rfl, rfl, .ok () _⟩
    rcases inv.action key (site.atNode n) p.world with ⟨c | v, s⟩
    · exact ⟨rfl, rfl, .error rfl _⟩
    · refine Readies.trans (a := ()) ?_ (ih _)
      exact ⟨rfl, rfl, .ok () _⟩

theorem prepare_readies (p : Progress ω) : Readies p (w.prepare inv site p) := by
  rw [prepare]
  have hin := w.enter_readies inv site p.current.pending.keys p
  rcases hr : w.enter inv site p.current.pending.keys p with ⟨e | _, q⟩ <;> rw [hr] at hin
  · exact ⟨hin.current, hin.fired, .error (hin.unlimited e rfl) q⟩
  simp only
  split
  · exact hin.trans ⟨rfl, rfl, .ok [] q⟩
  have hsplit := w.splitAll_unlimited inv site q.current.active.keys q.world
  rcases hs : w.splitAll inv site q.current.active.keys q.world with ⟨e | taken, s⟩ <;>
    rw [hs] at hsplit
  · exact hin.trans ⟨rfl, rfl, .error (hsplit e rfl) _⟩
  · exact hin.trans ⟨rfl, rfl, .ok taken _⟩

theorem ready_readies (p : Progress ω) : Readies p (w.ready inv site p) := by
  rw [ready]
  split
  · exact ⟨rfl, rfl, .error rfl p⟩
  · refine Readies.trans (a := ()) ?_ (w.prepare_readies inv site _)
    exact ⟨rfl, rfl, .ok () _⟩

end Workflow

end Flowgraph
