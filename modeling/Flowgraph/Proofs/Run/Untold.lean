import Flowgraph.Proofs.Limits.Alike
import Flowgraph.Proofs.Run.Log

namespace Flowgraph

namespace Instance

def retold (i : Instance) (status : Status) (history : List Firing) : Instance :=
  { i with status, history }

variable {i j : Instance} {now now' : Moment}

theorem activate_retold (i : Instance) (w : Workflow) (n : NodeId) (now : Moment) (s : Status)
    (h : List Firing) :
    (i.retold s h).activate w n now =
      ((i.activate w n now).1, (i.activate w n now).2.retold s h) := by
  have hactive : (i.retold s h).isActive n = i.isActive n := rfl
  have hvisits : (i.retold s h).visits n = i.visits n := rfl
  have hworkflow : (i.retold s h).workflow = i.workflow := rfl
  simp only [activate, hactive, hvisits, hworkflow]
  split
  · rfl
  split
  · rfl
  split
  · rfl
  split
  · rfl
  · split <;> rfl

theorem arrive_retold (i : Instance) (w : Workflow) (now : Moment) (t : Transition) (s : Status)
    (h : List Firing) :
    (i.retold s h).arrive w now t =
      ((i.arrive w now t).1, (i.arrive w now t).2.retold s h) := by
  rw [arrive, arrive]
  rcases w.requireNode t.target with e | x
  · rfl
  cases hg : x.join with
  | or =>
    simp only [hg, activate_retold]
    split <;> rfl
  | and =>
    have hrecord : (i.retold s h).recordArrival x.id t.id =
        (i.recordArrival x.id t.id).retold s h := rfl
    have harrivals : ((i.recordArrival x.id t.id).retold s h).arrivalsAt x.id =
        (i.recordArrival x.id t.id).arrivalsAt x.id := rfl
    have hclear : ((i.recordArrival x.id t.id).retold s h).clearArrivals x.id =
        ((i.recordArrival x.id t.id).clearArrivals x.id).retold s h := rfl
    simp only [hg, hrecord, harrivals, hclear, activate_retold]
    split <;> rfl

theorem arriveAll_retold (i : Instance) (w : Workflow) (now : Moment) (ts : List Transition)
    (s : Status) (h : List Firing) :
    (i.retold s h).arriveAll w now ts =
      ((i.arriveAll w now ts).1, (i.arriveAll w now ts).2.retold s h) := by
  induction ts generalizing i with
  | nil => rfl
  | cons t ts ih =>
    rw [arriveAll, arriveAll, arrive_retold]
    rcases i.arrive w now t with ⟨e | b, k⟩
    · rfl
    simp only [ih]
    rcases k.arriveAll w now ts with ⟨e | ns, m⟩ <;> rfl

theorem arriveAll_frame (i : Instance) (w : Workflow) (now : Moment) (ts : List Transition) :
    (i.arriveAll w now ts).2.status = i.status ∧ (i.arriveAll w now ts).2.history = i.history := by
  have hself : i.arriveAll w now ts = _ := i.arriveAll_retold w now ts i.status i.history
  rw [hself]
  exact ⟨rfl, rfl⟩

theorem history_depart_unrecorded (i : Instance) (now : Moment) (ts : List Transition) :
    (i.depart false now ts).history = i.history := by
  induction ts generalizing i with
  | nil => rfl
  | cons t ts ih => exact ih _

structure Agrees (i j : Instance) : Prop where
  status : i.status = j.status
  rest : Alike { i with history := [] } { j with history := [] }

namespace Agrees

theorem refl (i : Instance) : i.Agrees i := ⟨rfl, .refl _⟩

theorem onlyFinished (h : i.Agrees j) (w : Workflow) : i.onlyFinished w = j.onlyFinished w := by
  have hactive : i.active = j.active := h.rest.active
  rw [Instance.onlyFinished, hactive, Instance.onlyFinished]

theorem retold (h : i.Agrees j) (s : Status) : (i.retold s []).Alike (j.retold s []) :=
  { h.rest with }

theorem markEntered (h : i.Agrees j) (n : NodeId) : (i.markEntered n).Agrees (j.markEntered n) :=
  ⟨h.status, h.rest.markEntered⟩

theorem setWaiting (h : i.Agrees j) : (i.setWaiting now).Agrees (j.setWaiting now') :=
  ⟨rfl, { h.rest with }⟩

theorem complete (h : i.Agrees j) : (i.complete now).Agrees (j.complete now') :=
  ⟨rfl, h.rest.complete⟩

theorem deactivate (h : i.Agrees j) (n : NodeId) :
    (i.deactivate n now).Agrees (j.deactivate n now') :=
  ⟨h.status, h.rest.deactivate⟩

theorem depart (h : i.Agrees j) (record record' : Bool) (ts : List Transition) :
    (i.depart record now ts).Agrees (j.depart record' now' ts) := by
  induction ts generalizing i j with
  | nil => exact h
  | cons t ts ih =>
    have hleft : (i.deactivate t.source now).Agrees (j.deactivate t.source now') :=
      h.deactivate t.source
    obtain ⟨hstatus, hrest⟩ := hleft
    refine ih ?_
    cases record <;> cases record' <;> exact ⟨hstatus, { hrest with }⟩

theorem arriveAll (h : i.Agrees j) (w : Workflow) (now now' : Moment) (ts : List Transition) :
    (i.arriveAll w now ts).1 = (j.arriveAll w now' ts).1 ∧
      (i.arriveAll w now ts).2.Agrees (j.arriveAll w now' ts).2 := by
  obtain ⟨hr, halike⟩ := (h.retold i.status).arriveAll w now now' ts
  rw [arriveAll_retold, arriveAll_retold] at hr halike
  refine ⟨hr, ⟨?_, { halike with }⟩⟩
  rw [(arriveAll_frame i w now ts).1, (arriveAll_frame j w now' ts).1, h.status]

end Agrees

end Instance

variable {ω : Type}

structure Progress.Untold (history : List Firing) (p q : Progress ω) : Prop where
  current : p.current.Agrees q.current
  history : q.current.history = history
  report : p.report = q.report
  world : p.world = q.world

namespace Progress.Untold

variable {w : Workflow} {inv : Invoker ω} {site : Site} {history : List Firing} {p q : Progress ω}
  {options options' : Options} {now now' : Moment}

theorem enter (h : p.Untold history q) (ns : List NodeId) :
    Same (Untold history) (w.enter inv site ns p) (w.enter inv site ns q) := by
  induction ns generalizing p q with
  | nil => exact .mk _ h
  | cons n ns ih =>
    rw [Workflow.enter, Workflow.enter, h.world]
    rcases w.requireNode n with e | x
    · exact .mk _ h
    rcases hk : x.action with _ | key <;> simp only [hk]
    · exact ih ⟨h.current.markEntered n, h.history, h.report, rfl⟩
    rcases inv.action key (site.atNode n) q.world with ⟨c | v, s⟩
    · exact .mk _ ⟨h.current, h.history, h.report, rfl⟩
    · exact ih ⟨h.current.markEntered n, h.history, by rw [h.report], rfl⟩

theorem prepare (h : p.Untold history q) :
    Same (Untold history) (w.prepare inv site p) (w.prepare inv site q) := by
  have hin : Same (Untold history) (w.enter inv site p.current.pending.keys p)
      (w.enter inv site p.current.pending.keys q) := h.enter p.current.pending.keys
  have hpending : q.current.pending = p.current.pending := h.current.rest.pending.symm
  rw [Workflow.prepare, Workflow.prepare, hpending]
  generalize w.enter inv site p.current.pending.keys _ = r at hin ⊢
  generalize w.enter inv site p.current.pending.keys _ = r' at hin ⊢
  cases hin with
  | @mk a p q h =>
    have hactive : p.current.active = q.current.active := h.current.rest.active
    rcases a with e | _
    · exact .mk _ h
    simp only [h.current.onlyFinished w, hactive, h.world]
    split
    · exact .mk _ h
    rcases w.splitAll inv site q.current.active.keys q.world with ⟨e | taken, s⟩
    · exact .mk _ ⟨h.current, h.history, h.report, rfl⟩
    · exact .mk _ ⟨h.current, h.history, h.report, rfl⟩

theorem ready (h : p.Untold history q) :
    Same (Untold history) (w.ready inv site p) (w.ready inv site q) := by
  rw [Workflow.ready, Workflow.ready, h.report]
  split
  · exact .mk _ h
  · exact prepare ⟨h.current, h.history, by rw [Progress.counting, h.report]; rfl, h.world⟩

theorem fire (h : p.Untold history q) (hoptions : options'.recordHistory = false)
    (taken : List Transition) :
    Same (Untold history) (w.fire options now taken p) (w.fire options' now' taken q) := by
  have hleft : (p.current.depart options.recordHistory now taken).Agrees
      (q.current.depart false now' taken) := h.current.depart options.recordHistory false taken
  obtain ⟨ha, hagrees⟩ := hleft.arriveAll w now now' taken
  have hkept : ((q.current.depart false now' taken).arriveAll w now' taken).2.history =
      history := by
    rw [(Instance.arriveAll_frame _ w now' taken).2, Instance.history_depart_unrecorded, h.history]
  rw [Workflow.fire, Workflow.fire, hoptions]
  rcases hi : (p.current.depart options.recordHistory now taken).arriveAll w now taken with ⟨a, i⟩
  rcases hj : (q.current.depart false now' taken).arriveAll w now' taken with ⟨a', j⟩
  rw [hi, hj] at ha hagrees
  rw [hj] at hkept
  obtain rfl : a = a' := ha
  rcases a with e | ns
  · exact .mk _ ⟨hagrees, hkept, by rw [h.report], h.world⟩
  · exact .mk _ ⟨hagrees, hkept, by rw [h.report], h.world⟩

theorem pass (h : p.Untold history q) (hoptions : options'.recordHistory = false) :
    Same (Untold history) (w.pass inv site options now p) (w.pass inv site options' now' q) := by
  have hready : Same (Untold history) (w.ready inv site p) (w.ready inv site q) := h.ready
  rw [Workflow.pass_eq, Workflow.pass_eq]
  generalize w.ready inv site p = r at hready ⊢
  generalize w.ready inv site q = r' at hready ⊢
  cases hready with
  | @mk a p q h =>
    rcases a with e | _ | ⟨t, ts⟩
    · exact .mk _ h
    · simp only [Workflow.conclude, h.current.onlyFinished w]
      split
      · exact .mk _ ⟨h.current.complete, h.history, h.report, h.world⟩
      · exact .mk _ ⟨h.current.setWaiting, h.history, h.report, h.world⟩
    · have hfire : Same (Untold history) (w.fire options now (t :: ts) p)
          (w.fire options' now' (t :: ts) q) := h.fire hoptions (t :: ts)
      simp only [Workflow.conclude]
      generalize w.fire options now (t :: ts) p = r at hfire ⊢
      generalize w.fire options' now' (t :: ts) q = r' at hfire ⊢
      cases hfire with
      | mk a h => cases a <;> exact .mk _ h

theorem passes (h : p.Untold history q) (hoptions : options'.recordHistory = false) (k : Nat) :
    Same (Untold history) (w.passes inv site options now k p)
      (w.passes inv site options' now' k q) := by
  induction k generalizing p q with
  | zero => exact .mk _ ⟨h.current.setWaiting, h.history, h.report, h.world⟩
  | succ k ih =>
    have hpass : Same (Untold history) (w.pass inv site options now p)
      (w.pass inv site options' now' q) := h.pass hoptions
    rw [Workflow.passes, Workflow.passes]
    generalize w.pass inv site options now p = r at hpass ⊢
    generalize w.pass inv site options' now' q = r' at hpass ⊢
    cases hpass with
    | mk a h =>
      rcases a with e | b
      · exact .mk _ h
      cases b with
      | false => exact .mk _ h
      | true => exact ih h

end Progress.Untold

end Flowgraph
