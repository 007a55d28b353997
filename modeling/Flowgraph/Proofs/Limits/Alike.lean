import Flowgraph.Engine.Advance

namespace Flowgraph

def Firing.event (f : Firing) : Nat × TransitionId × NodeId × NodeId :=
  (f.sequence, f.transition, f.source, f.target)

namespace Instance

structure Alike (i j : Instance) : Prop where
  id : i.id = j.id
  workflow : i.workflow = j.workflow
  target : i.target = j.target
  failure : i.failure = j.failure
  history : i.history.map Firing.event = j.history.map Firing.event
  version : i.version = j.version
  created : i.created = j.created
  completed : i.completed.isSome = j.completed.isSome
  active : i.active = j.active
  visitCounts : i.visitCounts = j.visitCounts
  arrivals : i.arrivals = j.arrivals
  pending : i.pending = j.pending

namespace Alike

variable {i j k : Instance} {w : Workflow} {now now' : Moment} {n : NodeId} {t : Transition}

theorem refl (i : Instance) : i.Alike i :=
  ⟨rfl, rfl, rfl, rfl, rfl, rfl, rfl, rfl, rfl, rfl, rfl, rfl⟩

theorem trans (h : i.Alike j) (h' : j.Alike k) : i.Alike k where
  id := h.id.trans h'.id
  workflow := h.workflow.trans h'.workflow
  target := h.target.trans h'.target
  failure := h.failure.trans h'.failure
  history := h.history.trans h'.history
  version := h.version.trans h'.version
  created := h.created.trans h'.created
  completed := h.completed.trans h'.completed
  active := h.active.trans h'.active
  visitCounts := h.visitCounts.trans h'.visitCounts
  arrivals := h.arrivals.trans h'.arrivals
  pending := h.pending.trans h'.pending

theorem setWaiting (h : i.Alike j) : i.Alike (j.setWaiting now) :=
  { h with }

theorem complete (h : i.Alike j) : (i.complete now).Alike (j.complete now') :=
  { h with completed := rfl }

theorem markEntered (h : i.Alike j) : (i.markEntered n).Alike (j.markEntered n) :=
  { h with pending := congrArg (·.erase n) h.pending }

theorem deactivate (h : i.Alike j) : (i.deactivate n now).Alike (j.deactivate n now') :=
  { h with
    active := congrArg (·.erase n) h.active
    pending := congrArg (·.erase n) h.pending }

theorem recordFiring (h : i.Alike j) : (i.recordFiring t now).Alike (j.recordFiring t now') := by
  have hlength : i.history.length = j.history.length := by
    simpa using congrArg List.length h.history
  refine { h with history := ?_ }
  simp only [Instance.recordFiring, List.map_append, h.history, hlength]
  rfl

theorem recordArrival (h : i.Alike j) (u : TransitionId) :
    (i.recordArrival n u).Alike (j.recordArrival n u) := by
  refine { h with arrivals := ?_ }
  simp only [Instance.recordArrival, arrivalsAt, h.arrivals]

theorem clearArrivals (h : i.Alike j) : (i.clearArrivals n).Alike (j.clearArrivals n) :=
  { h with arrivals := congrArg (·.erase n) h.arrivals }

theorem activate (h : i.Alike j) (w : Workflow) (n : NodeId) (now now' : Moment) :
    (i.activate w n now).1 = (j.activate w n now').1 ∧
      (i.activate w n now).2.Alike (j.activate w n now').2 := by
  have hactive : i.isActive n = j.isActive n := congrArg (·.contains n) h.active
  have hvisits : i.visits n = j.visits n := congrArg (fun c => (c.get? n).getD 0) h.visitCounts
  simp only [Instance.activate, h.workflow, hactive, hvisits]
  split
  · exact ⟨rfl, h⟩
  split
  · exact ⟨rfl, h⟩
  split
  · exact ⟨rfl, h⟩
  split
  · exact ⟨rfl, h⟩
  case h_2 v _ =>
    split
    · exact ⟨rfl, h⟩
    · exact ⟨rfl, { h with
        workflow := rfl
        active := congrArg (·.add n) h.active
        visitCounts := congrArg (·.insert n v) h.visitCounts
        pending := congrArg (·.add n) h.pending }⟩

theorem depart (h : i.Alike j) (record : Bool) (ts : List Transition) :
    (i.depart record now ts).Alike (j.depart record now' ts) := by
  induction ts generalizing i j with
  | nil => exact h
  | cons t ts ih =>
    cases record with
    | false => exact ih h.deactivate
    | true => exact ih h.deactivate.recordFiring

theorem arrive (h : i.Alike j) (w : Workflow) (now now' : Moment) (t : Transition) :
    (i.arrive w now t).1 = (j.arrive w now' t).1 ∧
      (i.arrive w now t).2.Alike (j.arrive w now' t).2 := by
  rw [Instance.arrive, Instance.arrive]
  rcases w.requireNode t.target with e | x
  · exact ⟨rfl, h⟩
  cases hg : x.join with
  | or =>
    simp only [hg]
    split
    · exact h.activate w x.id now now'
    · exact ⟨rfl, h⟩
  | and =>
    have hrec := h.recordArrival (n := x.id) t.id
    have harrivals : (i.recordArrival x.id t.id).arrivalsAt x.id =
        (j.recordArrival x.id t.id).arrivalsAt x.id := by
      rw [arrivalsAt, hrec.arrivals, arrivalsAt]
    simp only [hg, harrivals]
    split
    · exact hrec.clearArrivals.activate w x.id now now'
    · exact ⟨rfl, hrec⟩

theorem arriveAll (h : i.Alike j) (w : Workflow) (now now' : Moment) (ts : List Transition) :
    (i.arriveAll w now ts).1 = (j.arriveAll w now' ts).1 ∧
      (i.arriveAll w now ts).2.Alike (j.arriveAll w now' ts).2 := by
  induction ts generalizing i j with
  | nil => exact ⟨rfl, h⟩
  | cons t ts ih =>
    obtain ⟨hr, hk⟩ := h.arrive w now now' t
    rw [Instance.arriveAll, Instance.arriveAll]
    rcases hi : i.arrive w now t with ⟨r, i'⟩
    rcases hj : j.arrive w now' t with ⟨r', j'⟩
    rw [hi, hj] at hr hk
    obtain rfl : r = r' := hr
    rcases r with e | b
    · exact ⟨rfl, hk⟩
    obtain ⟨hr, hm⟩ := ih hk
    simp only
    rcases hi' : i'.arriveAll w now ts with ⟨r, i''⟩
    rcases hj' : j'.arriveAll w now' ts with ⟨r', j''⟩
    rw [hi', hj'] at hr hm
    obtain rfl : r = r' := hr
    rcases r with e | ns
    · exact ⟨rfl, hm⟩
    · exact ⟨rfl, hm⟩

end Alike

end Instance

structure Progress.Resumes {ω : Type} (before : Report) (p q : Progress ω) : Prop where
  current : p.current.Alike q.current
  world : p.world = q.world
  passes : p.report.passes.toNat = before.passes.toNat + q.report.passes.toNat
  activated : p.report.activated = before.activated ++ q.report.activated
  fired : p.report.fired = before.fired ++ q.report.fired

structure Parallel {ω α : Type} (before : Report) (r r' : Except EngineError α × Progress ω) :
    Prop where
  answer : r.1 = r'.1
  progress : r.2.Resumes before r'.2

namespace Progress.Resumes

variable {ω : Type} {before : Report} {p q : Progress ω} {w : Workflow} {inv : Invoker ω}
  {site : Site} {options : Options} {now now' : Moment}

theorem refl (p : Progress ω) : p.Resumes {} p :=
  ⟨.refl p.current, rfl, (Nat.zero_add _).symm, rfl, rfl⟩

theorem enter (h : p.Resumes before q) (ns : List NodeId) :
    Parallel before (w.enter inv site ns p) (w.enter inv site ns q) := by
  induction ns generalizing p q with
  | nil => exact ⟨rfl, h⟩
  | cons n ns ih =>
    rw [Workflow.enter, Workflow.enter, h.world]
    rcases w.requireNode n with e | x
    · exact ⟨rfl, h⟩
    rcases hk : x.action with _ | key <;> simp only [hk]
    · exact ih ⟨h.current.markEntered, rfl, h.passes, h.activated, h.fired⟩
    rcases inv.action key (site.atNode n) q.world with ⟨c | v, s⟩
    · exact ⟨rfl, h.current, rfl, h.passes, h.activated, h.fired⟩
    · exact ih ⟨h.current.markEntered, rfl, h.passes, h.activated, h.fired⟩

theorem fire (h : p.Resumes before q) (taken : List Transition) :
    Parallel before (w.fire options now taken p) (w.fire options now' taken q) := by
  have hfired : p.report.fired ++ taken.map (·.id) =
      before.fired ++ (q.report.fired ++ taken.map (·.id)) := by
    rw [h.fired, List.append_assoc]
  have hactivated : ∀ ns, p.report.activated ++ ns =
      before.activated ++ (q.report.activated ++ ns) := by
    intro ns
    rw [h.activated, List.append_assoc]
  have hleft : (p.current.depart options.recordHistory now taken).Alike
      (q.current.depart options.recordHistory now' taken) :=
    h.current.depart options.recordHistory taken
  obtain ⟨hr, hk⟩ := hleft.arriveAll w now now' taken
  rw [Workflow.fire, Workflow.fire]
  rcases hi : (p.current.depart options.recordHistory now taken).arriveAll w now taken with ⟨r, i⟩
  rcases hj : (q.current.depart options.recordHistory now' taken).arriveAll w now' taken with
    ⟨r', j⟩
  rw [hi, hj] at hr hk
  obtain rfl : r = r' := hr
  rcases r with e | ns
  · exact ⟨rfl, hk, h.world, h.passes, h.activated, hfired⟩
  · exact ⟨rfl, hk, h.world, h.passes, hactivated ns, hfired⟩

theorem sweep (h : p.Resumes before q) :
    Parallel before (w.sweep inv site options now p) (w.sweep inv site options now' q) ∧
      ((w.sweep inv site options now p).1 = .ok false →
        (w.sweep inv site options now p).2.current.status =
          (w.sweep inv site options now' q).2.current.status) := by
  obtain ⟨ha, hp⟩ : Parallel before (w.enter inv site p.current.pending.keys p)
      (w.enter inv site p.current.pending.keys q) := h.enter p.current.pending.keys
  rw [Workflow.sweep, Workflow.sweep, ← h.current.pending]
  rcases he : w.enter inv site p.current.pending.keys p with ⟨r, p₁⟩
  rcases he' : w.enter inv site p.current.pending.keys q with ⟨r', q₁⟩
  rw [he, he'] at ha hp
  obtain rfl : r = r' := ha
  replace hp : p₁.Resumes before q₁ := hp
  rcases r with e | _
  · exact ⟨⟨rfl, hp⟩, fun hc => by cases hc⟩
  have hends : p₁.current.onlyFinished w = q₁.current.onlyFinished w := by
    rw [Instance.onlyFinished, hp.current.active, Instance.onlyFinished]
  simp only [hends, hp.current.active, hp.world]
  split
  · exact ⟨⟨rfl, hp.current.complete, rfl, hp.passes, hp.activated, hp.fired⟩, fun _ => rfl⟩
  rcases w.splitAll inv site q₁.current.active.keys q₁.world with ⟨e | taken, s⟩
  · exact ⟨⟨rfl, hp.current, rfl, hp.passes, hp.activated, hp.fired⟩, fun hc => by cases hc⟩
  rcases taken with _ | ⟨t, ts⟩
  · exact ⟨⟨rfl, { hp.current with }, rfl, hp.passes, hp.activated, hp.fired⟩, fun _ => rfl⟩
  have hmid : Resumes before { p₁ with world := s } { q₁ with world := s } :=
    ⟨hp.current, rfl, hp.passes, hp.activated, hp.fired⟩
  obtain ⟨ha, hf⟩ : Parallel before (w.fire options now (t :: ts) _)
      (w.fire options now' (t :: ts) _) := hmid.fire (t :: ts)
  rcases hi : w.fire options now (t :: ts) { p₁ with world := s } with ⟨r, p₂⟩
  rcases hj : w.fire options now' (t :: ts) { q₁ with world := s } with ⟨r', q₂⟩
  rw [hi, hj] at ha hf
  obtain rfl : r = r' := ha
  simp only [hi, hj]
  rcases r with e | _
  · exact ⟨⟨rfl, hf⟩, fun hc => by cases hc⟩
  · exact ⟨⟨rfl, hf⟩, fun hc => by cases hc⟩

theorem pass (h : p.Resumes before q) (hroom : p.report.passes.next? ≠ none) :
    Parallel before (w.pass inv site options now p) (w.pass inv site options now' q) ∧
      ((w.pass inv site options now p).1 = .ok false →
        (w.pass inv site options now p).2.current.status =
          (w.pass inv site options now' q).2.current.status) := by
  obtain ⟨k, hk⟩ := Option.ne_none_iff_exists'.1 hroom
  have hp := UInt32.next?_eq_some.1 hk
  have hlt := k.toNat_lt_size
  have hpasses := h.passes
  obtain ⟨m, hm⟩ := UInt32.exists_next? (n := q.report.passes) (by omega)
  have hq := UInt32.next?_eq_some.1 hm
  rw [Workflow.pass, Workflow.pass, hk, hm]
  refine sweep ⟨h.current, h.world, ?_, h.activated, h.fired⟩
  change k.toNat = before.passes.toNat + m.toNat
  omega

theorem step (h : p.Resumes before q) (hroom : p.report.passes.next? ≠ none)
    {a : Except EngineError Bool} {p' : Progress ω}
    (step : w.pass inv site options now p = (a, p')) (now' : Moment) :
    ∃ q', w.pass inv site options now' q = (a, q') ∧ p'.Resumes before q' ∧
      (a = .ok false → p'.current.status = q'.current.status) := by
  obtain ⟨⟨ha, hp⟩, hstatus⟩ : Parallel before (w.pass inv site options now p)
      (w.pass inv site options now' q) ∧ _ := h.pass hroom
  rw [step] at ha hp hstatus
  exact ⟨(w.pass inv site options now' q).2, Prod.ext ha.symm rfl, hp, hstatus⟩

end Progress.Resumes

end Flowgraph
