import Flowgraph.Instance.Basic

namespace Flowgraph.Instance

structure Evolves (i j : Instance) : Prop where
  id : j.id = i.id
  workflow : j.workflow = i.workflow
  target : j.target = i.target
  created : j.created = i.created
  version : j.version = i.version
  failure : j.failure = i.failure
  history : i.history <+: j.history

namespace Evolves

theorem refl (i : Instance) : Evolves i i :=
  ⟨rfl, rfl, rfl, rfl, rfl, rfl, List.prefix_rfl⟩

theorem trans {i j k : Instance} (h : Evolves i j) (h' : Evolves j k) : Evolves i k where
  id := h'.id.trans h.id
  workflow := h'.workflow.trans h.workflow
  target := h'.target.trans h.target
  created := h'.created.trans h.created
  version := h'.version.trans h.version
  failure := h'.failure.trans h.failure
  history := h.history.trans h'.history

end Evolves

structure Retains (i j : Instance) : Prop where
  id : j.id = i.id
  workflow : j.workflow = i.workflow
  target : j.target = i.target
  created : j.created = i.created
  history : i.history <+: j.history

theorem Evolves.retains {i j : Instance} (h : Evolves i j) : Retains i j :=
  ⟨h.id, h.workflow, h.target, h.created, h.history⟩

namespace Retains

theorem refl (i : Instance) : Retains i i :=
  ⟨rfl, rfl, rfl, rfl, List.prefix_rfl⟩

theorem trans {i j k : Instance} (h : Retains i j) (h' : Retains j k) : Retains i k where
  id := h'.id.trans h.id
  workflow := h'.workflow.trans h.workflow
  target := h'.target.trans h.target
  created := h'.created.trans h.created
  history := h.history.trans h'.history

theorem restore_snapshot {i j : Instance} (h : Retains i j) : j.restore i.snapshot = i := by
  have hh : j.history.take i.history.length = i.history :=
    List.prefix_iff_eq_take.1 h.history ▸ rfl
  have hid := h.id
  have hw := h.workflow
  have ht := h.target
  have hc := h.created
  cases i
  cases j
  simp_all [restore, snapshot]

end Retains

theorem restore_snapshot {i j : Instance} (h : Evolves i j) : j.restore i.snapshot = i :=
  h.retains.restore_snapshot

theorem restore_fail (i : Instance) (f : Failure) : (i.fail f).restore i.snapshot = i := by
  simp [restore, snapshot, fail]

theorem evolves_setRunning (i : Instance) (now : Moment) : Evolves i (i.setRunning now) :=
  ⟨rfl, rfl, rfl, rfl, rfl, rfl, List.prefix_rfl⟩

theorem evolves_setWaiting (i : Instance) (now : Moment) : Evolves i (i.setWaiting now) :=
  ⟨rfl, rfl, rfl, rfl, rfl, rfl, List.prefix_rfl⟩

theorem evolves_complete (i : Instance) (now : Moment) : Evolves i (i.complete now) :=
  ⟨rfl, rfl, rfl, rfl, rfl, rfl, List.prefix_rfl⟩

theorem evolves_markEntered (i : Instance) (n : NodeId) : Evolves i (i.markEntered n) :=
  ⟨rfl, rfl, rfl, rfl, rfl, rfl, List.prefix_rfl⟩

theorem evolves_recordArrival (i : Instance) (n : NodeId) (t : TransitionId) :
    Evolves i (i.recordArrival n t) :=
  ⟨rfl, rfl, rfl, rfl, rfl, rfl, List.prefix_rfl⟩

theorem evolves_clearArrivals (i : Instance) (n : NodeId) : Evolves i (i.clearArrivals n) :=
  ⟨rfl, rfl, rfl, rfl, rfl, rfl, List.prefix_rfl⟩

theorem evolves_deactivate (i : Instance) (n : NodeId) (now : Moment) :
    Evolves i (i.deactivate n now) :=
  ⟨rfl, rfl, rfl, rfl, rfl, rfl, List.prefix_rfl⟩

theorem evolves_recordFiring (i : Instance) (t : Transition) (now : Moment) :
    Evolves i (i.recordFiring t now) :=
  ⟨rfl, rfl, rfl, rfl, rfl, rfl, List.prefix_append ..⟩

end Flowgraph.Instance
