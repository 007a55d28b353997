import Flowgraph.Proofs.Instance.Shape
import Flowgraph.Proofs.Run.Conduct

namespace Flowgraph

inductive Alteration : Type 1
  | operate (w : Workflow) (op : Operation)
  | setVersion (v : UInt64)

namespace Handled

def alter (h : Handled) : Alteration → Handled
  | .operate w op => (op.perform w h).2
  | .setVersion v => { h with current := { h.current with version := v } }

def alterAll (h : Handled) (l : List Alteration) : Handled := l.foldl alter h

def saved (i : Instance) : Handled where
  current := i
  snapshots := [i.snapshot]

structure Retains (i : Instance) (h : Handled) : Prop where
  current : i.Retains h.current
  snapshots : ∀ s ∈ h.snapshots, i.history.length ≤ s.historyLength

end Handled

namespace Instance.Retains

variable {i j : Instance}

theorem restore (h : i.Retains j) {s : Snapshot} (hs : i.history.length ≤ s.historyLength) :
    i.Retains (j.restore s) :=
  ⟨h.id, h.workflow, h.target, h.created, List.prefix_take_iff.2 ⟨h.history, hs⟩⟩

theorem fail (i : Instance) (f : Failure) : i.Retains (i.fail f) :=
  ⟨rfl, rfl, rfl, rfl, List.prefix_rfl⟩

end Instance.Retains

namespace Handled.Retains

variable {i : Instance} {h : Handled}

theorem saved (i : Instance) : (Handled.saved i).Retains i where
  current := .refl i
  snapshots s hs := by
    obtain rfl := List.mem_singleton.1 hs
    exact Nat.le_refl _

theorem move (hh : h.Retains i) {j : Instance} (hj : h.current.Retains j) :
    Handled.Retains i { h with current := j } :=
  ⟨hh.current.trans hj, hh.snapshots⟩

theorem perform (hh : h.Retains i) (w : Workflow) (op : Operation) :
    (op.perform w h).2.Retains i := by
  cases op with
  | activate v n now =>
    rw [Operation.perform]
    rcases Instance.activate_error_or_ok h.current v n now with ⟨e, ha⟩ | ⟨b, j, ha⟩ <;> rw [ha]
    · exact hh
    · exact hh.move (Instance.activate_evolves ha).retains
  | deactivate n now => exact hh.move (Instance.evolves_deactivate _ n now).retains
  | markEntered n => exact hh.move (Instance.evolves_markEntered _ n).retains
  | recordArrival n t => exact hh.move (Instance.evolves_recordArrival _ n t).retains
  | clearArrivals n => exact hh.move (Instance.evolves_clearArrivals _ n).retains
  | recordFiring t now => exact hh.move (Instance.evolves_recordFiring _ t now).retains
  | setRunning now => exact hh.move (Instance.evolves_setRunning _ now).retains
  | setWaiting now => exact hh.move (Instance.evolves_setWaiting _ now).retains
  | complete now => exact hh.move (Instance.evolves_complete _ now).retains
  | fail f => exact hh.move (.fail h.current f)
  | snapshot =>
    refine ⟨hh.current, fun s hs => ?_⟩
    rcases List.mem_append.1 hs with hs | hs
    · exact hh.snapshots s hs
    · -- A snapshot that is taken now is at least as long as the history has been since.
      obtain rfl := List.mem_singleton.1 hs
      exact hh.current.history.length_le
  | restore k =>
    rw [Operation.perform]
    rcases hk : h.snapshots[k]? with _ | s
    · exact hh
    · exact ⟨hh.current.restore (hh.snapshots s (List.mem_of_getElem? hk)), hh.snapshots⟩
  | advance inv options now actor s =>
    rw [Operation.perform]
    rcases hr : w.advance inv options now actor h.current s with ⟨r, j, s'⟩
    exact hh.move (Workflow.evolves_of_advance hr).retains

theorem alter (hh : h.Retains i) (a : Alteration) : (h.alter a).Retains i := by
  cases a with
  | operate w op => exact hh.perform w op
  | setVersion v => exact hh.move ⟨rfl, rfl, rfl, rfl, List.prefix_rfl⟩

theorem alterAll (hh : h.Retains i) (l : List Alteration) : (h.alterAll l).Retains i := by
  induction l generalizing h with
  | nil => exact hh
  | cons a l ih => exact ih (hh.alter a)

theorem restore (hh : h.Retains i) : h.current.restore i.snapshot = i :=
  hh.current.restore_snapshot

end Handled.Retains

theorem Handled.restore_exact (i : Instance) (before after : List Alteration) :
    let h := (saved i).alterAll before
    let back : Handled := { h with current := h.current.restore i.snapshot }
    back.current = i ∧ (back.alterAll after).current.restore i.snapshot = i := by
  have hh : ((saved i).alterAll before).Retains i := (Retains.saved i).alterAll before
  have hback := hh.restore
  refine ⟨hback, ?_⟩
  have hagain : Handled.Retains i
      { (saved i).alterAll before with
        current := ((saved i).alterAll before).current.restore i.snapshot } :=
    ⟨hback.symm ▸ .refl i, hh.snapshots⟩
  exact (hagain.alterAll after).restore

end Flowgraph
