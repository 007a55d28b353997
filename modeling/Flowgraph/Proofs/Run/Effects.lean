import Flowgraph.Engine.Advance
import Flowgraph.Proofs.Graph.Ends

namespace Flowgraph

theorem Workflow.requireNode_ok {w : Workflow} {n : NodeId} {x : Node}
    (h : w.requireNode n = .ok x) : w.node? n = some x := by
  rw [requireNode] at h
  cases hn : w.node? n with
  | none => simp [hn] at h
  | some y =>
    simp only [hn, Except.ok.injEq] at h
    rw [h]

namespace Instance

def fireCount (i : Instance) (t : TransitionId) : Nat := (i.history.map (·.transition)).count t

def hasArrived (i : Instance) (n : NodeId) (t : TransitionId) : Bool :=
  (i.arrivalsAt n).contains t

def entering (i : Instance) (n : NodeId) (now : Moment) : Instance :=
  { i with
    visitCounts := i.visitCounts.insert n (i.visits n + 1)
    active := i.active.add n
    pending := i.pending.add n
    updated := now }

variable {i j : Instance} {w : Workflow} {now : Moment}

inductive Activates (w : Workflow) (n : NodeId) (now : Moment) (i : Instance) :
    Except WorkflowError Bool × Instance → Prop
  | stranger (differs : i.workflow ≠ w.id) :
      Activates w n now i (.error (.wrongWorkflow i.workflow w.id), i)
  | unknown (missing : w.contains n = false) : Activates w n now i (.error (.nodeNotFound n), i)
  | stays (owned : i.workflow = w.id) (known : w.contains n = true) (active : i.isActive n = true) :
      Activates w n now i (.ok false, i)
  | overflows (known : w.contains n = true) (inactive : i.isActive n = false)
      (full : i.visits n = 4294967295) : Activates w n now i (.error (.overflow n), i)
  | exceeds {v : UInt32} (known : w.contains n = true) (inactive : i.isActive n = false)
      (next : v.toNat = (i.visits n).toNat + 1) (beyond : w.visitLimit < v) :
      Activates w n now i (.error (.visitLimit n v w.visitLimit), i)
  | enters (owned : i.workflow = w.id) (known : w.contains n = true)
      (inactive : i.isActive n = false) (room : (i.visits n).toNat < w.visitLimit.toNat) :
      Activates w n now i (.ok true, i.entering n now)

theorem activate_spec (i : Instance) (w : Workflow) (n : NodeId) (now : Moment) :
    Activates w n now i (i.activate w n now) := by
  rw [activate]
  split
  case isTrue hid => exact .stranger hid
  case isFalse hid =>
    have howned := Decidable.not_not.1 hid
    split
    case isTrue hn => exact .unknown (by simpa using hn)
    case isFalse hn =>
      have hknown : w.contains n = true := by simpa using hn
      split
      case isTrue ha => exact .stays howned hknown ha
      case isFalse ha =>
        have hinactive : i.isActive n = false := by simpa using ha
        split
        case h_1 hv => exact .overflows hknown hinactive (UInt32.next?_eq_none.1 hv)
        case h_2 v hv =>
          have hnext := UInt32.next?_eq_some.1 hv
          split
          case isTrue hlt => exact .exceeds hknown hinactive hnext hlt
          case isFalse hle =>
            have hroom := mt UInt32.lt_iff_toNat_lt.2 hle
            obtain rfl := UInt32.eq_of_next? hv
            exact .enters howned hknown hinactive (by omega)

theorem activate_ok {n : NodeId} {b : Bool} (h : i.activate w n now = (.ok b, j)) :
    (i.isActive n = true ∧ b = false ∧ j = i) ∨
      (i.isActive n = false ∧ b = true ∧ (i.visits n).toNat < w.visitLimit.toNat ∧
        j = i.entering n now) := by
  have hspec := activate_spec i w n now
  rw [h] at hspec
  cases hspec with
  | stays _ _ active => exact .inl ⟨active, rfl, rfl⟩
  | enters _ _ inactive room => exact .inr ⟨inactive, rfl, room, rfl⟩

theorem activate_of_active {n : NodeId} (owned : i.workflow = w.id) (known : w.contains n = true)
    (active : i.isActive n = true) : i.activate w n now = (.ok false, i) := by
  have hspec := activate_spec i w n now
  generalize i.activate w n now = r at hspec
  cases hspec <;> simp_all

theorem activate_of_room {n : NodeId} (owned : i.workflow = w.id) (known : w.contains n = true)
    (inactive : i.isActive n = false) (room : (i.visits n).toNat < w.visitLimit.toNat) :
    i.activate w n now = (.ok true, i.entering n now) := by
  have hlt := w.visitLimit.toNat_lt
  have hspec := activate_spec i w n now
  generalize i.activate w n now = r at hspec
  cases hspec with
  | stranger differs => exact absurd owned differs
  | unknown missing => simp [known] at missing
  | stays _ _ active => simp [inactive] at active
  | overflows _ _ full =>
    rw [full] at room
    exact absurd room (by simp only [UInt32.reduceToNat]; omega)
  | exceeds _ _ next beyond =>
    rw [UInt32.lt_iff_toNat_lt] at beyond
    omega
  | enters => rfl

theorem activate_unchanged {n : NodeId} {e : WorkflowError}
    (h : (i.activate w n now).1 = .error e) : (i.activate w n now).2 = i := by
  cases hr : i.activate w n now with
  | mk r j =>
    have hspec := activate_spec i w n now
    rw [hr] at h hspec
    cases hspec <;> first | rfl | cases h

theorem activate_error_or_ok (i : Instance) (w : Workflow) (n : NodeId) (now : Moment) :
    (∃ e, i.activate w n now = (.error e, i)) ∨ ∃ b j, i.activate w n now = (.ok b, j) := by
  rcases hr : i.activate w n now with ⟨e | b, j⟩
  · have hsame : (i.activate w n now).2 = i := activate_unchanged (by rw [hr])
    rw [hr] at hsame
    exact .inl ⟨e, Prod.ext rfl hsame⟩
  · exact .inr ⟨b, j, rfl⟩

theorem isActive_entering (n m : NodeId) :
    (i.entering n now).isActive m = (decide (n = m) || i.isActive m) :=
  Keyed.contains_add i.active n m

theorem visits_entering {n : NodeId} (h : (i.visits n).toNat < w.visitLimit.toNat) (m : NodeId) :
    ((i.entering n now).visits m).toNat = (i.visits m).toNat + if n = m then 1 else 0 := by
  have hlt := w.visitLimit.toNat_lt
  by_cases e : n = m
  · subst e
    have hs : (i.visits n).toNat + 1 < 2 ^ 32 := by omega
    rw [visits, entering, Keyed.get?_insert_self, Option.getD_some, if_pos rfl, UInt32.toNat_add]
    exact Nat.mod_eq_of_lt hs
  · simp [visits, entering, Keyed.get?_insert, e]

theorem fireCount_congr (h : j.history = i.history) (t : TransitionId) :
    j.fireCount t = i.fireCount t := by
  rw [fireCount, h, fireCount]

theorem hasArrived_congr (h : j.arrivals = i.arrivals) (n : NodeId) (t : TransitionId) :
    j.hasArrived n t = i.hasArrived n t := by
  rw [hasArrived, arrivalsAt, h, hasArrived, arrivalsAt]

theorem hasArrived_recordArrival (n m : NodeId) (t u : TransitionId) :
    (i.recordArrival n t).hasArrived m u =
      (decide (n = m ∧ t = u) || i.hasArrived m u) := by
  by_cases e : n = m
  · subst e
    simp [hasArrived, arrivalsAt, recordArrival, Keyed.contains_add]
  · simp [hasArrived, arrivalsAt, recordArrival, Keyed.get?_insert, e]

theorem hasArrived_clearArrivals (n m : NodeId) (u : TransitionId) :
    (i.clearArrivals n).hasArrived m u = (!decide (n = m) && i.hasArrived m u) := by
  by_cases e : n = m
  · subst e
    simp [hasArrived, arrivalsAt, clearArrivals, Keyed.get?_erase]
  · simp [hasArrived, arrivalsAt, clearArrivals, Keyed.get?_erase, e]

variable {record : Bool} {ts : List Transition}

@[simp] theorem visits_depart (n : NodeId) : (i.depart record now ts).visits n = i.visits n := by
  induction ts generalizing i with
  | nil => rfl
  | cons t ts ih => cases record <;> exact ih

@[simp] theorem arrivals_depart : (i.depart record now ts).arrivals = i.arrivals := by
  induction ts generalizing i with
  | nil => rfl
  | cons t ts ih => cases record <;> exact ih

theorem isActive_depart (n : NodeId) :
    (i.depart record now ts).isActive n = (i.isActive n && !(ts.map (·.source)).contains n) := by
  induction ts generalizing i with
  | nil => simp [depart]
  | cons t ts ih =>
    have hd : ∀ k : Instance, k.active = (i.deactivate t.source now).active →
        (k.depart record now ts).isActive n =
          (i.isActive n && !((t :: ts).map (·.source)).contains n) := by
      intro k hk
      rw [ih, isActive, hk, isActive, deactivate, Keyed.contains_erase]
      by_cases e : t.source = n
      · simp [e]
      · have e' : n ≠ t.source := fun h => e h.symm
        simp [e, e']
    cases record <;> exact hd _ rfl

theorem fireCount_recordFiring (t : Transition) (u : TransitionId) :
    (i.recordFiring t now).fireCount u = i.fireCount u + if t.id = u then 1 else 0 := by
  by_cases e : t.id = u <;> simp [fireCount, recordFiring, e]

theorem fireCount_depart (u : TransitionId) :
    (i.depart true now ts).fireCount u = i.fireCount u + (ts.map (·.id)).count u := by
  induction ts generalizing i with
  | nil => rfl
  | cons t ts ih =>
    have hd : (i.deactivate t.source now).fireCount u = i.fireCount u := rfl
    rw [depart, if_pos rfl, ih, fireCount_recordFiring, hd, List.map_cons, List.count_cons]
    simp only [beq_iff_eq]
    omega

theorem history_depart : (i.depart record now ts).history.map (·.transition) =
    i.history.map (·.transition) ++ if record then ts.map (·.id) else [] := by
  induction ts generalizing i with
  | nil => simp [depart]
  | cons t ts ih =>
    rw [depart, ih]
    cases record <;> simp [deactivate, recordFiring]

inductive Arrives (w : Workflow) (now : Moment) (t : Transition) (i : Instance) :
    Bool → Instance → Prop
  | any {x : Node} {b : Bool} {j : Instance} (node : w.node? t.target = some x)
      (gate : x.join = .or) (enter : i.activate w t.target now = (.ok b, j)) : Arrives w now t i b j
  | last {x : Node} {b : Bool} {j : Instance} (node : w.node? t.target = some x)
      (gate : x.join = .and)
      (all : ∀ u ∈ w.incoming t.target, (i.recordArrival t.target t.id).hasArrived t.target u.id)
      (enter : ((i.recordArrival t.target t.id).clearArrivals t.target).activate w t.target now =
        (.ok b, j)) : Arrives w now t i b j
  | waits {x : Node} (node : w.node? t.target = some x) (gate : x.join = .and) {u : Transition}
      (mem : u ∈ w.incoming t.target)
      (missing : (i.recordArrival t.target t.id).hasArrived t.target u.id = false) :
      Arrives w now t i false (i.recordArrival t.target t.id)

theorem arrive_ok {t : Transition} {b : Bool} (h : i.arrive w now t = (.ok b, j)) :
    Arrives w now t i b j := by
  rw [arrive] at h
  cases hx : w.requireNode t.target with
  | error e => simp [hx] at h
  | ok x =>
    have hn := Workflow.requireNode_ok hx
    have hid := Workflow.node_id hn
    simp only [hx, hid] at h
    cases hg : x.join with
    | or =>
      have hj : w.joinHolds x (Keyed.empty.add t.id) = true := by
        simp [Workflow.joinHolds, hg, Keyed.isEmpty_eq_false_iff, Keyed.contains_add]
      simp only [hg, hj, if_true] at h
      exact .any hn hg h
    | and =>
      simp only [hg] at h
      split at h
      case isTrue hj =>
        simp only [Workflow.joinHolds, hg, hid, List.all_eq_true] at hj
        exact .last hn hg hj h
      case isFalse hj =>
        simp only [Workflow.joinHolds, hg, hid, List.all_eq_true, Classical.not_forall] at hj
        obtain ⟨u, hu, hm⟩ := hj
        simp only [Prod.mk.injEq, Except.ok.injEq] at h
        rw [← h.1, ← h.2]
        exact .waits hn hg hu (by simpa [hasArrived] using hm)

end Instance

end Flowgraph
