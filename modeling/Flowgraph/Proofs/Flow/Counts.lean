import Flowgraph.Proofs.Run.Passes
import Mathlib.Algebra.Ring.Nat

namespace Flowgraph

theorem sum_count_ids {l : List Transition} (hl : (l.map (·.id)).Nodup) (taken : List Transition) :
    (l.map fun t => (taken.map (·.id)).count t.id).sum =
      taken.countP fun u => (l.map (·.id)).contains u.id := by
  induction taken with
  | nil => induction l <;> simp_all
  | cons u us ih =>
    have hone : (l.map fun t => if u.id = t.id then 1 else 0).sum = (l.map (·.id)).count u.id := by
      clear ih hl
      induction l with
      | nil => rfl
      | cons t ts iht =>
        rw [List.map_cons, List.sum_cons, iht, List.map_cons, List.count_cons]
        by_cases e : u.id = t.id
        · simp [e, Nat.add_comm]
        · have e' : t.id ≠ u.id := fun h => e h.symm
          simp [e, e']
    have hsum : (l.map fun t => ((u :: us).map (·.id)).count t.id).sum =
        (l.map fun t => (us.map (·.id)).count t.id).sum +
          (l.map fun t => if u.id = t.id then 1 else 0).sum := by
      clear ih hone hl
      induction l with
      | nil => rfl
      | cons t ts iht =>
        simp only [List.map_cons, List.sum_cons] at iht ⊢
        rw [iht, List.count_cons]
        simp only [beq_iff_eq]
        omega
    rw [hsum, ih, hone, hl.count, List.countP_cons]
    simp

namespace Workflow

variable {w : Workflow} {ns : List NodeId} {taken : List Transition}

theorem Selects.sum_outgoing (h : w.Selects ns taken) (n : NodeId) :
    ((w.outgoing n).map fun t => (taken.map (·.id)).count t.id).sum =
      (taken.filter (·.source = n)).length := by
  rw [sum_count_ids (nodup_outgoing_ids n), ← List.countP_eq_length_filter]
  refine List.countP_congr fun u hu => ?_
  have ht := h.transition hu
  rw [List.contains_iff_mem, List.mem_map, decide_eq_true_iff]
  constructor
  · rintro ⟨t, hm, e⟩
    rw [← eq_of_transition_id (mem_outgoing_iff.1 hm).1 ht e]
    exact (mem_outgoing_iff.1 hm).2
  · intro hs
    exact ⟨u, mem_outgoing_iff.2 ⟨ht, hs⟩, rfl⟩

theorem Selects.sum_incoming (h : w.Selects ns taken) (n : NodeId) :
    ((w.incoming n).map fun t => (taken.map (·.id)).count t.id).sum =
      (taken.filter (·.target = n)).length := by
  rw [sum_count_ids (nodup_incoming_ids n), ← List.countP_eq_length_filter]
  refine List.countP_congr fun u hu => ?_
  have ht := h.transition hu
  rw [List.contains_iff_mem, List.mem_map, decide_eq_true_iff]
  constructor
  · rintro ⟨t, hm, e⟩
    rw [← eq_of_transition_id (mem_incoming_iff.1 hm).1 ht e]
    exact (mem_incoming_iff.1 hm).2
  · intro hs
    exact ⟨u, mem_incoming_iff.2 ⟨ht, hs⟩, rfl⟩

theorem Selects.count_le (h : w.Selects ns taken) {n : NodeId} {t : Transition}
    (ht : t ∈ w.outgoing n) :
    (taken.map (·.id)).count t.id ≤ 1 ∧
      (taken.map (·.id)).count t.id ≤ (taken.filter (·.source = n)).length := by
  have hfilter : (taken.map (·.id)).count t.id =
      ((taken.filter (·.source = n)).map (·.id)).count t.id := by
    rw [List.count_eq_countP, List.count_eq_countP, List.countP_map, List.countP_map,
      List.countP_filter]
    refine List.countP_congr fun u hu => ?_
    simp only [Function.comp_apply, beq_iff_eq, Bool.and_eq_true, decide_eq_true_iff, iff_self_and]
    intro e
    rw [eq_of_transition_id (h.transition hu) (mem_outgoing_iff.1 ht).1 e]
    exact (mem_outgoing_iff.1 ht).2
  have hnodup : ((taken.filter (·.source = n)).map (·.id)).Nodup :=
    (nodup_outgoing_ids n).sublist ((h.sublist n).map _)
  rw [hfilter]
  constructor
  · exact List.nodup_iff_count.1 hnodup t.id
  · simpa using List.count_le_length (a := t.id) (l := (taken.filter (·.source = n)).map (·.id))

end Workflow

namespace Instance

variable {i j : Instance} {w : Workflow} {now : Moment} {t : Transition} {b : Bool}

def firesOf (i : Instance) (ts : List Transition) : Nat :=
  (ts.map fun t => i.fireCount t.id).sum

theorem firesOf_congr (h : j.history = i.history) (ts : List Transition) :
    j.firesOf ts = i.firesOf ts := by
  rw [firesOf, funext fun t : Transition => fireCount_congr h t.id, firesOf]

theorem firesOf_depart (taken l : List Transition) :
    (i.depart true now taken).firesOf l =
      i.firesOf l + (l.map fun t => (taken.map (·.id)).count t.id).sum := by
  induction l with
  | nil => rfl
  | cons t ts ih =>
    simp only [firesOf, List.map_cons, List.sum_cons, fireCount_depart] at ih ⊢
    omega

structure Steps (n : NodeId) (i j : Instance) : Prop where
  history : j.history = i.history
  arrivals : j.arrivals = i.arrivals
  visits : ∀ m, (j.visits m).toNat ≤ (i.visits m).toNat + if n = m then 1 else 0
  balance : ∀ m, (j.visits m).toNat + (i.isActive m).toNat =
    (i.visits m).toNat + (j.isActive m).toNat
  active : ∀ m, i.isActive m = true → j.isActive m = true

theorem activate_steps {n : NodeId} (h : i.activate w n now = (.ok b, j)) : Steps n i j := by
  rcases activate_ok h with ⟨-, -, rfl⟩ | ⟨ha, -, hv, rfl⟩
  · exact ⟨rfl, rfl, fun m => Nat.le_add_right _ _, fun m => rfl, fun m hm => hm⟩
  · refine ⟨rfl, rfl, fun m => ?_, fun m => ?_, fun m hm => ?_⟩
    · exact Nat.le_of_eq (visits_entering hv m)
    · rw [visits_entering hv, isActive_entering]
      by_cases e : n = m
      · subst e
        simp [ha]
      · simp [e]
    · rw [isActive_entering, hm, Bool.or_true]

theorem Arrives.balance (h : Arrives w now t i b j) :
    j.history = i.history ∧
      (∀ m, (j.visits m).toNat + (i.isActive m).toNat =
        (i.visits m).toNat + (j.isActive m).toNat) ∧
      ∀ m, i.isActive m = true → j.isActive m = true := by
  cases h with
  | any _ _ enter =>
    have hs := activate_steps enter
    exact ⟨hs.history, hs.balance, hs.active⟩
  | last _ _ _ enter =>
    have hs := activate_steps enter
    exact ⟨hs.history, hs.balance, hs.active⟩
  | waits => exact ⟨rfl, fun m => rfl, fun m hm => hm⟩

theorem arriveAll_cons_ok {ts : List Transition} {ns : List NodeId}
    (h : i.arriveAll w now (t :: ts) = (.ok ns, j)) :
    ∃ b k ms, i.arrive w now t = (.ok b, k) ∧ k.arriveAll w now ts = (.ok ms, j) ∧
      ns = if b then t.target :: ms else ms := by
  rw [arriveAll] at h
  rcases ht : i.arrive w now t with ⟨e | b, k⟩ <;> simp only [ht] at h
  · cases h
  rcases hr : k.arriveAll w now ts with ⟨e | ms, m⟩ <;> simp only [hr] at h <;> cases h
  exact ⟨b, k, ms, rfl, hr, rfl⟩

theorem arriveAll_run {Q : List Transition → Instance → Prop}
    (step : ∀ {t ts i b j}, w.transition? t.id = some t → Arrives w now t i b j →
      Q (t :: ts) i → Q ts j)
    {ts : List Transition} (hts : ∀ t ∈ ts, w.transition? t.id = some t) {ns : List NodeId}
    (h : i.arriveAll w now ts = (.ok ns, j)) (hi : Q ts i) : Q [] j := by
  induction ts generalizing i j ns with
  | nil =>
    cases h
    exact hi
  | cons t ts ih =>
    obtain ⟨b, k, ms, ht, hr, -⟩ := arriveAll_cons_ok h
    have hk : Q ts k := step (hts t List.mem_cons_self) (arrive_ok ht) hi
    exact ih (fun u hu => hts u (List.mem_cons_of_mem _ hu)) hr hk

theorem history_arriveAll {ts : List Transition} (hts : ∀ t ∈ ts, w.transition? t.id = some t)
    {ns : List NodeId} (h : i.arriveAll w now ts = (.ok ns, j)) : j.history = i.history :=
  arriveAll_run (Q := fun _ k => k.history = i.history) (fun _ ha hk => ha.balance.1.trans hk)
    hts h rfl

end Instance

end Flowgraph
