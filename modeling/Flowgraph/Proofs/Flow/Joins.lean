import Flowgraph.Proofs.Flow.Counts

namespace Flowgraph

def Workflow.startVisits (w : Workflow) (n : NodeId) : Nat := if n = w.root then 1 else 0

namespace Instance

variable {w : Workflow} {i j : Instance} {ts : List Transition} {t : Transition} {now : Moment}

structure JoinsHold (w : Workflow) (ts : List Transition) (i : Instance) : Prop where
  all : ∀ {n x t}, w.node? n = some x → x.join = .and → t ∈ w.incoming n →
    (i.visits n).toNat + (i.hasArrived n t.id).toNat + (ts.map (·.id)).count t.id ≤
      i.fireCount t.id + w.startVisits n
  any : ∀ {n x}, w.node? n = some x → x.join = .or →
    (i.visits n).toNat + (ts.filter (·.target = n)).length ≤
      i.firesOf (w.incoming n) + w.startVisits n
  waiting : ∀ {n a}, i.arrivals.get? n = some a →
    (∃ x, w.node? n = some x ∧ x.join = .and) ∧ a.isEmpty = false ∧
      (∀ k, a.contains k = true → ∃ t ∈ w.incoming n, t.id = k) ∧
      ∃ t ∈ w.incoming n, a.contains t.id = false

theorem visits_start (id : InstanceId) (target : Target) (n : NodeId) :
    ((start w id target now).visits n).toNat = w.startVisits n := by
  by_cases e : n = w.root
  · subst e
    simp [visits, start, Workflow.startVisits]
  · have e' : w.root ≠ n := fun h => e h.symm
    simp [visits, start, Workflow.startVisits, Keyed.get?_insert, e, e']

theorem joinsHold_start (w : Workflow) (id : InstanceId) (target : Target) (now : Moment) :
    JoinsHold w [] (.start w id target now) := by
  refine ⟨fun {n x t} _ _ _ => ?_, fun {n x} _ _ => ?_, fun h => by cases h⟩
  · have ha : (start w id target now).hasArrived n t.id = false := rfl
    simp only [visits_start, ha, Bool.toNat_false, List.map_nil, List.count_nil]
    omega
  · simp only [visits_start, List.filter_nil, List.length_nil]
    omega

theorem count_cons_id (t u : Transition) (ts : List Transition) :
    ((t :: ts).map (·.id)).count u.id =
      (ts.map (·.id)).count u.id + if t.id = u.id then 1 else 0 := by
  rw [List.map_cons, List.count_cons]
  simp

theorem filter_cons_target (t : Transition) (ts : List Transition) (n : NodeId) :
    ((t :: ts).filter (·.target = n)).length =
      (ts.filter (·.target = n)).length + if t.target = n then 1 else 0 := by
  by_cases e : t.target = n <;> simp [e]

theorem joinsHold_any {x : Node} (hx : w.node? t.target = some x) (hg : x.join = .or)
    (hs : Steps t.target i j) (h : JoinsHold w (t :: ts) i) : JoinsHold w ts j := by
  -- the visit is paid for by the arrival of `t`, which is no longer under way
  refine ⟨fun {n y u} hy hj hu => ?_, fun {n y} hy hj => ?_, fun hget => ?_⟩
  · have hne : t.target ≠ n := Workflow.ne_of_join hx hy (by rw [hg, hj]; decide)
    have hall := h.all hy hj hu
    have hvis := hs.visits n
    rw [count_cons_id] at hall
    rw [if_neg hne] at hvis
    rw [fireCount_congr hs.history, hasArrived_congr hs.arrivals]
    omega
  · have hany := h.any hy hj
    have hvis := hs.visits n
    rw [filter_cons_target] at hany
    rw [firesOf_congr hs.history]
    omega
  · rw [hs.arrivals] at hget
    exact h.waiting hget

theorem joinsHold_last {x : Node} (hx : w.node? t.target = some x) (hg : x.join = .and)
    (hall : ∀ u ∈ w.incoming t.target, (i.recordArrival t.target t.id).hasArrived t.target u.id)
    (hs : Steps t.target ((i.recordArrival t.target t.id).clearArrivals t.target) j)
    (h : JoinsHold w (t :: ts) i) : JoinsHold w ts j := by
  have hhist : j.history = i.history := hs.history
  have ha : ∀ n u, j.hasArrived n u = (!decide (t.target = n) && i.hasArrived n u) := by
    intro n u
    rw [hasArrived_congr hs.arrivals, hasArrived_clearArrivals, hasArrived_recordArrival]
    by_cases e : t.target = n <;> simp [e]
  have hv : ∀ n, (j.visits n).toNat ≤ (i.visits n).toNat + if t.target = n then 1 else 0 :=
    hs.visits
  refine ⟨fun {n y u} hy hj hu => ?_, fun {n y} hy hj => ?_, fun {n a} hget => ?_⟩
  · have hbefore := h.all hy hj hu
    have hvis := hv n
    rw [count_cons_id] at hbefore
    rw [fireCount_congr hhist, ha]
    by_cases e : t.target = n
    -- the visit is paid for by one arrival of each transition: `t` now, the others before
    · subst e
      have hu' := hall u hu
      rw [hasArrived_recordArrival] at hu'
      simp only [if_true] at hvis
      simp only [decide_true, Bool.not_true, Bool.false_and, Bool.toNat_false]
      by_cases e' : t.id = u.id
      · rw [if_pos e'] at hbefore
        omega
      · have hwas : i.hasArrived t.target u.id = true := by simpa [e'] using hu'
        simp only [hwas, Bool.toNat_true] at hbefore
        omega
    · simp only [if_neg e] at hvis
      simp only [e, decide_false, Bool.not_false, Bool.true_and]
      omega
  · have hne : t.target ≠ n := Workflow.ne_of_join hx hy (by rw [hg, hj]; decide)
    have hany := h.any hy hj
    have hvis := hv n
    rw [filter_cons_target] at hany
    rw [if_neg hne] at hvis
    rw [firesOf_congr hhist]
    omega
  · rw [hs.arrivals, clearArrivals, Keyed.get?_erase] at hget
    split at hget
    · cases hget
    case isFalse hne =>
      rw [recordArrival, Keyed.get?_insert, if_neg hne] at hget
      exact h.waiting hget

theorem joinsHold_waits {x : Node} {u : Transition} (ht : w.transition? t.id = some t)
    (hx : w.node? t.target = some x) (hg : x.join = .and) (hu : u ∈ w.incoming t.target)
    (hm : (i.recordArrival t.target t.id).hasArrived t.target u.id = false)
    (h : JoinsHold w (t :: ts) i) : JoinsHold w ts (i.recordArrival t.target t.id) := by
  refine ⟨fun {n y v} hy hj hv => ?_, fun {n y} hy hj => ?_, fun {n a} hget => ?_⟩
  · have hbefore := h.all hy hj hv
    rw [count_cons_id] at hbefore
    have hvis : (i.recordArrival t.target t.id).visits n = i.visits n := rfl
    have hfire : (i.recordArrival t.target t.id).fireCount v.id = i.fireCount v.id := rfl
    rw [hasArrived_recordArrival, hvis, hfire]
    by_cases e : t.target = n ∧ t.id = v.id
    · have hle := Bool.toNat_le (decide (t.target = n ∧ t.id = v.id) || i.hasArrived n v.id)
      rw [if_pos e.2] at hbefore
      omega
    · simp only [e, decide_false, Bool.false_or]
      omega
  · have hany := h.any hy hj
    rw [filter_cons_target] at hany
    have hvis : (i.recordArrival t.target t.id).visits n = i.visits n := rfl
    have hfire : (i.recordArrival t.target t.id).firesOf (w.incoming n) =
        i.firesOf (w.incoming n) := rfl
    rw [hvis, hfire]
    omega
  · rw [recordArrival, Keyed.get?_insert] at hget
    split at hget
    case isFalse => exact h.waiting hget
    case isTrue e =>
      subst e
      cases hget
      refine ⟨⟨x, hx, hg⟩, ?_, fun k hk => ?_, ?_⟩
      · exact Keyed.isEmpty_eq_false_iff.2 ⟨t.id, by simp [Keyed.contains_add]⟩
      · rw [Keyed.contains_add] at hk
        by_cases e : t.id = k
        · exact ⟨t, Workflow.mem_incoming_iff.2 ⟨ht, rfl⟩, e⟩
        · have hk' : (i.arrivalsAt t.target).contains k = true := by simpa [e] using hk
          cases hget : i.arrivals.get? t.target with
          | none => simp [arrivalsAt, hget] at hk'
          | some a =>
            rw [arrivalsAt, hget, Option.getD_some] at hk'
            exact (h.waiting hget).2.2.1 k hk'
      · refine ⟨u, hu, ?_⟩
        rw [hasArrived, arrivalsAt, recordArrival, Keyed.get?_insert_self] at hm
        exact hm

theorem joinsHold_arrives {b : Bool} (ht : w.transition? t.id = some t)
    (ha : Arrives w now t i b j) (h : JoinsHold w (t :: ts) i) : JoinsHold w ts j := by
  cases ha with
  | any hx hg enter => exact joinsHold_any hx hg (activate_steps enter) h
  | last hx hg hall enter => exact joinsHold_last hx hg hall (activate_steps enter) h
  | waits hx hg hu hm => exact joinsHold_waits ht hx hg hu hm h

theorem joinsHold_depart {ns : List NodeId} {taken : List Transition} (hsel : w.Selects ns taken)
    (h : JoinsHold w [] i) : JoinsHold w taken (i.depart true now taken) := by
  refine ⟨fun {n x t} hx hj ht => ?_, fun {n x} hx hj => ?_, fun hget => ?_⟩
  · have hbefore := h.all hx hj ht
    simp only [List.map_nil, List.count_nil] at hbefore
    rw [visits_depart, fireCount_depart, hasArrived, arrivalsAt, arrivals_depart]
    rw [hasArrived, arrivalsAt] at hbefore
    omega
  · have hbefore := h.any hx hj
    simp only [List.filter_nil, List.length_nil] at hbefore
    rw [visits_depart, firesOf_depart, hsel.sum_incoming]
    omega
  · rw [arrivals_depart] at hget
    exact h.waiting hget

theorem joinsHold_move {taken : List Transition} {ns : List NodeId}
    (hm : w.Move true now i taken ns j) (h : JoinsHold w [] i) : JoinsHold w [] j := by
  cases hm with
  | finish => exact ⟨h.all, h.any, h.waiting⟩
  | rest => exact ⟨h.all, h.any, h.waiting⟩
  | fire _ hsel _ harr =>
    have hentered : JoinsHold w [] i.entered := ⟨h.all, h.any, h.waiting⟩
    exact arriveAll_run joinsHold_arrives (fun t ht => hsel.transition ht) harr
      (joinsHold_depart hsel hentered)

theorem joinsHold_reaches (hi : JoinsHold w [] i)
    (h : w.Reaches (fun o => o.recordHistory = true) i j) : JoinsHold w [] j := by
  induction h with
  | refl => exact hi
  | pass _ ok step ih =>
    obtain ⟨taken, ns, hm, -⟩ := Workflow.pass_ok step
    rw [ok] at hm
    exact joinsHold_move hm ih
  | stop _ _ ih => exact ⟨ih.all, ih.any, ih.waiting⟩

theorem joins_safe {id : InstanceId} {target : Target}
    (h : w.Reaches (fun o => o.recordHistory = true) (.start w id target now) i) :
    (∀ n x, w.node? n = some x → x.join = .and → ∀ t ∈ w.incoming n,
        (i.visits n).toNat + (i.hasArrived n t.id).toNat ≤ i.fireCount t.id + w.startVisits n) ∧
      (∀ n x, w.node? n = some x → x.join = .or →
        (i.visits n).toNat ≤ i.firesOf (w.incoming n) + w.startVisits n) ∧
      ∀ n a, i.arrivals.get? n = some a →
        (∃ x, w.node? n = some x ∧ x.join = .and) ∧ a.isEmpty = false ∧
          (∀ k, a.contains k = true → ∃ t ∈ w.incoming n, t.id = k) ∧
          ∃ t ∈ w.incoming n, a.contains t.id = false := by
  have hj := joinsHold_reaches (joinsHold_start w id target now) h
  refine ⟨fun n x hx hg t ht => ?_, fun n x hx hg => ?_, fun n a ha => hj.waiting ha⟩
  · have hall := hj.all hx hg ht
    simpa using hall
  · have hany := hj.any hx hg
    simpa using hany

theorem joins_safe_diamond :
    Workflow.diamond.Reaches (fun o => o.recordHistory = true) Workflow.diamondStart
        Workflow.diamondEnd ∧
      (Workflow.diamond.incoming "d").map (·.id) = ["bd", "cd"] ∧
      (Workflow.diamondEnd.visits "d").toNat = 1 ∧
      ∀ t ∈ Workflow.diamond.incoming "d",
        (Workflow.diamondEnd.visits "d").toNat + (Workflow.diamondEnd.hasArrived "d" t.id).toNat ≤
          Workflow.diamondEnd.fireCount t.id + Workflow.diamond.startVisits "d" := by
  refine ⟨Workflow.diamond_reaches, by cbv, by cbv, fun t ht => ?_⟩
  have hx : (Workflow.diamond.node? "d").map (·.join) = some .and := by decide +kernel
  obtain ⟨x, hx, hg⟩ := Option.map_eq_some_iff.1 hx
  exact (joins_safe Workflow.diamond_reaches).1 "d" x hx hg t ht

end Instance

end Flowgraph
