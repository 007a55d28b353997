import Flowgraph.Proofs.Flow.Called

namespace Flowgraph

theorem Keyed.erase_comm {κ α : Type} [Key κ] [DecidableEq κ] (m : Keyed κ α) (k k' : κ) :
    (m.erase k).erase k' = (m.erase k').erase k := by
  refine ext fun x => ?_
  simp only [get?_erase]
  by_cases e : k = x <;> by_cases e' : k' = x <;> simp [e, e']

namespace Instance

variable {w : Workflow} {i j k : Instance} {t u : Transition} {ts : List Transition}
  {ns : List NodeId} {n : NodeId} {b : Bool} {now now' : Moment} {record : Bool}

section Leaving

def leave (i : Instance) (t : Transition) : Instance :=
  { i with active := i.active.erase t.source, pending := i.pending.erase t.source }

instance : RightCommutative leave where
  right_comm i t u := by
    have hactive := Keyed.erase_comm i.active t.source u.source
    have hpending := Keyed.erase_comm i.pending t.source u.source
    simp only [leave, hactive, hpending]

theorem depart_eq_foldl (h : List Firing) (m : Moment) :
    { i.depart record now ts with history := h, updated := m } =
      ts.foldl leave { i with history := h, updated := m } := by
  induction ts generalizing i with
  | nil => rfl
  | cons t ts ih =>
    rw [depart, ih]
    cases record <;> rfl

theorem depart_perm {ts' : List Transition} (h : ts'.Perm ts) (now now' : Moment) :
    i.depart record now' ts' =
      { i.depart record now ts with
        history := (i.depart record now' ts').history
        updated := (i.depart record now' ts').updated } := by
  have hfold : ∀ l m, { i.depart record now' ts' with history := l, updated := m } =
      { i.depart record now ts with history := l, updated := m } := fun l m => by
    rw [depart_eq_foldl, depart_eq_foldl, h.foldl_eq]
  exact hfold (i.depart record now' ts').history (i.depart record now' ts').updated

end Leaving

section Waiting

theorem Arrives.cleared {x : Node} (h : Arrives w now t i b k) (ht : w.transition? t.id = some t)
    (hx : w.node? t.target = some x) (hg : x.join = .and) (hc : Called w [t] i t.target) :
    k.arrivals.get? t.target = none := by
  cases h with
  | any node gate =>
    rw [hx] at node
    cases node
    rw [hg] at gate
    cases gate
  | last _ _ _ enter =>
    rw [(activate_steps enter).arrivals, clearArrivals, Keyed.get?_erase, if_pos rfl]
  | waits node gate mem missing =>
    exact absurd hc (not_called_of_missing ht node gate mem missing)

def gather (a : Option IdSet) (t : Transition) : Option IdSet :=
  some ((a.getD .empty).add t.id)

instance : RightCommutative gather where
  right_comm a t u := by
    simp only [gather, Option.getD_some, Keyed.add_comm]

theorem gather_contains {a : Option IdSet} {c : IdSet} (h : ts.foldl gather a = some c)
    (k : TransitionId) :
    c.contains k = true ↔ (a.getD .empty).contains k = true ∨ ∃ t ∈ ts, t.id = k := by
  induction ts generalizing a with
  | nil =>
    have ha : a = some c := h
    simp [ha]
  | cons t ts ih =>
    rw [ih (a := gather a t) h, gather, Option.getD_some, Keyed.contains_add]
    simp only [Bool.or_eq_true, decide_eq_true_iff, List.exists_mem_cons_iff]
    tauto

theorem arriveAll_uncalled (hts : ∀ t ∈ ts, w.transition? t.id = some t)
    (h : i.arriveAll w now ts = (.ok ns, j)) (hc : ¬Called w ts i n) :
    j.arrivals.get? n = (ts.filter (·.target = n)).foldl gather (i.arrivals.get? n) := by
  induction ts generalizing i ns with
  | nil =>
    cases h
    rfl
  | cons t ts ih =>
    obtain ⟨ht, hts⟩ := List.forall_mem_cons.1 hts
    obtain ⟨b, k, ms, hr, hm, -⟩ := arriveAll_cons_ok h
    have harr := arrive_ok hr
    rw [harr.called_cons ht, not_or] at hc
    rw [ih hts hm hc.2]
    by_cases e : t.target = n
    · subst e
      obtain ⟨-, -, hk, -⟩ := (harr.called ht).resolve_left fun hcalled => hc.1 ⟨rfl, hcalled.1⟩
      rw [List.filter_cons_of_pos (by simp), List.foldl_cons, hk, recordArrival,
        Keyed.get?_insert_self, gather, arrivalsAt]
    · rw [List.filter_cons_of_neg (by simpa using e), harr.arrivals_of_ne e]

theorem arriveAll_called {x : Node} (hts : ∀ t ∈ ts, w.transition? t.id = some t)
    (hnodup : (ts.map (·.id)).Nodup) (h : i.arriveAll w now ts = (.ok ns, j))
    (hx : w.node? n = some x) (hg : x.join = .and) (hc : Called w ts i n) {a : IdSet}
    (ha : j.arrivals.get? n = some a) :
    a.isEmpty = false ∧
      ∀ c, a.contains c = true → i.hasArrived n c = true ∧ ∃ t ∈ ts, t.target = n ∧ t.id = c := by
  induction ts generalizing i ns with
  | nil =>
    obtain ⟨t, ht, -⟩ := hc.comes
    cases ht
  | cons t ts ih =>
    obtain ⟨ht, hts'⟩ := List.forall_mem_cons.1 hts
    obtain ⟨hfresh, hnodup'⟩ := List.nodup_cons.1 hnodup
    obtain ⟨b, k, ms, hr, hm, -⟩ := arriveAll_cons_ok h
    have harr := arrive_ok hr
    by_cases e : t.target = n
    case neg =>
      obtain ⟨hsome, hall⟩ := ih hts' hnodup' hm ((harr.called_cons_of_ne e).1 hc)
      refine ⟨hsome, fun c hac => ?_⟩
      obtain ⟨hi, u, hu, hn, hid⟩ := hall c hac
      rw [harr.hasArrived_of_ne e] at hi
      exact ⟨hi, u, List.mem_cons_of_mem t hu, hn, hid⟩
    subst e
    rcases harr.called ht with ⟨hcalled, -⟩ | ⟨hcalled, -, hk, -⟩
    · -- the join is completed at once, and `t` does not come in again
      have hk := harr.cleared ht hx hg hcalled
      have hin : t ∈ w.incoming t.target := Workflow.mem_incoming_iff.2 ⟨ht, rfl⟩
      have hrest : ¬Called w ts k t.target := fun hc' => by
        rcases hc'.all x hx hg t hin with hc' | hc'
        · simp [hasArrived, arrivalsAt, hk] at hc'
        · exact hfresh (List.mem_map_of_mem hc')
      rw [arriveAll_uncalled hts' hm hrest, hk] at ha
      have hmem : ∀ c, a.contains c = true ↔ ∃ u ∈ ts, u.target = t.target ∧ u.id = c := by
        intro c
        simp [gather_contains ha, and_assoc]
      refine ⟨?_, fun c hac => ?_⟩
      · rcases hl : ts.filter (·.target = t.target) with _ | ⟨u, us⟩
        · rw [hl] at ha
          cases ha
        · have hu : u ∈ ts.filter (·.target = t.target) := hl ▸ List.mem_cons_self
          obtain ⟨hu, hn⟩ := List.mem_filter.1 hu
          have hid : a.contains u.id = true := (hmem u.id).2 ⟨u, hu, of_decide_eq_true hn, rfl⟩
          exact Keyed.isEmpty_eq_false_iff.2 ⟨u.id, hid⟩
      · obtain ⟨u, hu, hn, rfl⟩ := (hmem c).1 hac
        have hne : u ≠ t := fun e => hfresh (e ▸ List.mem_map_of_mem hu)
        have huin : u ∈ w.incoming t.target := Workflow.mem_incoming_iff.2 ⟨hts' u hu, hn⟩
        refine ⟨?_, u, List.mem_cons_of_mem t hu, hn, rfl⟩
        exact (hcalled.all x hx hg u huin).resolve_right (by simpa using hne)
    · have hrest : Called w ts k t.target :=
        ((harr.called_cons ht).1 hc).resolve_left fun h => hcalled h.2
      obtain ⟨hsome, hall⟩ := ih hts' hnodup' hm hrest
      refine ⟨hsome, fun c hac => ?_⟩
      obtain ⟨hi, u, hu, hn, rfl⟩ := hall c hac
      have hne : t.id ≠ u.id := fun e => hfresh (List.mem_map.2 ⟨u, hu, e.symm⟩)
      rw [hk, hasArrived_recordArrival] at hi
      exact ⟨by simpa [hne] using hi, u, List.mem_cons_of_mem t hu, hn, rfl⟩

theorem arriveAll_any {x : Node} (hts : ∀ t ∈ ts, w.transition? t.id = some t)
    (h : i.arriveAll w now ts = (.ok ns, j)) (hx : w.node? n = some x) (hg : x.join = .or) :
    j.arrivals.get? n = i.arrivals.get? n := by
  refine arriveAll_run (Q := fun _ k => k.arrivals.get? n = i.arrivals.get? n) ?_ hts h rfl
  intro t ts k b m _ ha hk
  by_cases e : t.target = n
  · subst e
    cases ha with
    | any _ _ enter => rw [(activate_steps enter).arrivals, hk]
    | last node gate =>
      rw [hx] at node
      cases node
      rw [hg] at gate
      cases gate
    | waits node gate =>
      rw [hx] at node
      cases node
      rw [hg] at gate
      cases gate
  · rw [ha.arrivals_of_ne e, hk]

end Waiting

def Overfilled (w : Workflow) (ts : List Transition) (i : Instance) (n : NodeId) : Prop :=
  (∃ x, w.node? n = some x ∧ x.join = .and) ∧ Called w ts i n ∧
    ∃ t ∈ ts, t.target = n ∧ i.hasArrived n t.id = true

theorem overfilled_of_kept {x : Node} {a : IdSet} (hts : ∀ t ∈ ts, w.transition? t.id = some t)
    (hnodup : (ts.map (·.id)).Nodup) (h : i.arriveAll w now ts = (.ok ns, j))
    (hx : w.node? n = some x) (hg : x.join = .and) (hc : Called w ts i n)
    (ha : j.arrivals.get? n = some a) : Overfilled w ts i n := by
  obtain ⟨hsome, hall⟩ := arriveAll_called hts hnodup h hx hg hc ha
  obtain ⟨c, hac⟩ := Keyed.isEmpty_eq_false_iff.1 hsome
  obtain ⟨hi, u, hu, hun, rfl⟩ := hall c hac
  exact ⟨⟨x, hx, hg⟩, hc, u, hu, hun, hi⟩

section Reordering

variable {ts' : List Transition} {ns' : List NodeId} {j' : Instance} {l : List Firing}

theorem overfilled_perm (h : ts'.Perm ts) (ha : j.arrivals = i.arrivals) :
    Overfilled w ts' j n ↔ Overfilled w ts i n := by
  rw [Overfilled, called_perm h ha, Overfilled]
  simp only [h.mem_iff, hasArrived_congr ha]

theorem arriveAll_perm (hts : ∀ t ∈ ts, w.transition? t.id = some t) (hperm : ts'.Perm ts)
    (l : List Firing) (m : Moment) (h : i.arriveAll w now ts = (.ok ns, j)) :
    ∃ ns' j', { i with history := l, updated := m }.arriveAll w now' ts' = (.ok ns', j') ∧
      ns'.Perm ns ∧
      j' = { j with history := l, arrivals := j'.arrivals, updated := j'.updated } := by
  have hts' : ∀ t ∈ ts', w.transition? t.id = some t := fun t ht => hts t (hperm.mem_iff.1 ht)
  have hcalled : ∀ n, Called w ts' { i with history := l, updated := m } n ↔ Called w ts i n :=
    fun n => called_perm hperm rfl
  have hadmits : ∀ n, Called w ts' { i with history := l, updated := m } n → i.Admits w n :=
    fun n hn => (arriveAll_ok_iff hts).1 ⟨ns, j, h⟩ n ((hcalled n).1 hn)
  obtain ⟨ns', j', h'⟩ :
      ∃ ns' j', { i with history := l, updated := m }.arriveAll w now' ts' = (.ok ns', j') :=
    (arriveAll_ok_iff hts').2 hadmits
  obtain ⟨hns, hmem, hj⟩ := arriveAll_effect hts h
  obtain ⟨hns', hmem', hj'⟩ := arriveAll_effect hts' h'
  have hentered : ns'.Perm ns := (List.perm_ext_iff_of_nodup hns' hns).2 fun n => by
    rw [hmem, hmem', hcalled]
    rfl
  refine ⟨ns', j', h', hentered, ?_⟩
  have hsame : enterAll now' ns' { i with history := l, updated := m } =
      { enterAll now' ns { i with updated := m } with history := l } := by
    rw [enterAll, hentered.foldl_eq]
    exact enterAll_history ns { i with updated := m } l
  rw [hsame, enterAll_moment ns i now now' m] at hj'
  rw [hj, hj']

theorem arrivals_perm (hts : ∀ t ∈ ts, w.transition? t.id = some t)
    (hnodup : (ts.map (·.id)).Nodup) (hperm : ts'.Perm ts)
    (h : i.arriveAll w now ts = (.ok ns, j)) (ha : k.arrivals = i.arrivals)
    (h' : k.arriveAll w now' ts' = (.ok ns', j')) (hn : ¬Overfilled w ts i n) :
    j'.arrivals.get? n = j.arrivals.get? n := by
  have hts' : ∀ t ∈ ts', w.transition? t.id = some t := fun t ht => hts t (hperm.mem_iff.1 ht)
  have hnodup' : (ts'.map (·.id)).Nodup := (hperm.map _).nodup_iff.2 hnodup
  have hcalled : Called w ts' k n ↔ Called w ts i n := called_perm hperm ha
  by_cases hc : Called w ts i n
  case neg =>
    rw [arriveAll_uncalled hts h hc, arriveAll_uncalled hts' h' fun hc' => hc (hcalled.1 hc'), ha,
      (hperm.filter _).foldl_eq]
  obtain ⟨t, ht, htn⟩ := hc.comes
  obtain ⟨x, hx⟩ : ∃ x, w.node? n = some x :=
    Option.isSome_iff_exists.1 (htn ▸ w.wellFormed.target_mem (hts t ht))
  cases hg : x.join with
  | or => rw [arriveAll_any hts h hx hg, arriveAll_any hts' h' hx hg, ha]
  | and =>
    have hempty : j.arrivals.get? n = none := Option.eq_none_iff_forall_ne_some.2 fun a hj =>
      hn (overfilled_of_kept hts hnodup h hx hg hc hj)
    have hempty' : j'.arrivals.get? n = none := Option.eq_none_iff_forall_ne_some.2 fun a hj =>
      hn ((overfilled_perm hperm ha).1
        (overfilled_of_kept hts' hnodup' h' hx hg (hcalled.2 hc) hj))
    rw [hempty, hempty']

end Reordering

end Instance

namespace Workflow

variable {ω : Type} {w : Workflow} {inv : Invoker ω} {site : Site} {s s' : ω}
  {ns : List NodeId} {taken : List Transition}

theorem Selects.nodup_ids (h : w.Selects ns taken) : (taken.map (·.id)).Nodup := by
  refine List.nodup_iff_count.2 fun k => ?_
  by_cases hk : k ∈ taken.map (·.id)
  · obtain ⟨t, ht, rfl⟩ := List.mem_map.1 hk
    exact (h.count_le (mem_outgoing_iff.2 ⟨h.transition ht, rfl⟩)).1
  · rw [List.count_eq_zero_of_not_mem hk]
    exact Nat.zero_le 1

theorem fire_isOk_iff (options : Options) (now : Moment) (taken : List Transition)
    (p : Progress ω) : (w.fire options now taken p).1.isOk = true ↔
      ∃ ns j, (p.current.depart options.recordHistory now taken).arriveAll w now taken =
        (.ok ns, j) := by
  rw [fire]
  rcases (p.current.depart options.recordHistory now taken).arriveAll w now taken with ⟨e | ns, j⟩
  · simp [Except.isOk, Except.toBool]
  · simp [Except.isOk, Except.toBool]

structure FiresAlike (w : Workflow) (taken : List Transition) (p q q' : Progress ω) : Prop where
  current : q'.current = { q.current with
    history := q'.current.history
    arrivals := q'.current.arrivals
    updated := q'.current.updated }
  history : (q'.current.history.map (·.transition)).Perm (q.current.history.map (·.transition))
  arrivals : ∀ n, ¬p.current.Overfilled w taken n →
    q'.current.arrivals.get? n = q.current.arrivals.get? n
  rest : ∀ {n a}, p.current.Overfilled w taken n → q'.current.arrivals.get? n = some a →
    ∀ k, a.contains k = true →
      p.current.hasArrived n k = true ∧ ∃ t ∈ taken, t.target = n ∧ t.id = k
  report : q'.report = { q.report with
    fired := q'.report.fired, activated := q'.report.activated }
  fired : q'.report.fired.Perm q.report.fired
  activated : q'.report.activated.Perm q.report.activated
  world : q'.world = q.world

theorem fire_perm {options : Options} {now now' : Moment} {p : Progress ω}
    {taken' : List Transition} (hts : ∀ t ∈ taken, w.transition? t.id = some t)
    (hnodup : (taken.map (·.id)).Nodup) (hperm : taken'.Perm taken)
    (h : (w.fire options now taken p).1.isOk = true) :
    (w.fire options now' taken' p).1.isOk = true ∧
      FiresAlike w taken p (w.fire options now taken p).2 (w.fire options now' taken' p).2 := by
  obtain ⟨ns, j, hj⟩ := (fire_isOk_iff options now taken p).1 h
  obtain ⟨ns', j', hj', hns, hcurrent⟩ := Instance.arriveAll_perm hts hperm
    (p.current.depart options.recordHistory now' taken').history
    (p.current.depart options.recordHistory now' taken').updated hj
  rw [← Instance.depart_perm hperm now now'] at hj'
  refine ⟨(fire_isOk_iff options now' taken' p).2 ⟨ns', j', hj'⟩, ?_⟩
  have harr : ∀ (m : Moment) (us : List Transition),
      (p.current.depart options.recordHistory m us).arrivals = p.current.arrivals :=
    fun m us => Instance.arrivals_depart
  have hts' : ∀ t ∈ taken', w.transition? t.id = some t := fun t ht => hts t (hperm.mem_iff.1 ht)
  have hnodup' : (taken'.map (·.id)).Nodup := (hperm.map _).nodup_iff.2 hnodup
  rw [fire, hj, fire, hj']
  refine ⟨?_, ?_, fun n hn => ?_, ?_, rfl, ?_, ?_, rfl⟩
  · have hhistory : j'.history = _ := congrArg Instance.history hcurrent
    rw [← hhistory] at hcurrent
    exact hcurrent
  · simp only [Instance.history_arriveAll hts hj, Instance.history_arriveAll hts' hj',
      Instance.history_depart]
    cases options.recordHistory with
    | false => exact .refl _
    | true => exact (hperm.map _).append_left _
  · refine Instance.arrivals_perm hts hnodup hperm hj
      ((harr now' taken').trans (harr now taken).symm) hj' ?_
    exact fun hc => hn ((Instance.overfilled_perm (.refl taken) (harr now taken)).1 hc)
  · rintro n a ⟨⟨x, hx, hg⟩, hc, -⟩ ha k hk
    obtain ⟨-, hall⟩ := Instance.arriveAll_called hts' hnodup' hj' hx hg
      ((Instance.called_perm hperm (harr now' taken')).2 hc) ha
    obtain ⟨hi, t, ht, hn, hid⟩ := hall k hk
    rw [Instance.hasArrived_congr (harr now' taken')] at hi
    exact ⟨hi, t, hperm.mem_iff.1 ht, hn, hid⟩
  · exact (hperm.map _).append_left _
  · exact hns.append_left _

theorem firing_order_immaterial (options : Options) (now now' : Moment) (p : Progress ω)
    (taken taken' : List Transition)
    (htaken : w.splitAll inv site p.current.active.keys s = (.ok taken, s'))
    (hperm : taken'.Perm taken) :
    ((w.fire options now' taken' p).1.isOk = true ↔ (w.fire options now taken p).1.isOk = true) ∧
      ((w.fire options now taken p).1.isOk = true →
        FiresAlike w taken p (w.fire options now taken p).2 (w.fire options now' taken' p).2) := by
  have hsel := splitAll_ok (Keyed.nodup_keys _) htaken
  have hts : ∀ t ∈ taken, w.transition? t.id = some t := fun t ht => hsel.transition ht
  have hts' : ∀ t ∈ taken', w.transition? t.id = some t := fun t ht => hts t (hperm.mem_iff.1 ht)
  have hnodup' : (taken'.map (·.id)).Nodup := (hperm.map _).nodup_iff.2 hsel.nodup_ids
  refine ⟨⟨fun h => ?_, fun h => ?_⟩, fun h => ?_⟩
  · exact (fire_perm hts' hnodup' hperm.symm h).1
  · exact (fire_perm hts hsel.nodup_ids hperm h).1
  · exact (fire_perm hts hsel.nodup_ids hperm h).2

def diamondForked : Instance :=
  (diamond.advance (steady (.ok .null)) { maxPasses := some 1 } diamondStart.created none
    diamondStart ()).2.1

def diamondSite : Site := { workflow := "diamond", target := ⟨"order", "7"⟩ }

def diamondBranches : List Transition :=
  [{ id := "bd", source := "b", target := "d" }, { id := "cd", source := "c", target := "d" }]

def nextDay : Moment := ⟨2024, 1, 2, 0, 0, 0, 0, by decide⟩

def diamondFired (now : Moment) (taken : List Transition) :
    Except EngineError Unit × Progress Unit :=
  diamond.fire {} now taken ⟨diamondForked, {}, ()⟩

theorem firing_order_immaterial_diamond :
    diamond.splitAll (steady (.ok .null)) diamondSite diamondForked.active.keys () =
        (.ok diamondBranches, ()) ∧
      (diamondFired diamondStart.created diamondBranches).1.isOk = true ∧
      (diamondFired nextDay diamondBranches.reverse).1.isOk = true ∧
      (diamondFired diamondStart.created diamondBranches).2.current.active.keys = ["d"] ∧
      (diamondFired nextDay diamondBranches.reverse).2.current.active.keys = ["d"] ∧
      (diamondFired nextDay diamondBranches.reverse).2.current.arrivals.get? "d" =
        (diamondFired diamondStart.created diamondBranches).2.current.arrivals.get? "d" := by
  have hsplit : diamond.splitAll (steady (.ok .null)) diamondSite diamondForked.active.keys () =
      (.ok diamondBranches, ()) := by cbv
  have hok : (diamondFired diamondStart.created diamondBranches).1.isOk = true := by cbv
  have hactive :
      (diamondFired diamondStart.created diamondBranches).2.current.active.keys = ["d"] := by cbv
  obtain ⟨hiff, halike⟩ := firing_order_immaterial {} diamondStart.created nextDay
    ⟨diamondForked, {}, ()⟩ diamondBranches diamondBranches.reverse hsplit (List.reverse_perm _)
  have h : FiresAlike diamond diamondBranches ⟨diamondForked, {}, ()⟩
      (diamondFired diamondStart.created diamondBranches).2
      (diamondFired nextDay diamondBranches.reverse).2 := halike hok
  have hnone : diamondForked.arrivals = .empty := by cbv
  refine ⟨hsplit, hok, hiff.2 hok, hactive, ?_, h.arrivals "d" ?_⟩
  · rw [h.current]
    exact hactive
  · rintro ⟨-, -, t, -, -, ht⟩
    simp [Instance.hasArrived, Instance.arrivalsAt, hnone] at ht

def detourDraft : Draft where
  id := "detour"
  name := "Detour"
  model := "order"
  visitLimit := 2
  nodes := [
    { id := "a", name := "A", kind := .start, split := .and },
    { id := "b", name := "B", kind := .task },
    { id := "c", name := "C", kind := .task, split := .and },
    { id := "d", name := "D", kind := .task },
    { id := "e", name := "E", kind := .finish, join := .and }]
  transitions := [
    { id := "ab", source := "a", target := "b" }, { id := "ac", source := "a", target := "c" },
    { id := "be", source := "b", target := "e" }, { id := "cb", source := "c", target := "b" },
    { id := "cd", source := "c", target := "d" }, { id := "de", source := "d", target := "e" }]

def detour : Workflow := detourDraft.build.toOption.get (by decide +kernel)

def detourStart : Instance := .start detour "1" ⟨"order", "7"⟩ diamondStart.created

def detourCrossing : Instance :=
  (detour.advance (steady (.ok .null)) { maxPasses := some 2 } diamondStart.created none
    detourStart ()).2.1

def detourSite : Site := { workflow := "detour", target := ⟨"order", "7"⟩ }

def detourBranches : List Transition :=
  [{ id := "be", source := "b", target := "e" }, { id := "de", source := "d", target := "e" }]

def detourFired (taken : List Transition) : Bool × List String × Bool :=
  let (result, q) := detour.fire {} diamondStart.created taken ⟨detourCrossing, {}, ()⟩
  (result.isOk, q.current.active.keys, q.current.hasArrived "e" "be")

theorem detourFired_branches : detourFired detourBranches = (true, ["e"], false) := by cbv

theorem detourFired_reverse : detourFired detourBranches.reverse = (true, ["e"], true) := by cbv

theorem detour_reaches_crossing : detour.Reaches (fun _ => True) detourStart detourCrossing := by
  have hok : (detour.advance (steady (.ok .null)) { maxPasses := some 2 } diamondStart.created none
      detourStart ()).1.isOk = true := by cbv
  rcases hr : detour.advance (steady (.ok .null)) { maxPasses := some 2 } diamondStart.created none
    detourStart () with ⟨e | r, j, s⟩
  · rw [hr] at hok
    cases hok
  · rw [detourCrossing, hr]
    exact .of_advance trivial hr

theorem detour_keeps_arrival :
    detour.Reaches (fun _ => True) detourStart detourCrossing ∧
      detour.splitAll (steady (.ok .null)) detourSite detourCrossing.active.keys () =
        (.ok detourBranches, ()) ∧
      detourFired detourBranches = (true, ["e"], false) ∧
      detourFired detourBranches.reverse = (true, ["e"], true) :=
  ⟨detour_reaches_crossing, by cbv, detourFired_branches, detourFired_reverse⟩

end Workflow

end Flowgraph
