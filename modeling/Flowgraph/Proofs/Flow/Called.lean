import Flowgraph.Proofs.Flow.Counts

namespace Flowgraph

namespace Keyed

variable {κ α : Type} [Key κ] [DecidableEq κ]

theorem insert_comm {m : Keyed κ α} {k k' : κ} (h : k ≠ k') (a a' : α) :
    (m.insert k a).insert k' a' = (m.insert k' a').insert k a := by
  refine ext fun x => ?_
  simp only [get?_insert]
  by_cases e : k = x
  · subst e
    simp [Ne.symm h]
  · simp [e]

theorem add_comm (s : Keyed κ Unit) (k k' : κ) : (s.add k).add k' = (s.add k').add k := by
  by_cases h : k = k'
  · rw [h]
  · exact insert_comm h () ()

end Keyed

namespace Instance

variable {w : Workflow} {i j k : Instance} {t u : Transition} {ts : List Transition}
  {ns : List NodeId} {n : NodeId} {b : Bool} {now : Moment}

structure Called (w : Workflow) (ts : List Transition) (i : Instance) (n : NodeId) : Prop where
  comes : ∃ t ∈ ts, t.target = n
  all : ∀ x, w.node? n = some x → x.join = .and →
    ∀ u ∈ w.incoming n, i.hasArrived n u.id = true ∨ u ∈ ts

def Admits (w : Workflow) (i : Instance) (n : NodeId) : Prop :=
  i.workflow = w.id ∧ (i.isActive n = true ∨ (i.visits n).toNat < w.visitLimit.toNat)

theorem activate_ok_iff (hn : w.contains n = true) :
    (∃ b j, i.activate w n now = (.ok b, j)) ↔ i.Admits w n := by
  constructor
  · rintro ⟨b, j, h⟩
    have hspec := activate_spec i w n now
    rw [h] at hspec
    cases hspec with
    | stays owned _ active => exact ⟨owned, .inl active⟩
    | enters owned _ _ room => exact ⟨owned, .inr room⟩
  · rintro ⟨howned, hroom⟩
    cases ha : i.isActive n with
    | true => exact ⟨false, i, activate_of_active howned hn ha⟩
    | false => exact ⟨true, _, activate_of_room howned hn ha (hroom.resolve_left (by simp [ha]))⟩

theorem Called.mono {ts' : List Transition} (h : Called w ts i n) (hsub : ts ⊆ ts') :
    Called w ts' i n := by
  obtain ⟨⟨t, ht, hn⟩, hall⟩ := h
  exact ⟨⟨t, hsub ht, hn⟩, fun x hx hg u hu => (hall x hx hg u hu).imp_right fun hm => hsub hm⟩

theorem called_perm {ts' : List Transition} (h : ts'.Perm ts) (ha : j.arrivals = i.arrivals) :
    Called w ts' j n ↔ Called w ts i n := by
  constructor
  · intro hc
    obtain ⟨hcomes, hall⟩ := hc.mono h.subset
    refine ⟨hcomes, fun x hx hg u hu => ?_⟩
    rw [← hasArrived_congr ha]
    exact hall x hx hg u hu
  · intro hc
    obtain ⟨hcomes, hall⟩ := hc.mono h.symm.subset
    refine ⟨hcomes, fun x hx hg u hu => ?_⟩
    rw [hasArrived_congr ha]
    exact hall x hx hg u hu

theorem hasArrived_recordArrival_iff (ht : w.transition? t.id = some t) (hu : u ∈ w.incoming n) :
    (i.recordArrival t.target t.id).hasArrived n u.id = true ↔
      i.hasArrived n u.id = true ∨ u = t := by
  obtain ⟨hu', rfl⟩ := Workflow.mem_incoming_iff.1 hu
  rw [hasArrived_recordArrival, Bool.or_eq_true, decide_eq_true_iff, or_comm]
  refine or_congr_right ⟨fun h => ?_, fun h => ?_⟩
  · exact (Workflow.eq_of_transition_id ht hu' h.2).symm
  · subst h
    exact ⟨rfl, rfl⟩

theorem called_of_any {x : Node} (hx : w.node? t.target = some x) (hg : x.join = .or) :
    Called w [t] i t.target := by
  refine ⟨⟨t, List.mem_singleton_self t, rfl⟩, fun y hy hand => ?_⟩
  rw [hx] at hy
  cases hy
  rw [hg] at hand
  cases hand

theorem called_of_last (ht : w.transition? t.id = some t)
    (hall : ∀ u ∈ w.incoming t.target,
      (i.recordArrival t.target t.id).hasArrived t.target u.id = true) :
    Called w [t] i t.target := by
  refine ⟨⟨t, List.mem_singleton_self t, rfl⟩, fun y _ _ u hu => ?_⟩
  simpa using (hasArrived_recordArrival_iff ht hu).1 (hall u hu)

theorem not_called_of_missing {x : Node} (ht : w.transition? t.id = some t)
    (hx : w.node? t.target = some x) (hg : x.join = .and) (hu : u ∈ w.incoming t.target)
    (hm : (i.recordArrival t.target t.id).hasArrived t.target u.id = false) :
    ¬Called w [t] i t.target := by
  intro hc
  rw [(hasArrived_recordArrival_iff ht hu).2 (by simpa using hc.all x hx hg u hu)] at hm
  cases hm

namespace Arrives

theorem arrivals_of_ne (h : Arrives w now t i b k) (hne : t.target ≠ n) :
    k.arrivals.get? n = i.arrivals.get? n := by
  cases h with
  | any _ _ enter => rw [(activate_steps enter).arrivals]
  | last _ _ _ enter =>
    rw [(activate_steps enter).arrivals, clearArrivals, Keyed.get?_erase, if_neg hne, recordArrival,
      Keyed.get?_insert_of_ne _ _ hne]
  | waits => rw [recordArrival, Keyed.get?_insert_of_ne _ _ hne]

theorem hasArrived_of_ne (h : Arrives w now t i b k) (hne : t.target ≠ n) (u : TransitionId) :
    k.hasArrived n u = i.hasArrived n u := by
  rw [hasArrived, arrivalsAt, h.arrivals_of_ne hne, hasArrived, arrivalsAt]

theorem called (h : Arrives w now t i b k) (ht : w.transition? t.id = some t) :
    Called w [t] i t.target ∧ b = !i.isActive t.target ∨
      ¬Called w [t] i t.target ∧ b = false ∧ k = i.recordArrival t.target t.id ∧
        ∃ x, w.node? t.target = some x ∧ x.join = .and ∧
          ∃ u ∈ w.incoming t.target, u ≠ t ∧ i.hasArrived t.target u.id = false := by
  have hb : ∀ {k' : Instance}, k'.activate w t.target now = (.ok b, k) → k'.active = i.active →
      b = !i.isActive t.target := by
    intro k' enter hactive
    rw [isActive, ← hactive, ← isActive]
    rcases activate_ok enter with ⟨ha, rfl, -⟩ | ⟨ha, rfl, -⟩ <;> simp [ha]
  cases h with
  | any node gate enter => exact .inl ⟨called_of_any node gate, hb enter rfl⟩
  | last _ _ all enter => exact .inl ⟨called_of_last ht all, hb enter rfl⟩
  | @waits x node gate u mem missing =>
    have hnot : ¬(i.hasArrived t.target u.id = true ∨ u = t) := by
      rw [← hasArrived_recordArrival_iff ht mem, missing]
      simp
    rw [not_or, Bool.not_eq_true] at hnot
    exact .inr ⟨not_called_of_missing ht node gate mem missing, rfl, rfl, x, node, gate, u, mem,
      hnot.2, hnot.1⟩

theorem called_cons_of_ne (h : Arrives w now t i b k) (hne : t.target ≠ n) :
    Called w (t :: ts) i n ↔ Called w ts k n := by
  have hsame := h.hasArrived_of_ne hne
  constructor
  · rintro ⟨⟨u, hu, hn⟩, hall⟩
    have hmem : ∀ v ∈ t :: ts, v.target = n → v ∈ ts := fun v hv hvn =>
      (List.mem_cons.1 hv).resolve_left fun e => hne (e ▸ hvn)
    refine ⟨⟨u, hmem u hu hn, hn⟩, fun x hx hg v hv => ?_⟩
    rw [hsame]
    exact (hall x hx hg v hv).imp_right fun hm => hmem v hm (Workflow.mem_incoming_iff.1 hv).2
  · rintro ⟨⟨u, hu, hn⟩, hall⟩
    refine ⟨⟨u, List.mem_cons_of_mem t hu, hn⟩, fun x hx hg v hv => ?_⟩
    rw [← hsame]
    exact (hall x hx hg v hv).imp_right fun hm => List.mem_cons_of_mem t hm

theorem called_cons (h : Arrives w now t i b k) (ht : w.transition? t.id = some t) :
    Called w (t :: ts) i n ↔ n = t.target ∧ Called w [t] i n ∨ Called w ts k n := by
  by_cases e : t.target = n
  case neg =>
    have e' : n ≠ t.target := fun h => e h.symm
    rw [h.called_cons_of_ne e]
    simp [e']
  subst e
  rcases h.called ht with ⟨hc, -⟩ | ⟨hc, -, rfl, x, hx, hg, u, hu, hne, hmissing⟩
  · have hmore : Called w (t :: ts) i t.target := hc.mono (by simp)
    simp [hmore, hc]
  have hrecord : ∀ v ∈ w.incoming t.target,
      (i.recordArrival t.target t.id).hasArrived t.target v.id = true ↔
        i.hasArrived t.target v.id = true ∨ v = t :=
    fun v hv => hasArrived_recordArrival_iff ht hv
  simp only [hc, and_false, false_or]
  constructor
  · rintro ⟨-, hall⟩
    refine ⟨?_, fun x hx hg v hv => ?_⟩
    · -- the transition that is missing comes in later
      rcases hall x hx hg u hu with hu' | hu'
      · rw [hmissing] at hu'
        cases hu'
      · exact ⟨u, (List.mem_cons.1 hu').resolve_left hne, (Workflow.mem_incoming_iff.1 hu).2⟩
    · rcases hall x hx hg v hv with hv' | hv'
      · exact .inl ((hrecord v hv).2 (.inl hv'))
      · exact (List.mem_cons.1 hv').imp_left fun e => (hrecord v hv).2 (.inr e)
  · rintro ⟨-, hall⟩
    refine ⟨⟨t, List.mem_cons_self, rfl⟩, fun x hx hg v hv => ?_⟩
    rcases hall x hx hg v hv with hv' | hv'
    · rcases (hrecord v hv).1 hv' with hv' | rfl
      · exact .inl hv'
      · exact .inr List.mem_cons_self
    · exact .inr (List.mem_cons_of_mem t hv')

theorem entered_iff (h : Arrives w now t i b k) (ht : w.transition? t.id = some t) :
    b = true ↔ Called w [t] i t.target ∧ i.isActive t.target = false := by
  rcases h.called ht with ⟨hc, rfl⟩ | ⟨hc, rfl, -⟩ <;> simp [hc]

theorem effect (h : Arrives w now t i b k) :
    k = { (if b then i.entering t.target now else i) with arrivals := k.arrivals } := by
  cases h with
  | any _ _ enter => rcases activate_ok enter with ⟨-, rfl, rfl⟩ | ⟨-, rfl, -, rfl⟩ <;> rfl
  | last _ _ _ enter => rcases activate_ok enter with ⟨-, rfl, rfl⟩ | ⟨-, rfl, -, rfl⟩ <;> rfl
  | waits => rfl

theorem isActive_iff (h : Arrives w now t i b k) (n : NodeId) :
    k.isActive n = true ↔ i.isActive n = true ∨ b = true ∧ n = t.target := by
  have hk : k.isActive n = (if b then i.entering t.target now else i).isActive n := by
    rw [h.effect]
    rfl
  rw [hk]
  cases b with
  | false => simp
  | true =>
    simp only [if_true, isActive_entering, Bool.or_eq_true, decide_eq_true_iff, true_and]
    rw [or_comm, @eq_comm _ n]

theorem room (h : Arrives w now t i b k) (hb : b = true) :
    (i.visits t.target).toNat < w.visitLimit.toNat := by
  subst hb
  cases h with
  | any _ _ enter =>
    obtain ⟨-, -, hv, -⟩ := (activate_ok enter).resolve_left (by simp)
    exact hv
  | last _ _ _ enter =>
    obtain ⟨-, -, hv, -⟩ := (activate_ok enter).resolve_left (by simp)
    exact hv

theorem admits_iff (h : Arrives w now t i b k) (n : NodeId) :
    k.Admits w n ↔ i.Admits w n := by
  have hw : k.workflow = i.workflow := by
    rw [h.effect]
    cases b <;> rfl
  have hbal := h.balance.2.1 n
  rw [Admits, Admits, hw]
  refine and_congr_right fun _ => ?_
  cases hk : k.isActive n with
  | false =>
    have hi : i.isActive n = false := by
      by_contra hi
      rw [h.balance.2.2 n (by simpa using hi)] at hk
      cases hk
    rw [hk, hi] at hbal
    simp only [Bool.toNat_false, Nat.add_zero] at hbal
    simp [hi, hbal]
  | true =>
    simp only [true_or, true_iff]
    rcases (h.isActive_iff n).1 hk with hi | ⟨hb, rfl⟩
    · exact .inl hi
    · exact .inr (h.room hb)

end Arrives

theorem arrive_ok_iff (ht : w.transition? t.id = some t) :
    (∃ b j, i.arrive w now t = (.ok b, j)) ↔ (Called w [t] i t.target → i.Admits w t.target) := by
  have hcontains : w.contains t.target = true := w.wellFormed.target_mem ht
  constructor
  · rintro ⟨b, j, h⟩ hc
    cases arrive_ok h with
    | any _ _ enter => exact (activate_ok_iff hcontains).1 ⟨_, _, enter⟩
    | last _ _ _ enter =>
      have hadmits := (activate_ok_iff hcontains).1 ⟨_, _, enter⟩
      exact hadmits
    | waits node gate mem missing =>
      exact absurd hc (not_called_of_missing ht node gate mem missing)
  · intro h
    obtain ⟨x, hx⟩ : ∃ x, w.node? t.target = some x := Option.isSome_iff_exists.1 hcontains
    have hid := Workflow.node_id hx
    have hreq : w.requireNode t.target = .ok x := by rw [Workflow.requireNode, hx]
    have henter : ∀ k : Instance, (k.Admits w t.target ↔ i.Admits w t.target) →
        Called w [t] i t.target → ∃ b j, k.activate w t.target now = (.ok b, j) :=
      fun k hk hc => (activate_ok_iff hcontains).2 (hk.2 (h hc))
    rw [arrive, hreq]
    simp only [hid]
    cases hg : x.join with
    | or =>
      simp only
      split
      · obtain ⟨b, j, ha⟩ := henter i .rfl (called_of_any hx hg)
        exact ⟨b, j, by rw [ha]⟩
      · exact ⟨false, i, rfl⟩
    | and =>
      simp only
      split
      case isTrue hj =>
        simp only [Workflow.joinHolds, hg, hid, List.all_eq_true] at hj
        obtain ⟨b, j, ha⟩ := henter ((i.recordArrival t.target t.id).clearArrivals t.target) .rfl
          (called_of_last ht hj)
        exact ⟨b, j, by rw [ha]⟩
      case isFalse => exact ⟨false, _, rfl⟩

theorem arriveAll_ok_iff (hts : ∀ t ∈ ts, w.transition? t.id = some t) :
    (∃ ns j, i.arriveAll w now ts = (.ok ns, j)) ↔ ∀ n, Called w ts i n → i.Admits w n := by
  induction ts generalizing i with
  | nil =>
    simp only [arriveAll]
    refine ⟨fun _ n hn => ?_, fun _ => ⟨[], i, rfl⟩⟩
    obtain ⟨t, ht, -⟩ := hn.comes
    cases ht
  | cons t ts ih =>
    obtain ⟨ht, hts⟩ := List.forall_mem_cons.1 hts
    constructor
    · rintro ⟨ns, j, h⟩ n hn
      obtain ⟨b, k, ms, hr, hm, -⟩ := arriveAll_cons_ok h
      have harr := arrive_ok hr
      rcases (harr.called_cons ht).1 hn with ⟨rfl, hc⟩ | hc
      · exact (arrive_ok_iff ht).1 ⟨b, k, hr⟩ hc
      · exact (harr.admits_iff n).1 ((ih hts).1 ⟨ms, j, hm⟩ n hc)
    · intro h
      obtain ⟨b, k, hr⟩ : ∃ b k, i.arrive w now t = (.ok b, k) :=
        (arrive_ok_iff ht).2 fun hc => h _ (hc.mono (by simp))
      have harr := arrive_ok hr
      obtain ⟨ns, j, hm⟩ := (ih (i := k) hts).2 fun n hc =>
        (harr.admits_iff n).2 (h n ((harr.called_cons ht).2 (.inr hc)))
      simp only [arriveAll, hr, hm]
      exact ⟨_, j, rfl⟩

def enterAll (now : Moment) (ns : List NodeId) (i : Instance) : Instance :=
  ns.foldl (fun i n => i.entering n now) i

instance : RightCommutative fun (i : Instance) n => i.entering n now where
  right_comm i m n := by
    by_cases e : m = n
    · rw [e]
    have hm : (i.entering n now).visits m = i.visits m := by
      simp [visits, entering, Keyed.get?_insert, Ne.symm e]
    have hn : (i.entering m now).visits n = i.visits n := by
      simp [visits, entering, Keyed.get?_insert, e]
    rw [entering, hn, entering.eq_1 (i.entering n now), hm]
    simp only [entering, Keyed.insert_comm e, Keyed.add_comm _ m n]

theorem enterAll_arrivals (ns : List NodeId) (i : Instance) (a : Keyed NodeId IdSet) :
    enterAll now ns { i with arrivals := a } = { enterAll now ns i with arrivals := a } := by
  induction ns generalizing i with
  | nil => rfl
  | cons n ns ih => exact ih (i.entering n now)

theorem enterAll_history (ns : List NodeId) (i : Instance) (h : List Firing) :
    enterAll now ns { i with history := h } = { enterAll now ns i with history := h } := by
  induction ns generalizing i with
  | nil => rfl
  | cons n ns ih => exact ih (i.entering n now)

theorem enterAll_moment (ns : List NodeId) (i : Instance) (now now' m : Moment) :
    enterAll now' ns { i with updated := m } =
      { enterAll now ns i with updated := (enterAll now' ns { i with updated := m }).updated } := by
  induction ns generalizing i m with
  | nil => rfl
  | cons n ns ih => exact ih (i.entering n now) now'

theorem arriveAll_effect (hts : ∀ t ∈ ts, w.transition? t.id = some t)
    (h : i.arriveAll w now ts = (.ok ns, j)) :
    ns.Nodup ∧ (∀ n, n ∈ ns ↔ Called w ts i n ∧ i.isActive n = false) ∧
      j = { enterAll now ns i with arrivals := j.arrivals } := by
  induction ts generalizing i ns with
  | nil =>
    cases h
    refine ⟨.nil, fun n => ?_, rfl⟩
    simp only [List.not_mem_nil, false_iff, not_and]
    intro hn
    obtain ⟨t, ht, -⟩ := hn.comes
    cases ht
  | cons t ts ih =>
    obtain ⟨ht, hts⟩ := List.forall_mem_cons.1 hts
    obtain ⟨b, k, ms, hr, hm, rfl⟩ := arriveAll_cons_ok h
    -- what `t` enters is active for the arrivals behind it, so no node is entered twice
    obtain ⟨hnodup, hmem, heffect⟩ := ih hts hm
    have harr := arrive_ok hr
    have hentered := harr.entered_iff ht
    have hactive := harr.isActive_iff
    have hmore : ∀ n, n ∈ (if b then t.target :: ms else ms) ↔
        b = true ∧ n = t.target ∨ n ∈ ms := by
      intro n
      cases b <;> simp
    refine ⟨?_, fun n => ?_, ?_⟩
    · cases b with
      | false => exact hnodup
      | true =>
        refine List.nodup_cons.2 ⟨fun hin => ?_, hnodup⟩
        have hk : k.isActive t.target = true := (hactive t.target).2 (.inr ⟨rfl, rfl⟩)
        rw [((hmem t.target).1 hin).2] at hk
        cases hk
    · have hk : k.isActive n = false ↔ i.isActive n = false ∧ ¬(b = true ∧ n = t.target) := by
        rw [← Bool.not_eq_true, hactive, not_or, Bool.not_eq_true]
      rw [hmore, hmem, hk, harr.called_cons ht, hentered]
      constructor
      · rintro (⟨⟨hc, hi⟩, rfl⟩ | ⟨hc, hi, -⟩)
        · exact ⟨.inl ⟨rfl, hc⟩, hi⟩
        · exact ⟨.inr hc, hi⟩
      · rintro ⟨⟨rfl, hc⟩ | hc, hi⟩
        · exact .inl ⟨⟨hc, hi⟩, rfl⟩
        · by_cases e : (Called w [t] i t.target ∧ i.isActive t.target = false) ∧ n = t.target
          · exact .inl e
          · exact .inr ⟨hc, hi, e⟩
    · calc
        j = { enterAll now ms k with arrivals := j.arrivals } := heffect
        _ = { enterAll now ms { (if b then i.entering t.target now else i) with
              arrivals := k.arrivals } with arrivals := j.arrivals } := by rw [← harr.effect]
        _ = { enterAll now ms (if b then i.entering t.target now else i) with
              arrivals := j.arrivals } := by rw [enterAll_arrivals]
        _ = { enterAll now (if b then t.target :: ms else ms) i with
              arrivals := j.arrivals } := by cases b <;> rfl

end Instance

end Flowgraph
