import Flowgraph.Proofs.Flow.Counts
import Flowgraph.Proofs.Run.Log

namespace Flowgraph

variable {ω : Type} {w : Workflow} {site : Site} {options : Options} {now : Moment}
  {l : List ActionCall} {i j : Instance} {n : NodeId}

def callsFor (n : NodeId) (l : List ActionCall) : Nat := l.countP fun c => c.site.node = some n

theorem callsFor_append (n : NodeId) (l l' : List ActionCall) :
    callsFor n (l ++ l') = callsFor n l + callsFor n l' :=
  List.countP_append

theorem Workflow.callsFor_entryCalls {x : Node} {key : String} (hx : w.node? n = some x)
    (hk : x.action = some key) (site : Site) {ns : List NodeId} (hns : ns.Nodup) :
    callsFor n (w.entryCalls site ns) = if n ∈ ns then 1 else 0 := by
  induction ns with
  | nil => rfl
  | cons m ns ih =>
    obtain ⟨hm, hns'⟩ := List.nodup_cons.1 hns
    have hcons : w.entryCalls site (m :: ns) =
        ((w.node? m).bind fun x => x.action.map fun key => ⟨key, site.atNode m⟩).toList ++
          w.entryCalls site ns := by
      rw [entryCalls, List.filterMap_cons]
      rcases (w.node? m).bind fun x => x.action.map fun key => ActionCall.mk key (site.atNode m) <;>
        rfl
    rw [hcons, callsFor_append, ih hns']
    by_cases e : m = n
    · subst e
      simp [hx, hk, hm, callsFor, Site.atNode]
    · have hnone : callsFor n
          ((w.node? m).bind fun x => x.action.map fun key => ⟨key, site.atNode m⟩).toList = 0 := by
        refine List.countP_eq_zero.2 fun c hc => ?_
        obtain ⟨y, -, hy⟩ := Option.bind_eq_some_iff.1 (Option.mem_toList.1 hc)
        obtain ⟨key', -, rfl⟩ := Option.map_eq_some_iff.1 hy
        simp [Site.atNode, e]
      rw [hnone, Nat.zero_add]
      simp [Ne.symm e]

theorem Workflow.mem_entryCalls {c : ActionCall} {ns : List NodeId}
    (h : c ∈ w.entryCalls site ns) :
    ∃ n x, c.site.node = some n ∧ w.node? n = some x ∧ x.action = some c.key := by
  obtain ⟨n, -, hn⟩ := List.mem_filterMap.1 h
  obtain ⟨x, hx, hc⟩ := Option.bind_eq_some_iff.1 hn
  obtain ⟨key, hkey, rfl⟩ := Option.map_eq_some_iff.1 hc
  exact ⟨n, x, rfl, hx, hkey⟩

theorem Instance.pending_depart (h : i.pending = .empty) (record : Bool) (now : Moment)
    (ts : List Transition) : (i.depart record now ts).pending = .empty := by
  induction ts generalizing i with
  | nil => exact h
  | cons t ts ih =>
    have hleft : (i.deactivate t.source now).pending = .empty := by
      rw [Instance.deactivate, h]
      rfl
    cases record <;> exact ih hleft

structure Paid (w : Workflow) (l : List ActionCall) (i : Instance) : Prop where
  balance : ∀ n x key, w.node? n = some x → x.action = some key →
    callsFor n l + (i.pending.contains n).toNat = (i.visits n).toNat
  active : ∀ n, i.pending.contains n = true → i.isActive n = true
  own : ∀ c ∈ l, ∃ n x, c.site.node = some n ∧ w.node? n = some x ∧ x.action = some c.key

namespace Paid

theorem start (w : Workflow) (id : InstanceId) (target : Target) (now : Moment) :
    Paid w [] (.start w id target now) where
  balance n x key _ _ := by
    have hvisits : (Instance.start w id target now).visits n = if w.root = n then 1 else 0 := by
      rw [Instance.visits, Instance.start, Keyed.get?_insert]
      split <;> rfl
    have hpending : (Instance.start w id target now).pending.contains n = decide (w.root = n) := by
      rw [Instance.start, Keyed.contains_add, Keyed.contains_empty, Bool.or_false]
    rw [hvisits, hpending]
    by_cases e : w.root = n <;> simp [e, callsFor]
  active n h := h
  own c h := by cases h

theorem enter (h : Paid w l i) (site : Site) :
    Paid w (l ++ w.entryCalls site i.pending.keys) i.entered where
  balance n x key hx hk := by
    have hbefore := h.balance n x key hx hk
    have hvisits : i.entered.visits n = i.visits n := rfl
    have hempty : i.entered.pending.contains n = false := rfl
    rw [callsFor_append, Workflow.callsFor_entryCalls hx hk site (Keyed.nodup_keys _), hvisits,
      hempty]
    cases hp : i.pending.contains n <;> rw [hp] at hbefore <;>
      simpa [Keyed.mem_keys_iff, hp] using hbefore
  active n h := by cases h
  own c hc := by
    rcases List.mem_append.1 hc with hc | hc
    · exact h.own c hc
    · exact Workflow.mem_entryCalls hc

theorem activate (h : Paid w l i) {m : NodeId} {b : Bool}
    (ha : i.activate w m now = (.ok b, j)) : Paid w l j := by
  rcases Instance.activate_ok ha with ⟨-, -, rfl⟩ | ⟨hout, -, hv, rfl⟩
  · exact h
  -- A node that is not active is not pending, so it is due once more, for the visit that it gets.
  have hidle : i.pending.contains m = false := Bool.eq_false_iff.2 fun hp => by
    rw [h.active m hp] at hout
    cases hout
  refine ⟨fun n x key hx hk => ?_, fun n hp => ?_, h.own⟩
  · have hbefore := h.balance n x key hx hk
    rw [Instance.visits_entering hv, Instance.entering, Keyed.contains_add]
    by_cases e : m = n
    · subst e
      rw [hidle] at hbefore
      simp only [decide_true, Bool.true_or, Bool.toNat_true, if_true]
      exact congrArg (· + 1) hbefore
    · simpa [e] using hbefore
  · rw [Instance.entering, Keyed.contains_add, Bool.or_eq_true] at hp
    rw [Instance.isActive_entering, Bool.or_eq_true]
    exact hp.imp_right (h.active n)

theorem arrives {t : Transition} {b : Bool} (h : Paid w l i) (ha : i.Arrives w now t b j) :
    Paid w l j := by
  cases ha with
  | any _ _ enter => exact h.activate enter
  | last _ _ _ enter =>
    have hcleared : Paid w l ((i.recordArrival t.target t.id).clearArrivals t.target) :=
      ⟨h.balance, h.active, h.own⟩
    exact hcleared.activate enter
  | waits => exact ⟨h.balance, h.active, h.own⟩

theorem depart (h : Paid w l i) (hidle : i.pending = .empty) (record : Bool)
    (ts : List Transition) : Paid w l (i.depart record now ts) := by
  have hidle' := Instance.pending_depart hidle record now ts
  refine ⟨fun n x key hx hk => ?_, fun n hp => ?_, h.own⟩
  · rw [Instance.visits_depart, hidle', ← hidle]
    exact h.balance n x key hx hk
  · rw [hidle'] at hp
    cases hp

theorem arriveAll (h : Paid w l i) {ts : List Transition}
    (hts : ∀ t ∈ ts, w.transition? t.id = some t) {ns : List NodeId}
    (ha : i.arriveAll w now ts = (.ok ns, j)) : Paid w l j :=
  Instance.arriveAll_run (Q := fun _ i => Paid w l i) (fun _ ha h => h.arrives ha) hts ha h

variable {inv : Invoker ω} {p q m : Progress (ω × List ActionCall)} {taken : List Transition}
  {b : Bool}

theorem ready (h : Paid w p.world.2 p.current)
    (hr : w.ready inv.logged site p = (.ok taken, m)) :
    Paid w m.world.2 m.current ∧ m.current.pending = .empty := by
  obtain ⟨hentered, -⟩ := Workflow.ready_ok hr
  obtain ⟨l', hlogged, hgrown⟩ := w.ready_logged inv site p.world.2
    ⟨p.current, p.report, p.world.1⟩
  rw [Progress.withLog, hr] at hlogged
  obtain ⟨hanswer, hm⟩ := Prod.mk.inj hlogged
  have hlog : m.world.2 = p.world.2 ++ w.entryCalls site p.current.pending.keys := by
    rw [hm, ← hgrown taken hanswer.symm]
    rfl
  rw [hentered, hlog]
  exact ⟨h.enter site, rfl⟩

theorem conclude (h : Paid w m.world.2 m.current) (hidle : m.current.pending = .empty)
    (hts : ∀ t ∈ taken, w.transition? t.id = some t)
    (hq : w.conclude options now (.ok taken, m) = (.ok b, q)) : Paid w q.world.2 q.current := by
  rcases taken with _ | ⟨t, ts⟩
  · cases hq
    simp only
    split
    · exact ⟨h.balance, h.active, h.own⟩
    · exact ⟨h.balance, h.active, h.own⟩
  rw [Workflow.conclude, Workflow.fire] at hq
  · rcases ha : (m.current.depart options.recordHistory now (t :: ts)).arriveAll w now
      (t :: ts) with
      ⟨e | ns, k⟩ <;> simp only [ha] at hq <;> cases hq
    exact (h.depart hidle options.recordHistory (t :: ts)).arriveAll hts ha
  · simp

theorem pass (h : Paid w p.world.2 p.current)
    (hp : w.pass inv.logged site options now p = (.ok b, q)) : Paid w q.world.2 q.current := by
  rw [Workflow.pass_eq] at hp
  rcases hr : w.ready inv.logged site p with ⟨e | taken, m⟩ <;> rw [hr] at hp
  · cases hp
  obtain ⟨hm, hidle⟩ := h.ready hr
  refine hm.conclude hidle (fun t ht => ?_) hp
  rcases (Workflow.ready_ok hr).2 with rfl | hselects
  · cases ht
  · exact hselects.transition ht

theorem passes (h : Paid w p.world.2 p.current) {k : Nat}
    (hp : w.passes inv.logged site options now k p = (.ok (), q)) :
    Paid w q.world.2 q.current := by
  induction k generalizing p with
  | zero =>
    cases hp
    exact ⟨h.balance, h.active, h.own⟩
  | succ k ih =>
    rw [Workflow.passes] at hp
    rcases hr : w.pass inv.logged site options now p with ⟨e | b, p₁⟩ <;> rw [hr] at hp
    · cases hp
    cases b with
    | false =>
      cases hp
      exact h.pass hr
    | true => exact ih (h.pass hr) hp

theorem advance (h : Paid w l i) {actor : Option String} {s s' : ω} {l' : List ActionCall}
    {r : Report} (ha : w.advance inv.logged options now actor i (s, l) = (.ok r, j, s', l')) :
    Paid w l' j := by
  rw [Workflow.advance] at ha
  simp only at ha
  split at ha
  · cases ha
  case h_2 q hq =>
    obtain ⟨-, hrest⟩ := Prod.mk.inj ha
    obtain ⟨rfl, hworld⟩ := Prod.mk.inj hrest
    have hpaid := passes (p := ⟨i, {}, s, l⟩) h hq
    rw [hworld] at hpaid
    exact hpaid

end Paid

namespace Workflow

inductive Advances (w : Workflow) (i : Instance) : List ActionCall → Instance → Prop
  | refl : Advances w i [] i
  | advance {ω : Type} {inv : Invoker ω} {options : Options} {now : Moment} {actor : Option String}
      {l : List ActionCall} {j k : Instance} {s s' : ω} {r : Report} (before : Advances w i l j)
      (step : w.advance inv options now actor j s = (.ok r, k, s')) :
      Advances w i (w.logAfter inv options now l actor j s) k

inductive Passing (w : Workflow) (inv : Invoker ω) (site : Site) (options : Options)
    (now : Moment) (p : Progress ω) : Progress ω → Prop
  | refl : Passing w inv site options now p p
  | pass {q q' : Progress ω} (before : Passing w inv site options now p q)
      (step : w.pass inv site options now q = (.ok true, q')) : Passing w inv site options now p q'

theorem Advances.paid (h : w.Advances i l j) (hi : Paid w [] i) : Paid w l j := by
  induction h with
  | refl => exact hi
  | @advance ω inv options now actor l j k s s' r before step ih =>
    have hlogged := w.advance_logged inv options now l actor j s
    rw [step] at hlogged
    exact ih.advance hlogged

theorem Passing.paid {inv : Invoker ω} {p q : Progress (ω × List ActionCall)}
    (h : w.Passing inv.logged site options now p q) (hp : Paid w p.world.2 p.current) :
    Paid w q.world.2 q.current := by
  induction h with
  | refl => exact hp
  | pass _ step ih => exact ih.pass step

theorem pass_of_ready {inv : Invoker ω} {p m : Progress ω} {taken : List Transition}
    (h : w.ready inv site p = (.ok taken, m)) (hts : taken ≠ []) :
    w.pass inv site options now p =
      ((w.fire options now taken m).1.map fun _ => true, (w.fire options now taken m).2) := by
  rw [pass_eq, h, conclude]
  · rcases w.fire options now taken m with ⟨e | _, q⟩ <;> rfl
  · exact hts

theorem entry_actions_once {id : InstanceId} {target : Target}
    (h : w.Advances (.start w id target now) l i) :
    (∀ n x key, w.node? n = some x → x.action = some key →
      callsFor n l + (i.pending.contains n).toNat = (i.visits n).toNat) ∧
    (∀ c ∈ l, ∃ n x, c.site.node = some n ∧ w.node? n = some x ∧ x.action = some c.key) ∧
    ∀ {ω : Type} (inv : Invoker ω) (site : Site) (options : Options) (now : Moment) (s : ω)
      (p m : Progress (ω × List ActionCall)) (taken : List Transition),
      w.Passing inv.logged site options now ⟨i, {}, s, l⟩ p →
      w.ready inv.logged site p = (.ok taken, m) → taken ≠ [] →
      w.pass inv.logged site options now p =
          ((w.fire options now taken m).1.map fun _ => true, (w.fire options now taken m).2) ∧
        ∀ t ∈ taken, m.current.isActive t.source = true ∧
          m.current.pending.contains t.source = false ∧
          ∀ x key, w.node? t.source = some x → x.action = some key →
            callsFor t.source m.world.2 = (m.current.visits t.source).toNat := by
  have hpaid := h.paid (Paid.start w id target _)
  refine ⟨hpaid.balance, hpaid.own, fun {ω} inv site options now s p m taken hp hr hts => ?_⟩
  obtain ⟨hm, hidle⟩ := (hp.paid (p := ⟨i, {}, s, l⟩) hpaid).ready hr
  obtain ⟨hentered, hselects⟩ := ready_ok hr
  refine ⟨pass_of_ready hr hts, fun t ht => ⟨?_, ?_, fun x key hx hk => ?_⟩⟩
  · have hmem := (hselects.resolve_left hts).source_mem t ht
    rw [hentered]
    exact Keyed.mem_keys_iff.1 hmem
  · rw [hidle]
    rfl
  · have hbalance := hm.balance t.source x key hx hk
    rw [hidle] at hbalance
    exact hbalance

theorem entry_actions_once_diamond :
    ∃ l, diamond.Advances diamondStart l diamondEnd ∧
      (diamond.node? "b").bind (·.action) = some "notify" ∧ callsFor "b" l = 1 ∧
      (diamondEnd.visits "b").toNat = 1 := by
  have hok : (diamond.advance (steady (.ok .null)) {} diamondStart.created none
      diamondStart ()).1.isOk = true := by cbv
  obtain ⟨x, hx, hk⟩ := Option.bind_eq_some_iff.1
    (show (diamond.node? "b").bind (·.action) = some "notify" by decide +kernel)
  rcases hr : diamond.advance (steady (.ok .null)) {} diamondStart.created none diamondStart () with
    ⟨e | r, j, s⟩
  · rw [hr] at hok
    cases hok
  have hj : diamondEnd = j := by rw [diamondEnd, hr]
  have hadvances := Advances.refl (w := diamond) (i := diamondStart) |>.advance hr
  have honce := (entry_actions_once hadvances).1 "b" x "notify" hx hk
  rw [← hj] at hadvances honce
  have hvisits : (diamondEnd.visits "b").toNat = 1 := by cbv
  have hpending : diamondEnd.pending.contains "b" = false := by cbv
  refine ⟨_, hadvances, by decide +kernel, ?_, hvisits⟩
  rw [hpending, hvisits] at honce
  exact honce

end Workflow

end Flowgraph
