import Flowgraph.Proofs.Flow.Counts

namespace Flowgraph

namespace Instance

variable {w : Workflow} {i j : Instance} {t u : Transition} {ts : List Transition}
  {ns : List NodeId} {n : NodeId} {b : Bool} {now : Moment} {record : Bool}

def Kept (w : Workflow) (t : Transition) (i : Instance) : Prop :=
  i.isActive t.target = true ∨
    (∃ x, w.node? t.target = some x ∧ x.join = .and) ∧ i.hasArrived t.target t.id = true

def Alive (i : Instance) : Prop := i.active.isEmpty = true → i.arrivals.isEmpty = false

theorem isActive_of_activate (h : i.activate w n now = (.ok b, j)) : j.isActive n = true := by
  rcases activate_ok h with ⟨ha, -, rfl⟩ | ⟨-, -, -, rfl⟩
  · exact ha
  · simp [isActive_entering]

theorem kept_of_arrives (h : Arrives w now t i b j) : Kept w t j := by
  cases h with
  | any _ _ enter => exact .inl (isActive_of_activate enter)
  | last _ _ _ enter => exact .inl (isActive_of_activate enter)
  | waits node gate => exact .inr ⟨⟨_, node, gate⟩, by simp [hasArrived_recordArrival]⟩

theorem Kept.arrives (hk : Kept w u i) (h : Arrives w now t i b j) : Kept w u j := by
  rcases hk with hactive | ⟨hjoin, harrived⟩
  · exact .inl (h.balance.2.2 _ hactive)
  cases h with
  | any _ _ enter =>
    exact .inr ⟨hjoin, by rwa [hasArrived_congr (activate_steps enter).arrivals]⟩
  | last _ _ _ enter =>
    by_cases e : t.target = u.target
    · exact .inl (e ▸ isActive_of_activate enter)
    · refine .inr ⟨hjoin, ?_⟩
      rw [hasArrived_congr (activate_steps enter).arrivals, hasArrived_clearArrivals,
        hasArrived_recordArrival]
      simp [e, harrived]
  | waits => exact .inr ⟨hjoin, by rw [hasArrived_recordArrival, harrived, Bool.or_true]⟩

theorem kept_arriveAll (hts : ∀ t ∈ ts, w.transition? t.id = some t)
    (h : i.arriveAll w now ts = (.ok ns, j)) : ∀ t ∈ ts, Kept w t j := by
  have hrun : ∀ u ∈ ts, u ∈ [] ∨ Kept w u j := by
    refine arriveAll_run (Q := fun rest k => ∀ u ∈ ts, u ∈ rest ∨ Kept w u k) ?_ hts h
      fun u hu => .inl hu
    intro t rest k b k' _ ha hk u hu
    rcases hk u hu with hrest | hkept
    · rcases List.mem_cons.1 hrest with rfl | hrest
      · exact .inr (kept_of_arrives ha)
      · exact .inl hrest
    · exact .inr (hkept.arrives ha)
  exact fun t ht => (hrun t ht).resolve_left List.not_mem_nil

theorem alive_start (w : Workflow) (id : InstanceId) (target : Target) (now : Moment) :
    Alive (.start w id target now) := by
  intro h
  have hroot : (start w id target now).active.isEmpty = false :=
    Keyed.isEmpty_eq_false_iff.2 ⟨w.root, by simp [start, Keyed.contains_add]⟩
  rw [hroot] at h
  cases h

theorem Kept.alive (h : Kept w t i) : Alive i := by
  intro hempty
  rcases h with hactive | ⟨-, harrived⟩
  · have hsome : i.active.isEmpty = false := Keyed.isEmpty_eq_false_iff.2 ⟨t.target, hactive⟩
    rw [hsome] at hempty
    cases hempty
  · refine Keyed.isEmpty_eq_false_iff.2 ⟨t.target, ?_⟩
    rw [hasArrived, arrivalsAt] at harrived
    rw [Keyed.contains]
    cases hget : i.arrivals.get? t.target with
    | none => simp [hget] at harrived
    | some a => rfl

end Instance

namespace Workflow

variable {w : Workflow} {i j : Instance} {taken : List Transition} {ns : List NodeId}
  {now : Moment} {record : Bool}

theorem Move.kept (h : w.Move record now i taken ns j) : ∀ t ∈ taken, j.Kept w t := by
  cases h with
  | finish => simp
  | rest => simp
  | fire _ selects _ arrive =>
    exact Instance.kept_arriveAll (fun t ht => selects.transition ht) arrive

theorem Move.alive (h : w.Move record now i taken ns j) (hi : i.Alive) : j.Alive := by
  have hkept := h.kept
  cases h with
  | finish => exact hi
  | rest => exact hi
  | fire _ _ some _ =>
    obtain ⟨t, ts, rfl⟩ := List.exists_cons_of_ne_nil some
    exact (hkept t List.mem_cons_self).alive

theorem Reaches.alive {allow : Options → Prop} (h : w.Reaches allow i j) (hi : i.Alive) :
    j.Alive := by
  induction h with
  | refl => exact hi
  | pass _ _ step ih =>
    obtain ⟨taken, ns, hm, -⟩ := pass_ok step
    exact hm.alive ih
  | stop _ _ ih => exact ih

theorem fires_of_pass {ω : Type} {inv : Invoker ω} {site : Site} {options : Options}
    {p q : Progress ω} {b : Bool} (h : w.pass inv site options now p = (.ok b, q)) :
    b = false ∧ q.report.fired = p.report.fired ∨
      ∃ taken s m, w.splitAll inv site p.current.active.keys s = (.ok taken, m.world) ∧
        m.current = p.current.entered ∧ m.report.fired = p.report.fired ∧
        w.fire options now taken m = (.ok (), q) := by
  rw [pass] at h
  split at h
  case h_1 => cases h
  case h_2 k _ =>
    obtain ⟨m, he, hsweeps⟩ := sweep_cases h
    have hc : m.current = p.current.entered := (enter_pending he rfl :)
    have hf : m.report.fired = p.report.fired := (enter_ok he).2.2.1
    have hactive : m.current.active = p.current.active := by rw [hc]; rfl
    cases hsweeps with
    | finish => exact .inl ⟨rfl, hf⟩
    | rest => exact .inl ⟨rfl, hf⟩
    | @fire taken s _ _ split _ fires =>
      rw [hactive] at split
      exact .inr ⟨taken, m.world, { m with world := s }, split, hc, hf, fires⟩

theorem no_firing_vanishes (w : Workflow) :
    (∀ {ω : Type} (inv : Invoker ω) (site : Site) (options : Options) (now : Moment)
        (p q : Progress ω) (taken : List Transition) (s s' : ω),
        w.splitAll inv site p.current.active.keys s = (.ok taken, s') →
        w.fire options now taken p = (.ok (), q) →
          q.report.fired = p.report.fired ++ taken.map (·.id) ∧
            ∀ t ∈ taken, w.transition? t.id = some t ∧ q.current.Kept w t) ∧
      (∀ {ω : Type} (inv : Invoker ω) (site : Site) (options : Options) (now : Moment)
        (p q : Progress ω) (b : Bool), w.pass inv site options now p = (.ok b, q) →
          b = false ∧ q.report.fired = p.report.fired ∨
            ∃ taken s m, w.splitAll inv site p.current.active.keys s = (.ok taken, m.world) ∧
              m.current = p.current.entered ∧ w.fire options now taken m = (.ok (), q) ∧
              q.report.fired = p.report.fired ++ taken.map (·.id) ∧
              ∀ t ∈ taken, w.transition? t.id = some t ∧ q.current.Kept w t) ∧
      ∀ (id : InstanceId) (target : Target) (now : Moment) (i : Instance),
        w.Reaches (fun _ => True) (.start w id target now) i → i.active.isEmpty = true →
          i.arrivals.isEmpty = false := by
  have hkept : ∀ {ω : Type} {inv : Invoker ω} {site : Site} {options : Options} {now : Moment}
      {p q m : Progress ω} {taken : List Transition} {s s' : ω},
      w.splitAll inv site p.current.active.keys s = (.ok taken, s') →
      w.fire options now taken m = (.ok (), q) →
        q.report.fired = m.report.fired ++ taken.map (·.id) ∧
          ∀ t ∈ taken, w.transition? t.id = some t ∧ q.current.Kept w t := by
    intro ω inv site options now p q m taken s s' hsplit hfire
    have hts : ∀ t ∈ taken, w.transition? t.id = some t :=
      fun t ht => (splitAll_ok (Keyed.nodup_keys _) hsplit).transition ht
    obtain ⟨ns, harrive, hfired, -⟩ := fire_ok hfire
    have hall := Instance.kept_arriveAll hts harrive
    exact ⟨hfired, fun t ht => ⟨hts t ht, hall t ht⟩⟩
  refine ⟨?_, ?_, ?_⟩
  · intro ω inv site options now p q taken s s' hsplit hfire
    exact hkept hsplit hfire
  · intro ω inv site options now p q b h
    rcases fires_of_pass h with hrest | ⟨taken, s, m, hsplit, hm, hreport, hfire⟩
    · exact .inl hrest
    · obtain ⟨hfired, hall⟩ := hkept hsplit hfire
      exact .inr ⟨taken, s, m, hsplit, hm, hfire, hreport ▸ hfired, hall⟩
  · intro id target now i h
    exact h.alive (Instance.alive_start w id target now)

def lopsidedDraft : Draft where
  id := "lopsided"
  name := "Lopsided"
  model := "order"
  nodes := [
    { id := "a", name := "A", kind := .start },
    { id := "b", name := "B", kind := .finish, join := .and }]
  transitions := [
    { id := "ab", source := "a", target := "b" }, { id := "ba", source := "a", target := "b" }]

def lopsided : Workflow := lopsidedDraft.build.toOption.get (by decide +kernel)

def lopsidedStart : Instance := .start lopsided "1" ⟨"order", "7"⟩ diamondStart.created

def lopsidedSite : Site := { workflow := "lopsided", target := ⟨"order", "7"⟩ }

def lopsidedTaken : List Transition := [{ id := "ab", source := "a", target := "b" }]

def lopsidedFired : Except EngineError Unit × Progress Unit :=
  lopsided.fire {} diamondStart.created lopsidedTaken ⟨lopsidedStart, {}, ()⟩

def lopsidedPass : Except EngineError Bool × Progress Unit :=
  lopsided.pass (steady (.ok .null)) lopsidedSite {} diamondStart.created ⟨lopsidedStart, {}, ()⟩

theorem no_firing_vanishes_lopsided :
    (lopsided.splitAll (steady (.ok .null)) lopsidedSite lopsidedStart.active.keys () =
        (.ok lopsidedTaken, ()) ∧
      lopsidedFired.1.isOk = true ∧ lopsidedFired.2.report.fired = ["ab"] ∧
      ∀ t ∈ lopsidedTaken, lopsidedFired.2.current.Kept lopsided t) ∧
      (lopsidedPass.1.toOption = some true ∧
        ∃ taken, lopsidedPass.2.report.fired = taken.map (·.id) ∧ taken ≠ [] ∧
          ∀ t ∈ taken, lopsidedPass.2.current.Kept lopsided t) ∧
      lopsided.Reaches (fun _ => True) lopsidedStart lopsidedPass.2.current ∧
      lopsidedPass.2.current.active.isEmpty = true ∧
      lopsidedPass.2.current.arrivals.isEmpty = false := by
  obtain ⟨hfire, hpass, halive⟩ := no_firing_vanishes lopsided
  refine ⟨?_, ?_⟩
  · have hsplit : lopsided.splitAll (steady (.ok .null)) lopsidedSite lopsidedStart.active.keys () =
        (.ok lopsidedTaken, ()) := by cbv
    have hok : lopsidedFired.1.isOk = true := by cbv
    rcases hr : lopsidedFired with ⟨e | _, q⟩
    · rw [hr] at hok
      cases hok
    obtain ⟨hfired, hall⟩ := hfire _ _ _ _ ⟨lopsidedStart, {}, ()⟩ q _ _ _ hsplit hr
    exact ⟨hsplit, rfl, hfired, fun t ht => (hall t ht).2⟩
  · have hok : lopsidedPass.1.toOption = some true := by cbv
    have hempty : lopsidedPass.2.current.active.isEmpty = true := by cbv
    rcases hr : lopsidedPass with ⟨e | b, q⟩ <;> rw [hr] at hok hempty <;> cases hok
    have hreach : lopsided.Reaches (fun _ => True) lopsidedStart q.current :=
      .pass .refl trivial hr
    refine ⟨⟨rfl, ?_⟩, hreach, hempty, halive _ _ _ _ hreach hempty⟩
    obtain ⟨hb, -⟩ | ⟨taken, s, m, -, -, -, hfired, hall⟩ := hpass _ _ _ _ _ _ _ hr
    · cases hb
    · have hids : q.report.fired = ["ab"] := by
        have hids : lopsidedPass.2.report.fired = ["ab"] := by cbv
        rwa [hr] at hids
      refine ⟨taken, hfired, ?_, fun t ht => (hall t ht).2⟩
      rintro rfl
      rw [hids] at hfired
      cases hfired

end Workflow

end Flowgraph
