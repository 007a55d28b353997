import Flowgraph.Proofs.Graph.Canonical

namespace Flowgraph

inductive Part where
  | node (n : Node)
  | transition (t : Transition)
deriving DecidableEq, Repr

namespace Draft

def blank (h : Header) : Draft := { h with }

def add (d : Draft) : Part → Except GraphError Draft
  | .node n => d.addNode n
  | .transition t => d.addTransition t

abbrev Filling := ExceptT GraphError (StateM Draft)

def take : Part → Filling Unit
  | .node n => do
      let d ← get
      if d.nodeIds.contains n.id then throw (.duplicateNode n.id)
      set { d with nodes := d.nodes ++ [n] }
  | .transition t => do
      let d ← get
      if d.transitionIds.contains t.id then throw (.duplicateTransition t.id)
      match d.looseEnd? t with
      | some n => throw (.dangling d.id t.id n)
      | none => set { d with transitions := d.transitions ++ [t] }

def request (d : Draft) (p : Part) : Except GraphError Unit × Draft := (take p).run.run d

def requestAll (d : Draft) (ps : List Part) : Except GraphError Unit × Draft :=
  (ps.forM take).run.run d

def grow (d : Draft) (ps : List Part) : Draft := ps.foldl (fun d p => (d.request p).2) d

variable {d d' : Draft} {n : Node} {t : Transition} {ns : List Node} {ts : List Transition}
  {p : Part} {ps : List Part} {w : Workflow} {e : GraphError}

theorem request_eq (d : Draft) (p : Part) :
    d.request p =
      match d.add p with
      | .error e => (.error e, d)
      | .ok d' => (.ok (), d') := by
  cases p with
  | node n =>
    have hrun : d.request (.node n) = ((if d.nodeIds.contains n.id then throw (.duplicateNode n.id)
        else set { d with nodes := d.nodes ++ [n] } : Filling Unit).run.run d) := rfl
    rw [hrun, add, addNode]
    split <;> rfl
  | transition t =>
    have hrun : d.request (.transition t) =
        ((if d.transitionIds.contains t.id then throw (.duplicateTransition t.id)
          else match d.looseEnd? t with
            | some n => throw (.dangling d.id t.id n)
            | none => set { d with transitions := d.transitions ++ [t] } :
          Filling Unit).run.run d) := rfl
    rw [hrun, add, addTransition]
    split
    · rfl
    · cases d.looseEnd? t <;> rfl

theorem requestAll_cons (d : Draft) (p : Part) (ps : List Part) :
    d.requestAll (p :: ps) =
      match d.request p with
      | (.error e, d') => (.error e, d')
      | (.ok (), d') => d'.requestAll ps := by
  have hrun : d.requestAll (p :: ps) = ((take p >>= fun _ => ps.forM take).run.run d) := rfl
  rw [hrun, request, ExceptT.run_bind, StateT.run_bind]
  rcases (take p).run.run d with ⟨e | _, d'⟩ <;> rfl

theorem requestAll_ok_iff : d.requestAll ps = (.ok (), d') ↔ ps.foldlM add d = .ok d' := by
  induction ps generalizing d with
  | nil =>
    have hnil : d.requestAll [] = (.ok (), d) := rfl
    simp [hnil, pure, Except.pure]
  | cons p ps ih =>
    rw [requestAll_cons, request_eq, List.foldlM_cons]
    cases d.add p with
    | error e => simp [bind, Except.bind]
    | ok d₁ => exact ih

structure Coherent (d : Draft) : Prop where
  nodes : d.nodeIds.Nodup
  ends : ∀ t ∈ d.transitions, t.source ∈ d.nodeIds ∧ t.target ∈ d.nodeIds
  transitions : d.transitionIds.Nodup

theorem WellFormed.coherent (h : d.WellFormed) : d.Coherent := ⟨h.nodes, h.ends, h.transitions⟩

theorem coherent_blank (h : Header) : (blank h).Coherent := ⟨.nil, by simp [blank], .nil⟩

theorem nodeIds_append (d : Draft) (ns : List Node) :
    ({ d with nodes := d.nodes ++ ns } : Draft).nodeIds = d.nodeIds ++ ns.map (·.id) :=
  List.map_append

theorem transitionIds_append (d : Draft) (ts : List Transition) :
    ({ d with transitions := d.transitions ++ ts } : Draft).transitionIds =
      d.transitionIds ++ ts.map (·.id) :=
  List.map_append

namespace Coherent

theorem addNode (h : d.Coherent) (hn : d.addNode n = .ok d') : d'.Coherent := by
  obtain ⟨hfree, rfl⟩ := addNode_ok_iff.1 hn
  have hids := nodeIds_append d [n]
  refine ⟨?_, fun t ht => ?_, h.transitions⟩
  · rw [hids]
    exact h.nodes.append (List.nodup_singleton _) (by simpa using hfree)
  · rw [hids]
    exact ⟨List.mem_append_left _ (h.ends t ht).1, List.mem_append_left _ (h.ends t ht).2⟩

theorem addTransition (h : d.Coherent) (ht : d.addTransition t = .ok d') : d'.Coherent := by
  obtain ⟨hfree, hends, rfl⟩ := addTransition_ok_iff.1 ht
  refine ⟨h.nodes, fun u hu => ?_, ?_⟩
  · rcases List.mem_append.1 hu with hu | hu
    · exact h.ends u hu
    · rw [List.mem_singleton.1 hu]
      exact hends
  · rw [transitionIds_append]
    exact h.transitions.append (List.nodup_singleton _) (by simpa using hfree)

theorem add (h : d.Coherent) (hp : d.add p = .ok d') : d'.Coherent := by
  cases p with
  | node n => exact h.addNode hp
  | transition t => exact h.addTransition hp

end Coherent

theorem addNodes_ok_iff (h : d.Coherent) :
    ns.foldlM addNode d = .ok d' ↔ d' = { d with nodes := d.nodes ++ ns } ∧ d'.Coherent := by
  induction ns generalizing d with
  | nil =>
    simp only [List.foldlM_nil, pure, Except.pure, Except.ok.injEq, List.append_nil]
    exact ⟨fun e => ⟨e.symm, e ▸ h⟩, fun e => e.1.symm⟩
  | cons n ns ih =>
    rw [List.foldlM_cons, Except.bind_ok_iff]
    constructor
    · rintro ⟨d₁, hn, hns⟩
      obtain ⟨rfl, hd'⟩ := (ih (h.addNode hn)).1 hns
      obtain ⟨-, rfl⟩ := addNode_ok_iff.1 hn
      exact ⟨by simp, hd'⟩
    · rintro ⟨rfl, hd'⟩
      have hids := hd'.nodes
      rw [nodeIds_append, List.map_cons, List.nodup_append_comm, List.cons_append,
        List.nodup_cons] at hids
      have hn := addNode_ok_iff.2 ⟨fun hm => hids.1 (List.mem_append_right _ hm), rfl⟩
      exact ⟨_, hn, (ih (h.addNode hn)).2 ⟨by simp, hd'⟩⟩

theorem addTransitions_ok_iff (h : d.Coherent) :
    ts.foldlM addTransition d = .ok d' ↔
      d' = { d with transitions := d.transitions ++ ts } ∧ d'.Coherent := by
  induction ts generalizing d with
  | nil =>
    simp only [List.foldlM_nil, pure, Except.pure, Except.ok.injEq, List.append_nil]
    exact ⟨fun e => ⟨e.symm, e ▸ h⟩, fun e => e.1.symm⟩
  | cons t ts ih =>
    rw [List.foldlM_cons, Except.bind_ok_iff]
    constructor
    · rintro ⟨d₁, ht, hts⟩
      obtain ⟨rfl, hd'⟩ := (ih (h.addTransition ht)).1 hts
      obtain ⟨-, -, rfl⟩ := addTransition_ok_iff.1 ht
      exact ⟨by simp, hd'⟩
    · rintro ⟨rfl, hd'⟩
      have hids := hd'.transitions
      rw [transitionIds_append, List.map_cons, List.nodup_append_comm, List.cons_append,
        List.nodup_cons] at hids
      have ht := addTransition_ok_iff.2 ⟨fun hm => hids.1 (List.mem_append_right _ hm),
        hd'.ends t (by simp), rfl⟩
      exact ⟨_, ht, (ih (h.addTransition ht)).2 ⟨by simp, hd'⟩⟩

theorem requestAll_parts_ok_iff (h : Header) :
    (blank h).requestAll (ns.map .node ++ ts.map .transition) = (.ok (), d) ↔
      d = { h with nodes := ns, transitions := ts } ∧ d.Coherent := by
  have hnodes : ∀ d : Draft, (ns.map .node).foldlM add d = ns.foldlM addNode d := fun d =>
    List.foldlM_map
  have htransitions : ∀ d : Draft,
      (ts.map .transition).foldlM add d = ts.foldlM addTransition d := fun d => List.foldlM_map
  rw [requestAll_ok_iff, List.foldlM_append, Except.bind_ok_iff]
  simp only [hnodes, htransitions, addNodes_ok_iff (coherent_blank h)]
  constructor
  · rintro ⟨d₁, ⟨rfl, hc⟩, hts⟩
    exact (addTransitions_ok_iff hc).1 hts
  · rintro ⟨rfl, hc⟩
    have hstart : Coherent { h with nodes := ns } := ⟨hc.nodes, by simp, .nil⟩
    exact ⟨_, ⟨rfl, hstart⟩, (addTransitions_ok_iff hstart).2 ⟨rfl, hc⟩⟩

theorem toHeader_add (hp : d.add p = .ok d') : d'.toHeader = d.toHeader := by
  cases p with
  | node n =>
    obtain ⟨-, rfl⟩ := addNode_ok_iff.1 hp
    rfl
  | transition t =>
    obtain ⟨-, -, rfl⟩ := addTransition_ok_iff.1 hp
    rfl

theorem Coherent.grow (h : d.Coherent) (ps : List Part) :
    (d.grow ps).Coherent ∧ (d.grow ps).toHeader = d.toHeader := by
  induction ps generalizing d with
  | nil => exact ⟨h, rfl⟩
  | cons p ps ih =>
    have hgrow : d.grow (p :: ps) = (d.request p).2.grow ps := rfl
    rw [hgrow, request_eq]
    cases hp : d.add p with
    | error e => exact ih h
    | ok d' =>
      obtain ⟨hc, hh⟩ := ih (h.add hp)
      exact ⟨hc, hh.trans (toHeader_add hp)⟩

theorem Coherent.build_error (h : d.Coherent) (he : d.build = .error e) :
    (d.visitLimit = 0 ∧ e = .noVisits d.id) ∨ (d.startIds = [] ∧ e = .noStart d.id) ∨
      (2 ≤ d.startIds.length ∧ e = .manyStarts d.id d.startIds) := by
  have hids : firstRepeat [] d.nodeIds = none := firstRepeat_nil_eq_none_iff.2 h.nodes
  have hfault : d.transitionFault [] d.transitions = none :=
    transitionFault_eq_none_iff.2 ⟨h.ends, firstRepeat_nil_eq_none_iff.2 h.transitions⟩
  have ho : d.outline = .error e := by rw [← build_outline, he]; rfl
  rw [outline, hids, hfault] at ho
  split at ho
  case isTrue hlimit =>
    cases ho
    exact .inl ⟨hlimit, rfl⟩
  case isFalse =>
    rcases hs : d.startIds with _ | ⟨m, _ | ⟨k, ks⟩⟩ <;> rw [hs] at ho <;> cases ho
    · exact .inr (.inl ⟨rfl, rfl⟩)
    · exact .inr (.inr ⟨by simp, rfl⟩)

theorem grown_as_placed (h : Header) (ns : List Node) (ts : List Transition) :
    (∀ w, (∃ d, (blank h).requestAll (ns.map .node ++ ts.map .transition) = (.ok (), d) ∧
          d.build = .ok w) ↔
        build { h with nodes := ns, transitions := ts } = .ok w) ∧
      (∀ (d : Draft) p, (∃ d', d.add p = .ok d' ∧ d.request p = (.ok (), d')) ∨
        ∃ e, d.add p = .error e ∧ d.request p = (.error e, d)) ∧
      ∀ ps e, ((blank h).grow ps).build = .error e →
        (h.visitLimit = 0 ∧ e = .noVisits h.id) ∨
          (((blank h).grow ps).startIds = [] ∧ e = .noStart h.id) ∨
          (2 ≤ ((blank h).grow ps).startIds.length ∧
            e = .manyStarts h.id ((blank h).grow ps).startIds) := by
  refine ⟨fun w => ?_, fun d p => ?_, fun ps e he => ?_⟩
  · simp only [requestAll_parts_ok_iff]
    constructor
    · rintro ⟨d, ⟨rfl, -⟩, hw⟩
      exact hw
    · intro hw
      have hwell : WellFormed { h with nodes := ns, transitions := ts } :=
        build_ok_iff_wellFormed.1 ⟨w, hw⟩
      exact ⟨_, ⟨rfl, hwell.coherent⟩, hw⟩
  · rw [request_eq]
    cases d.add p with
    | error e => exact .inr ⟨e, rfl, rfl⟩
    | ok d' => exact .inl ⟨d', rfl, rfl⟩
  · obtain ⟨hc, hh⟩ := (coherent_blank h).grow ps
    have hcases := hc.build_error he
    rw [hh] at hcases
    exact hcases

def requests : List Part := [
  .node { id := "a", name := "A", kind := .start }, .node { id := "a", name := "B", kind := .task },
  .transition { id := "t", source := "a", target := "b" },
  .node { id := "b", name := "B", kind := .start },
  .transition { id := "t", source := "a", target := "b" }]

theorem grown_as_placed_recycled :
    (∃ e, (blank recycled.toHeader).request requests[2] = (.error e, blank recycled.toHeader)) ∧
      ((blank recycled.toHeader).grow requests).nodeIds = ["a", "b"] ∧
      ((blank recycled.toHeader).grow requests).transitionIds = ["t"] ∧
      ((blank recycled.toHeader).grow requests).build = .error (.manyStarts "review" ["a", "b"]) ∧
      ∃ d w, (blank recycled.toHeader).requestAll
          (recycled.nodes.map .node ++ recycled.transitions.map .transition) = (.ok (), d) ∧
        d.build = .ok w := by
  obtain ⟨hplaced, hrequest, hgrown⟩ :=
    grown_as_placed recycled.toHeader recycled.nodes recycled.transitions
  have hrefused : ((blank recycled.toHeader).add requests[2]).isOk = false := by cbv
  have hfails : ((blank recycled.toHeader).grow requests).build.isOk = false := by decide +kernel
  have hstarts : ((blank recycled.toHeader).grow requests).startIds = ["a", "b"] := by
    decide +kernel
  have hbuilds : recycled.build.isOk = true := by cbv
  refine ⟨?_, by decide +kernel, by decide +kernel, ?_, ?_⟩
  · rcases hrequest (blank recycled.toHeader) requests[2] with ⟨d, hd, -⟩ | ⟨e, -, he⟩
    · rw [hd] at hrefused
      cases hrefused
    · exact ⟨e, he⟩
  · rcases he : ((blank recycled.toHeader).grow requests).build with e | w
    · rcases hgrown requests e he with ⟨hlimit, -⟩ | ⟨hnone, -⟩ | ⟨-, rfl⟩
      · cases hlimit
      · rw [hstarts] at hnone
        cases hnone
      · rw [hstarts]
        rfl
    · rw [he] at hfails
      cases hfails
  · rcases hw : recycled.build with e | w
    · rw [hw] at hbuilds
      cases hbuilds
    · obtain ⟨d, hd, hdw⟩ := (hplaced w).2 hw
      exact ⟨d, w, hd, hdw⟩

end Draft

end Flowgraph
