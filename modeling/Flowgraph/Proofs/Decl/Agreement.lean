import Flowgraph.Decl.Check
import Flowgraph.Proofs.Decl.Drafting
import Mathlib

namespace Flowgraph

namespace Declaration

variable {fresh : WorkflowId} {d : Declaration} {draft draft' : Draft} {ts : List TransitionDecl}
  {w : Workflow}

structure Regular (d : Declaration) : Prop where
  nodeIds : (d.nodes.map (·.id)).Nodup
  known : ∀ n ∈ d.nodes, n.Known
  start : ∃ s, d.starts = [s]
  limit : ∀ n, d.maxCounter = some n → 1 ≤ n ∧ n ≤ IntRange.unsigned32.high
  sequence : ∀ n, d.sequence = some n → IntRange.signed32.has n = true
  fits : ∀ t ∈ d.transitions, t.Fits
  ends : ∀ t ∈ d.transitions, t.source ∈ d.nodes.map (·.id) ∧ t.target ∈ d.nodes.map (·.id)

def Governs (d : Declaration) : Prop := ∃ m, d.model = some m ∧ Text.trim m.toList ≠ []

def effectiveIds (d : Declaration) : List TransitionId := d.transitions.map (·.effectiveId)

theorem modelFault_eq_none_iff : d.modelFault? = none ↔ d.Governs := by
  cases hm : d.model with
  | none => simp [modelFault?, Governs, hm]
  | some m =>
    cases ht : Text.trim m.toList <;> simp [modelFault?, Governs, hm, ht]

theorem nodeIdFault_eq_none_iff : d.nodeIdFault? = none ↔ (d.nodes.map (·.id)).Nodup := by
  rw [nodeIdFault?, Option.map_eq_none_iff, firstRepeat_nil_eq_none_iff]

theorem kindFault_eq_none_iff :
    d.kindFault? = none ↔ ∀ n ∈ d.nodes, (NodeKind.ofWord? n.kind).isSome = true := by
  simp [kindFault?, Option.isSome_iff_ne_none]

theorem startFault_eq_none_iff : d.startFault? = none ↔ ∃ s, d.starts = [s] := by
  rw [startFault?]
  rcases hs : d.starts with _ | ⟨s, _ | ⟨t, ss⟩⟩ <;> simp

theorem gateFault_eq_none_iff :
    d.gateFault? = none ↔ ∀ n ∈ d.nodes, ∀ g ∈ n.gates, (Gate.ofWord? g).isSome = true := by
  simp only [gateFault?, List.findSome?_eq_none_iff, List.mem_flatMap]
  constructor
  · intro h n hn g hg
    have hg' := h g ⟨n, hn, hg⟩
    simpa [Option.isSome_iff_ne_none] using hg'
  · rintro h g ⟨n, hn, hg⟩
    simpa [Option.isSome_iff_ne_none] using h n hn g hg

theorem limitFault_eq_none_iff :
    d.limitFault? = none ↔
      ∀ n, d.maxCounter = some n → 1 ≤ n ∧ n ≤ IntRange.unsigned32.high := by
  rw [limitFault?, Option.bind_eq_none_iff]
  refine forall₂_congr fun n _ => ?_
  split
  case isTrue h => simp only [reduceCtorEq, false_iff]; omega
  case isFalse h => simp only [true_iff]; omega

theorem sequenceMisfit_eq_none_iff {field : String} {o : Option Int} :
    sequenceMisfit? field o = none ↔ ∀ n, o = some n → IntRange.signed32.has n = true := by
  rw [sequenceMisfit?, Option.bind_eq_none_iff]
  refine forall₂_congr fun n _ => ?_
  cases IntRange.signed32.has n <;> simp

theorem sequenceFault_eq_none_iff :
    d.sequenceFault? = none ↔
      (∀ n, d.sequence = some n → IntRange.signed32.has n = true) ∧
        ∀ t ∈ d.transitions, t.Fits := by
  rw [sequenceFault?, Option.orElse_eq_orElse, Option.orElse_eq_or, Option.or_eq_none_iff,
    List.findSome?_eq_none_iff, sequenceMisfit_eq_none_iff]
  exact and_congr_right fun _ => forall₂_congr fun t _ => sequenceMisfit_eq_none_iff

theorem endFault_eq_none_iff {t : TransitionDecl} :
    d.endFault? t = none ↔
      t.source ∈ d.nodes.map (·.id) ∧ t.target ∈ d.nodes.map (·.id) := by
  simp only [endFault?, List.findSome?_eq_none_iff, List.forall_mem_cons]
  constructor
  · rintro ⟨hs, ht, -⟩
    constructor
    · simpa using hs
    · simpa using ht
  · rintro ⟨hs, ht⟩
    refine ⟨?_, ?_, by simp⟩
    · simpa using hs
    · simpa using ht

theorem transitionIdFault_eq_none_iff :
    d.transitionIdFault? = none ↔ (d.transitions.filterMap (·.id)).Nodup := by
  rw [transitionIdFault?, Option.map_eq_none_iff, firstRepeat_nil_eq_none_iff]

theorem nodes_ne_nil_of_starts {s : NodeId} (h : d.starts = [s]) : d.emptyFault? = none := by
  cases hn : d.nodes with
  | nil => simp [starts, hn] at h
  | cons n ns => simp [emptyFault?, hn]

theorem check_ok_iff :
    d.check = .ok () ↔ d.Governs ∧ d.Regular ∧ (d.transitions.filterMap (·.id)).Nodup := by
  have hfault : d.check = .ok () ↔ d.fault? = none := by
    rw [check]
    cases d.fault? <;> simp
  rw [hfault]
  simp only [fault?, Option.orElse_eq_orElse, Option.orElse_eq_or, Option.or_eq_none_iff,
    modelFault_eq_none_iff, nodeIdFault_eq_none_iff, kindFault_eq_none_iff, startFault_eq_none_iff,
    gateFault_eq_none_iff, limitFault_eq_none_iff, sequenceFault_eq_none_iff,
    List.findSome?_eq_none_iff, endFault_eq_none_iff, transitionIdFault_eq_none_iff]
  constructor
  · rintro ⟨hm, -, hids, hkinds, hstart, hgates, hlimit, ⟨hseq, hfits⟩, hends, hnodup⟩
    exact ⟨hm, ⟨hids, fun n hn => ⟨hkinds n hn, hgates n hn⟩, hstart, hlimit, hseq, hfits, hends⟩,
      hnodup⟩
  · rintro ⟨hm, hr, hnodup⟩
    obtain ⟨s, hs⟩ := hr.start
    exact ⟨hm, nodes_ne_nil_of_starts hs, hr.nodeIds, fun n hn => (hr.known n hn).kind, ⟨s, hs⟩,
      fun n hn => (hr.known n hn).gates, hr.limit, ⟨hr.sequence, hr.fits⟩, hr.ends, hnodup⟩

theorem fits_of_addTransitions (h : ts.foldlM addTransition draft = .ok draft') :
    ∀ t ∈ ts, t.Fits ∧ t.source ∈ draft.nodeIds ∧ t.target ∈ draft.nodeIds := by
  induction ts generalizing draft with
  | nil => simp
  | cons t ts ih =>
    rw [List.foldlM_cons, Except.bind_ok_iff] at h
    obtain ⟨next, ht, hts⟩ := h
    obtain ⟨hf, -, he, rfl⟩ := addTransition_ok_iff.1 ht
    have hrest := ih hts
    exact List.forall_mem_cons.2 ⟨⟨hf, he⟩, hrest⟩

theorem addTransitions_eq {seen : List TransitionId}
    (h : ∀ t ∈ ts, t.Fits ∧ t.source ∈ draft.nodeIds ∧ t.target ∈ draft.nodeIds)
    (hseen : ∀ x, x ∈ seen ↔ x ∈ draft.transitionIds) :
    ts.foldlM addTransition draft =
      match firstRepeat seen (ts.map (·.effectiveId)) with
      | some t => .error (.graph (.duplicateTransition t))
      | none => .ok { draft with
          transitions := draft.transitions ++ ts.map TransitionDecl.form } := by
  induction ts generalizing draft seen with
  | nil => simp [firstRepeat, pure, Except.pure]
  | cons t ts ih =>
    obtain ⟨⟨hf, hends⟩, hts⟩ := List.forall_mem_cons.1 h
    rw [List.foldlM_cons, List.map_cons, firstRepeat]
    cases hc : seen.contains t.effectiveId with
    | true =>
      have hm : draft.transitionIds.contains t.form.id = true :=
        List.contains_iff_mem.2 ((hseen _).1 (List.contains_iff_mem.1 hc))
      have he : addTransition draft t = .error (.graph (.duplicateTransition t.effectiveId)) := by
        rw [addTransition_eq hf, Draft.addTransition, if_pos hm]
        rfl
      rw [he]
      rfl
    | false =>
      have hm : t.effectiveId ∉ draft.transitionIds := fun hm => by
        rw [List.contains_iff_mem.2 ((hseen _).2 hm)] at hc
        cases hc
      obtain ⟨next, hnext⟩ : ∃ next : Draft,
          next = { draft with transitions := draft.transitions ++ [t.form] } := ⟨_, rfl⟩
      have hseen' : ∀ x, x ∈ t.effectiveId :: seen ↔ x ∈ next.transitionIds := by
        intro x
        have hids : next.transitionIds = draft.transitionIds ++ [t.effectiveId] := by
          rw [hnext]
          exact List.map_append
        rw [hids, List.mem_append, List.mem_singleton, List.mem_cons, hseen]
        exact or_comm
      have hnodes : next.nodeIds = draft.nodeIds := by
        rw [hnext]
        rfl
      rw [← hnodes] at hts
      rw [addTransition_ok_iff.2 ⟨hf, hm, hends, hnext⟩]
      refine (ih hts hseen').trans ?_
      rw [hnext]
      simp only [List.append_assoc, List.singleton_append]
      rfl

structure Draftable (d : Declaration) : Prop where
  model : d.model.isSome = true
  limit : ∀ n, d.maxCounter = some n → IntRange.unsigned32.has n = true
  sequence : ∀ n, d.sequence = some n → IntRange.signed32.has n = true
  nodeIds : (d.nodes.map (·.id)).Nodup
  known : ∀ n ∈ d.nodes, n.Known
  transitions : ∀ t ∈ d.transitions,
    t.Fits ∧ t.source ∈ d.nodes.map (·.id) ∧ t.target ∈ d.nodes.map (·.id)

theorem nodeIds_forms (ns : List NodeDecl) :
    (ns.map NodeDecl.form).map (·.id) = ns.map (·.id) := List.map_map

theorem draftable_of_toDraft (h : d.toDraft fresh = .ok draft) : d.Draftable := by
  simp only [toDraft, Except.bind_ok_iff] at h
  obtain ⟨header, hh, start, hn, ht⟩ := h
  obtain ⟨⟨hm, hl, hs⟩, rfl⟩ := header_ok_iff.1 hh
  obtain ⟨hk, ⟨hids, -⟩, rfl⟩ := addNodes_ok_iff.1 hn
  refine ⟨hm, hl, hs, hids, hk, fun t hmem => ?_⟩
  have hfits := fits_of_addTransitions ht t hmem
  simp only [Draft.nodeIds, List.nil_append, nodeIds_forms] at hfits
  exact hfits

theorem toDraft_eq (h : d.Draftable) :
    d.toDraft fresh =
      match firstRepeat [] d.effectiveIds with
      | some t => .error (.graph (.duplicateTransition t))
      | none => .ok (d.drafted fresh) := by
  have hheader : d.header fresh = .ok (d.heading fresh) :=
    header_ok_iff.2 ⟨⟨h.model, h.limit, h.sequence⟩, rfl⟩
  have hnodes : d.nodes.foldlM addNode { d.heading fresh with } =
      .ok { d.heading fresh with nodes := d.nodes.map NodeDecl.form } :=
    addNodes_ok_iff.2 ⟨h.known, ⟨h.nodeIds, fun k _ hn => (by cases hn)⟩, rfl⟩
  have htransitions : d.transitions.foldlM addTransition
      { d.heading fresh with nodes := d.nodes.map NodeDecl.form } = _ :=
    addTransitions_eq (by rw [Draft.nodeIds, nodeIds_forms]; exact h.transitions)
      (fun x => Iff.rfl)
  rw [toDraft, hheader]
  change (d.nodes.foldlM addNode { d.heading fresh with } >>= fun draft =>
    d.transitions.foldlM addTransition draft) = _
  rw [hnodes]
  exact htransitions

theorem visitLimit_heading_ne_zero_iff
    (h : ∀ n, d.maxCounter = some n → IntRange.unsigned32.has n = true) :
    (d.heading fresh).visitLimit ≠ 0 ↔ ∀ n, d.maxCounter = some n → 1 ≤ n := by
  have hlimit : ((d.heading fresh).visitLimit.toNat : Int) = d.maxCounter.getD 1 :=
    Decl.toNat_limit h
  have hzero : (d.heading fresh).visitLimit = 0 ↔ (d.heading fresh).visitLimit.toNat = 0 :=
    UInt32.toNat_inj.symm
  rw [Ne, hzero]
  cases hm : d.maxCounter with
  | none =>
    rw [hm, Option.getD_none] at hlimit
    simp only [reduceCtorEq, false_implies, implies_true, iff_true]
    omega
  | some n =>
    rw [hm, Option.getD_some] at hlimit
    simp only [Option.some.injEq, forall_eq']
    omega

theorem starts_drafted (h : ∀ n ∈ d.nodes, n.Known) :
    ((d.drafted fresh).nodes.filter Node.isStart).map (·.id) = d.starts := by
  have hfilter : d.nodes.filter (fun n => n.form.isStart) =
      d.nodes.filter fun n => n.kind = NodeKind.start.word := by
    refine List.filter_congr fun n hn => ?_
    rw [Node.isStart]
    exact decide_eq_decide.2 (NodeDecl.kind_form_eq_start_iff (h n hn))
  rw [drafted, starts, List.filter_map, List.map_map, ← hfilter]
  rfl

theorem build_drafted_ok_iff (h : d.Draftable) :
    (∃ w, (d.drafted fresh).build = .ok w) ↔
      (∀ n, d.maxCounter = some n → 1 ≤ n) ∧ (∃ s, d.starts = [s]) ∧ d.effectiveIds.Nodup := by
  have hnodeIds : (d.drafted fresh).nodeIds = d.nodes.map (·.id) := nodeIds_forms d.nodes
  have htransitionIds : (d.drafted fresh).transitionIds = d.effectiveIds := List.map_map
  have hends : ∀ t ∈ (d.drafted fresh).transitions,
      t.source ∈ d.nodes.map (·.id) ∧ t.target ∈ d.nodes.map (·.id) := by
    intro t ht
    obtain ⟨u, hu, rfl⟩ := List.mem_map.1 ht
    exact (h.transitions u hu).2
  have hids : (d.drafted fresh).nodeIds.Nodup := by
    rw [hnodeIds]
    exact h.nodeIds
  rw [Draft.build_ok_iff, htransitionIds, and_iff_right hids, hnodeIds, and_iff_right hends]
  refine and_congr (visitLimit_heading_ne_zero_iff h.limit) (and_congr_left' ?_)
  refine exists_congr fun s => ?_
  rw [Draft.startIds_eq_singleton_iff hids, starts_drafted h.known]

theorem regular_iff :
    d.model.isSome = true ∧ d.Regular ↔
      d.Draftable ∧ (∀ n, d.maxCounter = some n → 1 ≤ n) ∧ ∃ s, d.starts = [s] := by
  constructor
  · rintro ⟨hm, hr⟩
    refine ⟨⟨hm, fun n hn => ?_, hr.sequence, hr.nodeIds, hr.known, fun t ht => ?_⟩,
      fun n hn => (hr.limit n hn).1, hr.start⟩
    · obtain ⟨hlow, hhigh⟩ := hr.limit n hn
      exact IntRange.has_iff.2 ⟨Int.le_of_lt hlow, hhigh⟩
    · exact ⟨hr.fits t ht, hr.ends t ht⟩
  · rintro ⟨hd, hpos, hs⟩
    exact ⟨hd.model, hd.nodeIds, hd.known, hs,
      fun n hn => ⟨hpos n hn, (IntRange.has_iff.1 (hd.limit n hn)).2⟩, hd.sequence,
      fun t ht => (hd.transitions t ht).1, fun t ht => (hd.transitions t ht).2⟩

theorem compile_eq (h : d.Draftable) :
    d.compile fresh =
      match firstRepeat [] d.effectiveIds with
      | some t => .error (.graph (.duplicateTransition t))
      | none => Decl.inGraph (d.drafted fresh).build := by
  rw [compile, toDraft_eq h]
  cases firstRepeat [] d.effectiveIds <;> rfl

theorem compile_eq_ok_iff :
    d.compile fresh = .ok w ↔
      d.Draftable ∧ d.effectiveIds.Nodup ∧ (d.drafted fresh).build = .ok w := by
  constructor
  · intro h
    have hd : d.Draftable := by
      simp only [compile, Except.bind_ok_iff] at h
      obtain ⟨draft, hdraft, -⟩ := h
      exact draftable_of_toDraft hdraft
    rw [compile_eq hd] at h
    cases hr : firstRepeat [] d.effectiveIds with
    | some t =>
      rw [hr] at h
      cases h
    | none =>
      rw [hr] at h
      exact ⟨hd, firstRepeat_nil_eq_none_iff.1 hr, inGraph_ok_iff.1 h⟩
  · rintro ⟨hd, hn, hb⟩
    rw [compile_eq hd, firstRepeat_nil_eq_none_iff.2 hn]
    exact inGraph_ok_iff.2 hb

theorem compile_ok_iff :
    (∃ w, d.compile fresh = .ok w) ↔
      d.model.isSome = true ∧ d.Regular ∧ d.effectiveIds.Nodup := by
  simp only [compile_eq_ok_iff]
  rw [← and_assoc, regular_iff]
  constructor
  · rintro ⟨w, hd, hn, hb⟩
    obtain ⟨hpos, hs, -⟩ := (build_drafted_ok_iff hd).1 ⟨w, hb⟩
    exact ⟨⟨hd, hpos, hs⟩, hn⟩
  · rintro ⟨⟨hd, hpos, hs⟩, hn⟩
    obtain ⟨w, hw⟩ := (build_drafted_ok_iff hd).2 ⟨hpos, hs, hn⟩
    exact ⟨w, hd, hn, hw⟩

theorem explicitIds_sublist (ts : List TransitionDecl) :
    (ts.filterMap (·.id)).Sublist (ts.map (·.effectiveId)) := by
  induction ts with
  | nil => exact .slnil
  | cons t ts ih =>
    cases ht : t.id with
    | none =>
      rw [List.filterMap_cons_none ht, List.map_cons]
      exact ih.cons _
    | some i =>
      rw [List.filterMap_cons_some ht, List.map_cons, TransitionDecl.effectiveId, ht]
      exact ih.cons_cons i

theorem check_agrees_with_compile (fresh : WorkflowId) (d : Declaration) :
    (d.check = .ok () ∧ (d.transitions.map (·.effectiveId)).Nodup ↔
        (∃ w, d.compile fresh = .ok w) ∧ ∃ m, d.model = some m ∧ Text.trim m.toList ≠ []) ∧
      ∀ e, d.check = .ok () → d.compile fresh = .error e →
        ∃ before t after, d.transitions = before ++ t :: after ∧
          (before.map (·.effectiveId)).Nodup ∧ t.effectiveId ∈ before.map (·.effectiveId) ∧
          e = .graph (.duplicateTransition t.effectiveId) := by
  rw [check_ok_iff, compile_ok_iff]
  constructor
  · constructor
    · rintro ⟨⟨hm, hr, -⟩, hn⟩
      obtain ⟨m, hm', hblank⟩ := hm
      exact ⟨⟨by rw [hm', Option.isSome_some], hr, hn⟩, m, hm', hblank⟩
    · rintro ⟨⟨-, hr, hn⟩, hm⟩
      exact ⟨⟨hm, hr, hn.sublist (explicitIds_sublist _)⟩, hn⟩
  · rintro e ⟨⟨m, hm, -⟩, hr, -⟩ he
    obtain ⟨hd, hpos, hs⟩ := regular_iff.1 ⟨by rw [hm, Option.isSome_some], hr⟩
    rw [compile_eq hd] at he
    cases hrep : firstRepeat [] d.effectiveIds with
    | none =>
      have hn := firstRepeat_nil_eq_none_iff.1 hrep
      obtain ⟨w, hw⟩ : ∃ w, (d.drafted fresh).build = .ok w :=
        (build_drafted_ok_iff hd).2 ⟨hpos, hs, hn⟩
      rw [hrep, hw] at he
      cases he
    | some x =>
      rw [hrep] at he
      cases he
      obtain ⟨ids, ids', hids, hn, -, hx⟩ := split_of_firstRepeat hrep
      obtain ⟨before, rest, htrans, rfl, hrest⟩ := List.map_eq_append_iff.1 hids
      obtain ⟨t, after, rfl, rfl, -⟩ := List.map_eq_cons_iff.1 hrest
      exact ⟨before, t, after, htrans, hn, hx.resolve_right List.not_mem_nil, rfl⟩

def twins : Declaration where
  name := "twins"
  model := some "note"
  nodes := [
    { id := "a", kind := "start", line := 1 },
    { id := "b", kind := "end", line := 2 }]
  transitions := [
    { source := "a", target := "b", line := 3 },
    { source := "a", target := "b", line := 4 }]

theorem check_agrees_with_compile_twins :
    twins.check = .ok () ∧
      twins.compile "fresh" = .error (.graph (.duplicateTransition "a_to_b")) ∧
      ∃ before t after, twins.transitions = before ++ t :: after ∧
        t.effectiveId ∈ before.map (·.effectiveId) := by
  have hcheck : twins.check = .ok () := by cbv
  have hcompile : twins.compile "fresh" = .error (.graph (.duplicateTransition "a_to_b")) := by cbv
  obtain ⟨before, t, after, htrans, -, hmem, -⟩ :=
    (check_agrees_with_compile "fresh" twins).2 _ hcheck hcompile
  exact ⟨hcheck, hcompile, before, t, after, htrans, hmem⟩

end Declaration

end Flowgraph
