import Flowgraph.Graph.Build

namespace Flowgraph

theorem Except.bind_ok_iff {ε α β : Type} {x : Except ε α} {f : α → Except ε β} {b : β} :
    x >>= f = .ok b ↔ ∃ a, x = .ok a ∧ f a = .ok b := by
  cases x with
  | error e => simp [bind, Except.bind]
  | ok a => simp [bind, Except.bind]

namespace Draft

variable {d d' : Draft} {n : Node} {t : Transition} {ts : List Transition}
  {seen : List TransitionId}

theorem looseEnd_eq_none_iff :
    d.looseEnd? t = none ↔ t.source ∈ d.nodeIds ∧ t.target ∈ d.nodeIds := by
  simp [looseEnd?]

theorem addNode_ok_iff :
    d.addNode n = .ok d' ↔ n.id ∉ d.nodeIds ∧ d' = { d with nodes := d.nodes ++ [n] } := by
  rw [addNode]
  cases hc : d.nodeIds.contains n.id with
  | true => simp [List.contains_iff_mem.1 hc]
  | false =>
    have hfree : n.id ∉ d.nodeIds := fun hm => by simp [hm] at hc
    simp [hfree, eq_comm]

theorem addTransition_ok_iff :
    d.addTransition t = .ok d' ↔
      t.id ∉ d.transitionIds ∧ (t.source ∈ d.nodeIds ∧ t.target ∈ d.nodeIds) ∧
        d' = { d with transitions := d.transitions ++ [t] } := by
  rw [addTransition, ← looseEnd_eq_none_iff]
  cases hc : d.transitionIds.contains t.id with
  | true => simp [List.contains_iff_mem.1 hc]
  | false =>
    have hfree : t.id ∉ d.transitionIds := fun hm => by simp [hm] at hc
    cases hl : d.looseEnd? t <;> simp [hfree, eq_comm]

theorem transitionFault_eq_none_iff :
    d.transitionFault seen ts = none ↔
      (∀ t ∈ ts, t.source ∈ d.nodeIds ∧ t.target ∈ d.nodeIds) ∧
        firstRepeat seen (ts.map (·.id)) = none := by
  induction ts generalizing seen with
  | nil => simp [transitionFault, firstRepeat]
  | cons t ts ih =>
    rw [transitionFault, List.map_cons, firstRepeat, List.forall_mem_cons]
    cases hl : d.looseEnd? t with
    | some n =>
      have hends : ¬ (t.source ∈ d.nodeIds ∧ t.target ∈ d.nodeIds) := by
        rw [← looseEnd_eq_none_iff, hl]
        exact Option.some_ne_none n
      simp [hends]
    | none =>
      have hends := looseEnd_eq_none_iff.1 hl
      cases hs : seen.contains t.id with
      | true => simp
      | false =>
        simp only [Bool.false_eq_true, if_false, ih]
        rw [and_iff_right hends]

theorem nodup_startIds (d : Draft) : d.startIds.Nodup := Keyed.nodup_keys _

theorem startIds_eq_singleton_iff (h : d.nodeIds.Nodup) {root : NodeId} :
    d.startIds = [root] ↔ (d.nodes.filter Node.isStart).map (·.id) = [root] := by
  have hsub : ((d.nodes.filter Node.isStart).map (·.id)).Nodup :=
    h.sublist (List.filter_sublist.map _)
  have hmem : ∀ n, n ∈ d.startIds ↔ n ∈ (d.nodes.filter Node.isStart).map (·.id) := by
    intro n
    rw [startIds, Keyed.mem_keys_iff, Keyed.ofMembers, Keyed.contains_ofList, List.map_map]
    exact Iff.of_eq (congrArg (n ∈ ·) (List.map_id _))
  have hperm : d.startIds.Perm ((d.nodes.filter Node.isStart).map (·.id)) :=
    (List.perm_ext_iff_of_nodup d.nodup_startIds hsub).2 hmem
  constructor
  · intro hs
    rw [hs] at hperm
    exact List.perm_singleton.1 hperm.symm
  · intro hs
    rw [hs] at hperm
    exact List.perm_singleton.1 hperm

theorem build_ok_iff :
    (∃ w, d.build = .ok w) ↔
      d.visitLimit ≠ 0 ∧ d.nodeIds.Nodup ∧ (∃ root, d.startIds = [root]) ∧
        (∀ t ∈ d.transitions, t.source ∈ d.nodeIds ∧ t.target ∈ d.nodeIds) ∧
        d.transitionIds.Nodup := by
  have hids : d.transitionFault [] d.transitions = none ↔
      (∀ t ∈ d.transitions, t.source ∈ d.nodeIds ∧ t.target ∈ d.nodeIds) ∧
        d.transitionIds.Nodup := by
    rw [transitionFault_eq_none_iff, firstRepeat_nil_eq_none_iff, transitionIds]
  have hrepeat : firstRepeat [] d.nodeIds = none ↔ d.nodeIds.Nodup := firstRepeat_nil_eq_none_iff
  rw [← hids, ← hrepeat, build]
  split
  case isTrue hl => simp [hl]
  case isFalse hl =>
    split
    case h_1 n hn => simp [hn]
    case h_2 hn =>
      split
      case h_1 hs => simp [hs]
      case h_2 root hs =>
        split
        case h_1 e he => simp [he]
        case h_2 he => simp [hl, hn, hs, he]
      case h_3 hone hmany =>
        refine ⟨fun ⟨w, hw⟩ => (by cases hw), fun ⟨_, _, ⟨root, hs⟩, _⟩ => ?_⟩
        exact absurd hs (hmany root)

end Draft

end Flowgraph
