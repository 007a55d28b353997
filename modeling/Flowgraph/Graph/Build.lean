import Flowgraph.Graph.Workflow
import Flowgraph.Repeat

namespace Flowgraph

theorem eq_of_nodup_ids {l : List Node} (h : (l.map (·.id)).Nodup) {m n : Node} (hm : m ∈ l)
    (hn : n ∈ l) (e : m.id = n.id) : m = n := by
  induction l with
  | nil => simp at hm
  | cons x xs ih =>
      obtain ⟨hx, hxs⟩ := List.nodup_cons.1 h
      rcases List.mem_cons.1 hm with hm | hm <;> rcases List.mem_cons.1 hn with hn | hn
      · exact hm.trans hn.symm
      · exact absurd (List.mem_map.2 ⟨n, hn, e.symm.trans (congrArg _ hm)⟩) hx
      · exact absurd (List.mem_map.2 ⟨m, hm, e.trans (congrArg _ hn)⟩) hx
      · exact ih hxs hm hn

namespace Graph

def place (g : Graph) (n : Node) : Node :=
  { n with
    workflow := g.id
    incoming := (g.arriving n.id).map (·.id)
    outgoing := (g.leaving n.id).map (·.id) }

end Graph

namespace Draft

def startIds (d : Draft) : List NodeId :=
  (Keyed.ofMembers ((d.nodes.filter Node.isStart).map (·.id))).keys

def transitionFault (d : Draft) (seen : List TransitionId) : List Transition → Option GraphError
  | [] => none
  | t :: ts =>
      match d.looseEnd? t with
      | some n => some (.dangling d.id t.id n)
      | none =>
          if seen.contains t.id then some (.duplicateTransition t.id)
          else transitionFault d (t.id :: seen) ts

def frame (d : Draft) (root : NodeId) : Graph :=
  { d.toHeader with
    root
    nodes := .empty
    transitions := .ofList (d.transitions.map fun t => (t.id, t)) }

def freeze (d : Draft) (root : NodeId) : Graph :=
  { d.frame root with nodes := .ofList (d.nodes.map fun n => (n.id, (d.frame root).place n)) }

theorem mem_startIds {d : Draft} {k : NodeId} :
    k ∈ d.startIds ↔ ∃ n ∈ d.nodes, n.kind = .start ∧ n.id = k := by
  simp [startIds, Keyed.mem_keys_iff, Keyed.ofMembers, Keyed.contains_ofList, Node.isStart,
    and_assoc]

theorem node_of_freeze {d : Draft} {root k : NodeId} {n : Node}
    (h : (d.freeze root).nodes.get? k = some n) :
    ∃ m ∈ d.nodes, m.id = k ∧ n = (d.frame root).place m := by
  have := Keyed.mem_of_get?_ofList h
  simp only [List.mem_map, Prod.mk.injEq] at this
  obtain ⟨m, hm, hk, rfl⟩ := this
  exact ⟨m, hm, hk, rfl⟩

theorem transition_of_freeze {d : Draft} {root : NodeId} {k : TransitionId} {t : Transition}
    (h : (d.freeze root).transitions.get? k = some t) : t ∈ d.transitions ∧ t.id = k := by
  have := Keyed.mem_of_get?_ofList h
  simp only [List.mem_map, Prod.mk.injEq] at this
  obtain ⟨u, hu, hk, rfl⟩ := this
  exact ⟨hu, hk⟩

theorem contains_freeze {d : Draft} {root k : NodeId} :
    (d.freeze root).nodes.contains k = true ↔ k ∈ d.nodeIds := by
  simp [freeze, Keyed.contains_ofList, nodeIds]

theorem ends_of_transitionFault {d : Draft} {seen : List TransitionId} {ts : List Transition}
    (h : d.transitionFault seen ts = none) :
    ∀ t ∈ ts, t.source ∈ d.nodeIds ∧ t.target ∈ d.nodeIds := by
  induction ts generalizing seen with
  | nil => simp
  | cons x xs ih =>
      simp only [transitionFault] at h
      split at h
      · simp at h
      case h_2 hl =>
        split at h
        · simp at h
        · intro t ht
          rcases List.mem_cons.1 ht with rfl | ht
          · simpa [looseEnd?] using hl
          · exact ih h t ht

theorem freeze_wellFormed {d : Draft} {root : NodeId} (hl : d.visitLimit ≠ 0)
    (hn : d.nodeIds.Nodup) (hs : d.startIds = [root])
    (ht : d.transitionFault [] d.transitions = none) : (d.freeze root).WellFormed where
  limit_pos := hl
  node_id h := by
    obtain ⟨m, -, rfl, rfl⟩ := node_of_freeze h
    rfl
  node_workflow h := by
    obtain ⟨m, -, -, rfl⟩ := node_of_freeze h
    rfl
  node_incoming h := by
    obtain ⟨m, -, rfl, rfl⟩ := node_of_freeze h
    rfl
  node_outgoing h := by
    obtain ⟨m, -, rfl, rfl⟩ := node_of_freeze h
    rfl
  root_mem := by
    have : root ∈ d.startIds := by simp [hs]
    obtain ⟨m, hm, -, rfl⟩ := mem_startIds.1 this
    exact contains_freeze.2 (List.mem_map.2 ⟨m, hm, rfl⟩)
  start_iff {k n} h := by
    obtain ⟨m, hm, rfl, rfl⟩ := node_of_freeze h
    have start : m.kind = .start ↔ m.id ∈ d.startIds := by
      rw [mem_startIds]
      refine ⟨fun hk => ⟨m, hm, hk, rfl⟩, ?_⟩
      rintro ⟨m', hm', hk, e⟩
      rw [← eq_of_nodup_ids hn hm' hm e]
      exact hk
    rw [hs, List.mem_singleton] at start
    exact start
  transition_id h := (transition_of_freeze h).2
  source_mem h := contains_freeze.2 (ends_of_transitionFault ht _ (transition_of_freeze h).1).1
  target_mem h := contains_freeze.2 (ends_of_transitionFault ht _ (transition_of_freeze h).1).2

def build (d : Draft) : Except GraphError Workflow :=
  if hl : d.visitLimit = 0 then .error (.noVisits d.id)
  else
    match hn : firstRepeat [] d.nodeIds with
    | some n => .error (.duplicateNode n)
    | none =>
        match hs : d.startIds with
        | [] => .error (.noStart d.id)
        | [root] =>
            match ht : d.transitionFault [] d.transitions with
            | some e => .error e
            | none => .ok ⟨d.freeze root, freeze_wellFormed hl (nodup_of_firstRepeat hn).1 hs ht⟩
        | starts => .error (.manyStarts d.id starts)

end Draft

end Flowgraph
