import Flowgraph.Graph.Workflow

namespace Flowgraph.Workflow

variable {w : Workflow}

theorem node_id {n : NodeId} {x : Node} (h : w.node? n = some x) : x.id = n :=
  w.wellFormed.node_id h

theorem ne_of_join {m n : NodeId} {x y : Node} (hx : w.node? m = some x) (hy : w.node? n = some y)
    (hne : x.join ≠ y.join) : m ≠ n := by
  rintro rfl
  rw [hx] at hy
  cases hy
  exact hne rfl

theorem mem_ordered_iff {t : Transition} :
    t ∈ w.ordered ↔ w.transition? t.id = some t := by
  rw [Graph.ordered, List.mem_mergeSort, Keyed.mem_values_iff]
  constructor
  · rintro ⟨k, hk⟩
    have hid := w.wellFormed.transition_id hk
    subst hid
    exact hk
  · intro h
    exact ⟨t.id, h⟩

theorem nodup_transition_ids : (w.transitions.values.map (·.id)).Nodup := by
  rw [Keyed.map_values_key w.wellFormed.transition_id]
  exact Keyed.nodup_keys _

theorem nodup_ordered_ids : (w.ordered.map (·.id)).Nodup := by
  have hperm := (List.mergeSort_perm w.transitions.values Transition.precedes).map (·.id)
  rw [Graph.ordered, hperm.nodup_iff]
  exact nodup_transition_ids

theorem filterMap_transition {l : List Transition} (h : ∀ t ∈ l, t ∈ w.ordered) :
    (l.map (·.id)).filterMap w.transition? = l := by
  induction l with
  | nil => rfl
  | cons t ts ih =>
    have ht := mem_ordered_iff.1 (h t List.mem_cons_self)
    have hts := ih fun u hu => h u (List.mem_cons_of_mem _ hu)
    rw [List.map_cons, List.filterMap_cons, ht, hts]

theorem outgoing_eq_leaving (n : NodeId) : w.outgoing n = w.leaving n := by
  rw [outgoing]
  cases hx : w.node? n with
  | some x =>
    simp only [w.wellFormed.node_outgoing hx]
    exact filterMap_transition fun t ht => (List.mem_filter.1 ht).1
  | none =>
    symm
    refine List.filter_eq_nil_iff.2 fun t ht hs => ?_
    have hc := w.wellFormed.source_mem (mem_ordered_iff.1 ht)
    rw [of_decide_eq_true hs] at hc
    have hn : w.nodes.get? n = none := hx
    simp [Keyed.contains, hn] at hc

theorem incoming_eq_arriving (n : NodeId) : w.incoming n = w.arriving n := by
  rw [incoming]
  cases hx : w.node? n with
  | some x =>
    simp only [w.wellFormed.node_incoming hx]
    exact filterMap_transition fun t ht => (List.mem_filter.1 ht).1
  | none =>
    symm
    refine List.filter_eq_nil_iff.2 fun t ht hs => ?_
    have hc := w.wellFormed.target_mem (mem_ordered_iff.1 ht)
    rw [of_decide_eq_true hs] at hc
    have hn : w.nodes.get? n = none := hx
    simp [Keyed.contains, hn] at hc

theorem mem_outgoing_iff {t : Transition} {n : NodeId} :
    t ∈ w.outgoing n ↔ w.transition? t.id = some t ∧ t.source = n := by
  rw [outgoing_eq_leaving, Graph.leaving, List.mem_filter, mem_ordered_iff, decide_eq_true_iff]

theorem mem_incoming_iff {t : Transition} {n : NodeId} :
    t ∈ w.incoming n ↔ w.transition? t.id = some t ∧ t.target = n := by
  rw [incoming_eq_arriving, Graph.arriving, List.mem_filter, mem_ordered_iff, decide_eq_true_iff]

theorem nodup_outgoing_ids (n : NodeId) : ((w.outgoing n).map (·.id)).Nodup := by
  rw [outgoing_eq_leaving]
  exact nodup_ordered_ids.sublist (List.filter_sublist.map _)

theorem nodup_incoming_ids (n : NodeId) : ((w.incoming n).map (·.id)).Nodup := by
  rw [incoming_eq_arriving]
  exact nodup_ordered_ids.sublist (List.filter_sublist.map _)

theorem eq_of_transition_id {t u : Transition} (ht : w.transition? t.id = some t)
    (hu : w.transition? u.id = some u) (h : t.id = u.id) : t = u := by
  rw [h, hu] at ht
  exact (Option.some.inj ht).symm

end Flowgraph.Workflow
