import Flowgraph.Proofs.Graph.Drafts
import Flowgraph.Proofs.Graph.Ends
import Flowgraph.Proofs.Listing
import Flowgraph.Proofs.Ranks
import Mathlib.Data.List.Permutation

namespace Flowgraph

namespace Transition

def Before (a b : Transition) : Prop :=
  a.sequence < b.sequence ∨ a.sequence = b.sequence ∧ a.id < b.id

theorem ranks : Ranks precedes (·.sequence) (·.id) := fun a b => by simp [precedes]

end Transition

namespace Workflow

variable {w w' : Workflow}

theorem toGraph_injective (h : w.toGraph = w'.toGraph) : w = w' := by
  cases w
  cases w'
  cases h
  rfl

theorem pairwise_ordered : w.ordered.Pairwise Transition.Before :=
  Transition.ranks.strictly_sorted nodup_transition_ids

theorem pairwise_outgoing (n : NodeId) : (w.outgoing n).Pairwise Transition.Before := by
  rw [outgoing_eq_leaving]
  exact pairwise_ordered.filter _

theorem pairwise_incoming (n : NodeId) : (w.incoming n).Pairwise Transition.Before := by
  rw [incoming_eq_arriving]
  exact pairwise_ordered.filter _

end Workflow

def Node.bare (n : Node) : Node := { n with workflow := "", incoming := [], outgoing := [] }

namespace Draft

variable {d d' : Draft} {w : Workflow} {root : NodeId}

structure WellFormed (d : Draft) : Prop where
  limit : 1 ≤ d.visitLimit
  nodes : d.nodeIds.Nodup
  start : d.nodes.countP Node.isStart = 1
  ends : ∀ t ∈ d.transitions, t.source ∈ d.nodeIds ∧ t.target ∈ d.nodeIds
  transitions : d.transitionIds.Nodup

theorem exists_startIds_iff (h : d.nodeIds.Nodup) :
    (∃ root, d.startIds = [root]) ↔ d.nodes.countP Node.isStart = 1 := by
  rw [List.countP_eq_length_filter, List.length_eq_one_iff]
  simp only [startIds_eq_singleton_iff h, List.map_eq_singleton_iff]
  constructor
  · rintro ⟨-, n, hn, -⟩
    exact ⟨n, hn⟩
  · rintro ⟨n, hn⟩
    exact ⟨n.id, n, hn, rfl⟩

theorem build_ok_iff_wellFormed : (∃ w, d.build = .ok w) ↔ d.WellFormed := by
  have hlimit : d.visitLimit ≠ 0 ↔ 1 ≤ d.visitLimit := by
    rw [UInt32.le_iff_toNat_le, Ne, ← UInt32.toNat_inj]
    exact Nat.pos_iff_ne_zero.symm
  rw [build_ok_iff, hlimit]
  constructor
  · rintro ⟨hl, hn, hs, he, ht⟩
    exact ⟨hl, hn, (exists_startIds_iff hn).1 hs, he, ht⟩
  · intro h
    exact ⟨h.limit, h.nodes, (exists_startIds_iff h.nodes).2 h.start, h.ends, h.transitions⟩

def outline (d : Draft) : Except GraphError Graph :=
  if d.visitLimit = 0 then .error (.noVisits d.id)
  else
    match firstRepeat [] d.nodeIds with
    | some n => .error (.duplicateNode n)
    | none =>
        match d.startIds with
        | [] => .error (.noStart d.id)
        | [root] =>
            match d.transitionFault [] d.transitions with
            | some e => .error e
            | none => .ok (d.freeze root)
        | starts => .error (.manyStarts d.id starts)

theorem build_outline (d : Draft) : d.build.map (·.toGraph) = d.outline := by
  rw [build, outline]
  split
  case isTrue => rfl
  case isFalse =>
    split
    case h_1 hn => simp only [hn]; rfl
    case h_2 hn =>
      simp only [hn]
      split
      case h_1 hs => simp only [hs]; rfl
      case h_2 hs =>
        simp only [hs]
        split
        case h_1 ht => simp only [ht]; rfl
        case h_2 ht => simp only [ht]; rfl
      case h_3 hnone hmany =>
        rcases hs : d.startIds with _ | ⟨m, _ | ⟨n, ns⟩⟩
        · exact absurd hs hnone
        · exact absurd hs (hmany m)
        · rfl

theorem build_congr (h : d'.outline = d.outline) : d'.build = d.build := by
  rw [← build_outline, ← build_outline] at h
  rcases hb : d.build with e | w <;> rcases hb' : d'.build with e' | w' <;> rw [hb, hb'] at h
  · exact congrArg _ (Except.error.inj h)
  · cases h
  · cases h
  · exact congrArg _ (Workflow.toGraph_injective (Except.ok.inj h))

theorem freeze_of_build (h : d.build = .ok w) :
    ∃ root, d.startIds = [root] ∧ w.toGraph = d.freeze root := by
  have ho : d.outline = .ok w.toGraph := by rw [← build_outline, h]; rfl
  rw [outline] at ho
  split at ho
  · cases ho
  split at ho
  · cases ho
  split at ho
  · cases ho
  case h_2 root hs =>
    split at ho
    · cases ho
    · exact ⟨root, hs, (Except.ok.inj ho).symm⟩
  · cases ho

theorem transitionFault_congr (hid : d'.id = d.id) (hn : d'.nodeIds = d.nodeIds)
    (seen : List TransitionId) (ts : List Transition) :
    d'.transitionFault seen ts = d.transitionFault seen ts := by
  induction ts generalizing seen with
  | nil => rfl
  | cons t ts ih =>
    have hl : d'.looseEnd? t = d.looseEnd? t := by rw [looseEnd?, hn, looseEnd?]
    rw [transitionFault, transitionFault, hl, hid, ih]

theorem frame_congr (hh : d'.toHeader = d.toHeader) (ht : d'.transitions = d.transitions)
    (root : NodeId) : d'.frame root = d.frame root := by
  rw [frame, frame, hh, ht]

theorem build_of_bare (hh : d'.toHeader = d.toHeader)
    (hn : d'.nodes.map Node.bare = d.nodes.map Node.bare) (ht : d'.transitions = d.transitions) :
    d'.build = d.build := by
  have hids : d'.nodeIds = d.nodeIds := by
    have h := congrArg (List.map (·.id)) hn
    rwa [List.map_map, List.map_map] at h
  have hstarts : d'.startIds = d.startIds := by
    have h := congrArg (List.map (·.id)) (congrArg (List.filter Node.isStart) hn)
    rw [List.filter_map, List.filter_map, List.map_map, List.map_map] at h
    rw [startIds, startIds]
    exact congrArg (fun l => (Keyed.ofMembers l).keys) h
  have hfreeze : ∀ root, d'.freeze root = d.freeze root := by
    intro root
    have h := congrArg (List.map fun n => (n.id, (d.frame root).place n)) hn
    rw [List.map_map, List.map_map] at h
    rw [freeze, freeze, frame_congr hh ht]
    exact congrArg (fun l => { d.frame root with nodes := .ofList l }) h
  have hid : d'.id = d.id := congrArg Header.id hh
  have hlimit : d'.visitLimit = d.visitLimit := congrArg Header.visitLimit hh
  refine build_congr ?_
  simp only [outline, hid, hlimit, hids, hstarts, ht, hfreeze, transitionFault_congr hid hids]

theorem WellFormed.nodup_keyed (h : d.WellFormed) :
    ((d.transitions.map fun t => (t.id, t)).map (·.1)).Nodup := by
  rw [List.map_map]
  exact h.transitions

theorem WellFormed.nodup_placed (h : d.WellFormed) (root : NodeId) :
    ((d.nodes.map fun n => (n.id, (d.frame root).place n)).map (·.1)).Nodup := by
  rw [List.map_map]
  exact h.nodes

theorem freeze_perm (h : d.WellFormed) (hh : d'.toHeader = d.toHeader)
    (hn : d'.nodes.Perm d.nodes) (ht : d'.transitions.Perm d.transitions) (root : NodeId) :
    d'.freeze root = d.freeze root := by
  have hframe : d'.frame root = d.frame root := by
    rw [frame, frame, hh, Keyed.ofList_perm h.nodup_keyed (ht.map _)]
  rw [freeze, freeze, hframe, Keyed.ofList_perm (h.nodup_placed root) (hn.map _)]

theorem WellFormed.perm (h : d.WellFormed) (hh : d'.toHeader = d.toHeader)
    (hn : d'.nodes.Perm d.nodes) (ht : d'.transitions.Perm d.transitions) : d'.WellFormed where
  limit := by
    rw [hh]
    exact h.limit
  nodes := (hn.map _).nodup_iff.2 h.nodes
  start := (hn.countP_eq _).trans h.start
  ends t hm := by
    have hids : d'.nodeIds.Perm d.nodeIds := hn.map _
    rw [hids.mem_iff, hids.mem_iff]
    exact h.ends t (ht.mem_iff.1 hm)
  transitions := (ht.map _).nodup_iff.2 h.transitions

theorem build_perm (hh : d'.toHeader = d.toHeader) (hn : d'.nodes.Perm d.nodes)
    (ht : d'.transitions.Perm d.transitions) (h : d.build = .ok w) : d'.build = .ok w := by
  have hd : d.WellFormed := build_ok_iff_wellFormed.1 ⟨w, h⟩
  obtain ⟨w', hw'⟩ := build_ok_iff_wellFormed.2 (hd.perm hh hn ht)
  obtain ⟨root, hs, hg⟩ := freeze_of_build h
  obtain ⟨root', hs', hg'⟩ := freeze_of_build hw'
  have hstarts : d'.startIds.Perm d.startIds := by
    refine (List.perm_ext_iff_of_nodup d'.nodup_startIds d.nodup_startIds).2 fun k => ?_
    simp only [mem_startIds, hn.mem_iff]
  rw [hs, hs'] at hstarts
  obtain rfl := List.singleton_perm_singleton.1 hstarts
  rw [freeze_perm hd hh hn ht] at hg'
  rw [hw', Workflow.toGraph_injective (hg'.trans hg.symm)]

end Draft

structure Workflow.Depicts (w : Workflow) (d : Draft) : Prop where
  header : w.toHeader = d.toHeader
  root_mem : w.root ∈ d.nodeIds
  root_iff : ∀ n ∈ d.nodes, n.isStart = true ↔ n.id = w.root
  node_iff : ∀ k x, w.node? k = some x ↔ ∃ n ∈ d.nodes, n.id = k ∧ x = { n with
    workflow := w.id
    incoming := (w.incoming k).map (·.id)
    outgoing := (w.outgoing k).map (·.id) }
  transition_iff : ∀ k t, w.transition? k = some t ↔ t ∈ d.transitions ∧ t.id = k
  outgoing_perm : ∀ n, (w.outgoing n).Perm (d.transitions.filter (·.source = n))
  outgoing_ascending : ∀ n, (w.outgoing n).Pairwise Transition.Before
  incoming_perm : ∀ n, (w.incoming n).Perm (d.transitions.filter (·.target = n))
  incoming_ascending : ∀ n, (w.incoming n).Pairwise Transition.Before

namespace Draft

variable {d d' : Draft} {w : Workflow} {root : NodeId}

theorem depicts_of_build (h : d.build = .ok w) : w.Depicts d := by
  have hd : d.WellFormed := build_ok_iff_wellFormed.1 ⟨w, h⟩
  obtain ⟨root, hs, hg⟩ := freeze_of_build h
  have hroot : w.root = root := congrArg Graph.root hg
  have hid : w.id = d.id := congrArg (fun g : Graph => g.id) hg
  have hordered : w.ordered.Perm d.transitions := by
    have hvalues := (Keyed.entries_ofList_perm hd.nodup_keyed).map (·.2)
    rw [List.map_map] at hvalues
    have hsorted : w.ordered.Perm w.transitions.values := List.mergeSort_perm _ _
    rw [hg] at hsorted ⊢
    exact hsorted.trans (hvalues.trans (.of_eq (List.map_id _)))
  have hincoming : ∀ n, w.incoming n = (d.frame root).arriving n := fun n => by
    rw [Workflow.incoming_eq_arriving, hg]
    rfl
  have houtgoing : ∀ n, w.outgoing n = (d.frame root).leaving n := fun n => by
    rw [Workflow.outgoing_eq_leaving, hg]
    rfl
  refine ⟨congrArg Graph.toHeader hg, ?_, fun n hn => ?_, fun k x => ?_, fun k t => ?_, fun n => ?_,
    fun n => Workflow.pairwise_outgoing n, fun n => ?_, fun n => Workflow.pairwise_incoming n⟩
  · obtain ⟨n, hn, -, e⟩ := mem_startIds.1 (hs ▸ List.mem_singleton_self root)
    rw [hroot, ← e]
    exact List.mem_map_of_mem hn
  · have hstart : n.id ∈ d.startIds ↔ n.id = w.root := by rw [hs, hroot, List.mem_singleton]
    rw [← hstart, mem_startIds]
    constructor
    · intro hk
      exact ⟨n, hn, of_decide_eq_true hk, rfl⟩
    · rintro ⟨m, hm, hk, e⟩
      rw [← eq_of_nodup_ids hd.nodes hm hn e]
      exact decide_eq_true hk
  · rw [hincoming, houtgoing, hid, Workflow.node?, hg]
    refine (Keyed.get?_ofList_iff (hd.nodup_placed root)).trans ?_
    simp only [List.mem_map, Prod.mk.injEq]
    constructor
    · rintro ⟨n, hn, rfl, rfl⟩
      exact ⟨n, hn, rfl, rfl⟩
    · rintro ⟨n, hn, rfl, rfl⟩
      exact ⟨n, hn, rfl, rfl⟩
  · rw [Workflow.transition?, hg]
    refine (Keyed.get?_ofList_iff hd.nodup_keyed).trans ?_
    simp only [List.mem_map, Prod.mk.injEq]
    constructor
    · rintro ⟨u, hu, rfl, rfl⟩
      exact ⟨hu, rfl⟩
    · rintro ⟨ht, rfl⟩
      exact ⟨t, ht, rfl, rfl⟩
  · rw [Workflow.outgoing_eq_leaving]
    exact hordered.filter _
  · rw [Workflow.incoming_eq_arriving]
    exact hordered.filter _

theorem build_canonical (d : Draft) :
    ((∃ w, d.build = .ok w) ↔ d.WellFormed) ∧
      (∀ w, d.build = .ok w → w.Depicts d) ∧
      (∀ d' : Draft, d'.toHeader = d.toHeader → d'.nodes.map Node.bare = d.nodes.map Node.bare →
        d'.transitions = d.transitions → d'.build = d.build) ∧
      ∀ (d' : Draft) (w : Workflow), d'.toHeader = d.toHeader → d'.nodes.Perm d.nodes →
        d'.transitions.Perm d.transitions → (d'.build = .ok w ↔ d.build = .ok w) := by
  refine ⟨build_ok_iff_wellFormed, fun w => depicts_of_build, fun d' => build_of_bare,
    fun d' w hh hn ht => ⟨build_perm hh.symm hn.symm ht.symm, build_perm hh hn ht⟩⟩

def recycled : Draft where
  id := "review"
  name := "Review"
  model := "order"
  nodes := [
    { id := "b", name := "B", kind := .task, workflow := "old", incoming := ["x"] },
    { id := "a", name := "A", kind := .start }]
  transitions := [
    { id := "t2", source := "a", target := "b" }, { id := "t1", source := "a", target := "b" },
    { id := "loop", source := "b", target := "b", sequence := -1 }]

theorem build_canonical_recycled :
    recycled.WellFormed ∧ ∃ w, recycled.build = .ok w ∧ w.Depicts recycled ∧
      (w.incoming "b").map (·.id) = ["loop", "t1", "t2"] ∧
      { recycled with nodes := recycled.nodes.map Node.bare }.build = .ok w ∧
      { recycled with nodes := recycled.nodes.reverse }.build = .ok w := by
  have hwell : recycled.WellFormed := by
    refine ⟨?_, ?_, ?_, ?_, ?_⟩ <;> decide +kernel
  obtain ⟨hok, hdepicts, hbare, hperm⟩ := build_canonical recycled
  obtain ⟨w, hw⟩ := hok.2 hwell
  have hincoming : (recycled.build.map fun w => (w.incoming "b").map (·.id)) =
      .ok ["loop", "t1", "t2"] := by cbv
  rw [hw] at hincoming
  refine ⟨hwell, w, hw, hdepicts w hw, Except.ok.inj hincoming, (hbare _ rfl rfl rfl).trans hw, ?_⟩
  exact (hperm { recycled with nodes := recycled.nodes.reverse } w rfl (List.reverse_perm _)
    (.refl _)).2 hw

end Draft

end Flowgraph
