import Flowgraph.Graph.Form
import Flowgraph.Proofs.Graph.Canonical
import Flowgraph.Proofs.Json.Records

namespace Flowgraph

open Json

variable {c : Codec}

@[simp] theorem NodeKind.ofJson?_toJson (k : NodeKind) : NodeKind.ofJson? k.toJson = some k := by
  cases k <;> rfl

@[simp] theorem Gate.ofJson?_toJson (g : Gate) : Gate.ofJson? g.toJson = some g := by
  cases g <;> rfl

theorem Node.ofJson?_toJson (hc : c.Lawful) (n : Node) :
    Node.ofJson? c n.toJson = some n.bare := by
  rw [ofJson?, toJson, slots_ofFields hc]
  simp [fields, Node.bare]

theorem Transition.ofJson?_toJson (hc : c.Lawful) (t : Transition) :
    Transition.ofJson? c t.toJson = some t := by
  rw [ofJson?, toJson, slots_ofFields hc]
  simp [fields]

namespace Draft

def bare (d : Draft) : Draft := { d with nodes := d.nodes.map Node.bare }

theorem ofJson?_toJson (hc : c.Lawful) (d : Draft) : ofJson? c d.toJson = some d.bare := by
  have hnodes :=
    readList_map (Node.ofJson? c) Node.toJson Node.bare (Node.ofJson?_toJson hc) d.nodes
  have htransitions := readList_map (Transition.ofJson? c) Transition.toJson id
    (Transition.ofJson?_toJson hc) d.transitions
  rw [ofJson?, toJson, slots_ofFields hc]
  refine Option.bind_eq_some_iff.2 ⟨_, rfl, ?_⟩
  -- the fields one after the other, in the order in which they are read
  refine Option.bind_eq_some_iff.2 ⟨d.id, by simp, ?_⟩
  refine Option.bind_eq_some_iff.2 ⟨d.name, by simp, ?_⟩
  refine Option.bind_eq_some_iff.2 ⟨d.description, by simp, ?_⟩
  refine Option.bind_eq_some_iff.2 ⟨d.model, by simp, ?_⟩
  refine Option.bind_eq_some_iff.2 ⟨d.visitLimit, by simp, ?_⟩
  refine Option.bind_eq_some_iff.2 ⟨d.active, by simp, ?_⟩
  refine Option.bind_eq_some_iff.2 ⟨d.sequence, by simp, ?_⟩
  refine Option.bind_eq_some_iff.2 ⟨d.condition, by simp, ?_⟩
  refine Option.bind_eq_some_iff.2 ⟨d.nodes.map Node.bare, by simp [hnodes], ?_⟩
  exact Option.bind_eq_some_iff.2 ⟨d.transitions, by simp [htransitions], rfl⟩

theorem build_bare (d : Draft) : d.bare.build = d.build := by
  refine build_of_bare rfl ?_ rfl
  rw [bare, List.map_map]
  rfl

end Draft

theorem Graph.place_eq {g : Graph} {n : Node} (hw : n.workflow = g.id)
    (hi : n.incoming = (g.arriving n.id).map (·.id))
    (ho : n.outgoing = (g.leaving n.id).map (·.id)) : g.place n = n := by
  rw [place, ← hw, ← hi, ← ho]

namespace Workflow

variable (w : Workflow)

theorem nodeIds_toDraft : w.toDraft.nodeIds = w.nodes.keys :=
  Keyed.map_values_key w.wellFormed.node_id

theorem transitionIds_toDraft : w.toDraft.transitionIds = w.transitions.keys :=
  Keyed.map_values_key w.wellFormed.transition_id

theorem startIds_toDraft : w.toDraft.startIds = [w.root] := by
  refine List.perm_singleton.1 ?_
  refine (List.perm_ext_iff_of_nodup (Draft.nodup_startIds _)
    (List.nodup_singleton _)).2 fun k => ?_
  rw [Draft.mem_startIds, List.mem_singleton]
  constructor
  · rintro ⟨n, hn, hk, rfl⟩
    obtain ⟨k, hget⟩ := Keyed.mem_values_iff.1 hn
    rw [w.wellFormed.node_id hget]
    exact (w.wellFormed.start_iff hget).1 hk
  · rintro rfl
    obtain ⟨n, hget⟩ := Option.isSome_iff_exists.1 w.wellFormed.root_mem
    exact ⟨n, Keyed.mem_values_iff.2 ⟨_, hget⟩, (w.wellFormed.start_iff hget).2 rfl,
      w.wellFormed.node_id hget⟩

theorem toDraft_wellFormed : w.toDraft.WellFormed := by
  refine Draft.build_ok_iff_wellFormed.1 (Draft.build_ok_iff.2 ?_)
  have hends : ∀ t ∈ w.transitions.values,
      t.source ∈ w.toDraft.nodeIds ∧ t.target ∈ w.toDraft.nodeIds := by
    intro t ht
    obtain ⟨k, hk⟩ := Keyed.mem_values_iff.1 ht
    rw [nodeIds_toDraft, Keyed.mem_keys_iff, Keyed.mem_keys_iff]
    exact ⟨w.wellFormed.source_mem hk, w.wellFormed.target_mem hk⟩
  refine ⟨w.wellFormed.limit_pos, ?_, ⟨w.root, w.startIds_toDraft⟩, hends, ?_⟩
  · rw [nodeIds_toDraft]
    exact Keyed.nodup_keys _
  · rw [transitionIds_toDraft]
    exact Keyed.nodup_keys _

theorem freeze_toDraft : w.toDraft.freeze w.root = w.toGraph := by
  have htransitions : Keyed.ofList (w.toDraft.transitions.map fun t => (t.id, t)) =
      w.transitions :=
    Keyed.ofList_values (f := id) fun h => ⟨w.wellFormed.transition_id h, rfl⟩
  have hframe : w.toDraft.frame w.root = { w.toGraph with nodes := .empty } := by
    rw [Draft.frame, htransitions]
    rfl
  rw [Draft.freeze, hframe]
  refine congrArg (fun ns => { w.toGraph with nodes := ns }) ?_
  refine Keyed.ofList_values fun {k n} h => ⟨w.wellFormed.node_id h, ?_⟩
  obtain rfl := w.wellFormed.node_id h
  exact Graph.place_eq (w.wellFormed.node_workflow h) (w.wellFormed.node_incoming h)
    (w.wellFormed.node_outgoing h)

theorem build_toDraft : w.toDraft.build = .ok w := by
  obtain ⟨w', hw'⟩ := Draft.build_ok_iff_wellFormed.2 w.toDraft_wellFormed
  obtain ⟨root, hs, hg⟩ := Draft.freeze_of_build hw'
  rw [startIds_toDraft] at hs
  obtain rfl := List.singleton_inj.1 hs
  rw [hw', toGraph_injective (hg.trans w.freeze_toDraft)]

theorem ofJson?_toJson (hc : c.Lawful) : ofJson? c w.toJson = some (.ok w) := by
  rw [ofJson?, toJson, Draft.ofJson?_toJson hc, Option.map_some, Draft.build_bare, build_toDraft]

variable {w}

theorem draft_of_ofJson? {v : Json} (h : ofJson? c v = some (.ok w)) :
    ∃ d, Draft.ofJson? c v = some d ∧ d.WellFormed ∧ w.Depicts d := by
  obtain ⟨d, hd, hb⟩ := Option.map_eq_some_iff.1 h
  exact ⟨d, hd, Draft.build_ok_iff_wellFormed.1 ⟨w, hb⟩, Draft.depicts_of_build hb⟩

theorem json_rebuilds (hc : c.Lawful) :
    (∀ (d : Draft) (w : Workflow), d.build = .ok w → ofJson? c w.toJson = some (.ok w)) ∧
      ∀ (v : Json) (w : Workflow), ofJson? c v = some (.ok w) →
        ofJson? c w.toJson = some (.ok w) ∧
          (∃ d, Draft.ofJson? c v = some d ∧ d.WellFormed ∧ w.Depicts d) ∧
          w.toDraft.WellFormed ∧ w.Depicts w.toDraft :=
  ⟨fun _ w _ => w.ofJson?_toJson hc, fun _ w h => ⟨w.ofJson?_toJson hc, draft_of_ofJson? h,
    w.toDraft_wellFormed, Draft.depicts_of_build w.build_toDraft⟩⟩

def shuffled : Json :=
  .obj [("colour", .str "red"), ("id", .str "review"), ("name", .str "Review"),
    ("nodes", .arr [
      .obj [("id", .str "b"), ("name", .str "B"), ("node_type", .str "Task")],
      .obj [("id", .str "a"), ("name", .str "A"), ("node_type", .str "Start")]]),
    ("target_model", .str "order"),
    ("transitions", .arr [
      .obj [("id", .str "t2"), ("next_node", .str "b"), ("start_node", .str "a")],
      .obj [("id", .str "t1"), ("next_node", .str "b"), ("start_node", .str "a")]])]

theorem json_rebuilds_shuffled :
    Codec.standard.Lawful ∧
      ∃ w, ofJson? .standard shuffled = some (.ok w) ∧ w.nodes.keys = ["a", "b"] ∧
        w.visitLimit = 1 ∧ ofJson? .standard w.toJson = some (.ok w) ∧ w.toDraft.WellFormed := by
  have hread : ((ofJson? .standard shuffled).map fun r =>
      r.map fun w => (w.nodes.keys, w.visitLimit)) =
      some (.ok (["a", "b"], 1)) := by cbv
  obtain ⟨r, hr, hmap⟩ := Option.map_eq_some_iff.1 hread
  rcases r with e | w
  · cases hmap
  obtain ⟨hkeys, hlimit⟩ := Prod.mk.inj (Except.ok.inj hmap)
  obtain ⟨hback, -, hwell, -⟩ := (json_rebuilds Codec.standard_lawful).2 shuffled w hr
  exact ⟨Codec.standard_lawful, w, hr, hkeys, hlimit, hback, hwell⟩

end Workflow

end Flowgraph
