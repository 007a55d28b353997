import Flowgraph.Proofs.Decl.Agreement
import Flowgraph.Proofs.Graph.Canonical

namespace Flowgraph

namespace NodeDecl

structure Declares (n : NodeDecl) (x : Node) : Prop where
  id : x.id = n.id
  kind : x.kind.word = n.kind
  name : x.name = n.name.getD n.id
  description : x.description = n.description.getD ""
  join : x.join.word = n.join.getD Gate.or.word
  split : x.split.word = n.split.getD Gate.or.word
  action : x.action = n.action

def spelledOut (n : NodeDecl) : NodeDecl :=
  { n with
    line := 0
    name := some (n.name.getD n.id)
    description := some (n.description.getD "")
    join := some (n.join.getD Gate.or.word)
    split := some (n.split.getD Gate.or.word) }

end NodeDecl

namespace TransitionDecl

structure Declares (t : TransitionDecl) (u : Transition) : Prop where
  id : u.id = t.effectiveId
  source : u.source = t.source
  target : u.target = t.target
  name : u.name = t.name.getD ""
  description : u.description = ""
  sequence : u.sequence.toInt = t.sequence.getD 0
  guard : u.guard = t.guard

def spelledOut (t : TransitionDecl) : TransitionDecl :=
  { t with
    line := 0
    id := some t.effectiveId
    name := some (t.name.getD "")
    sequence := some (t.sequence.getD 0) }

end TransitionDecl

structure Workflow.Carries (w : Workflow) (fresh : WorkflowId) (d : Declaration) : Prop where
  id : w.id = d.id.getD fresh
  name : w.name = d.name
  model : some w.model = d.model
  description : w.description = d.description.getD ""
  visitLimit : (w.visitLimit.toNat : Int) = d.maxCounter.getD 1
  active : w.active = !d.inactive
  sequence : w.sequence.toInt = d.sequence.getD 0
  condition : w.condition = d.condition
  nodeIds : (d.nodes.map (·.id)).Perm w.nodes.keys
  nodes : ∀ n ∈ d.nodes, ∃ x, w.node? n.id = some x ∧ n.Declares x
  transitionIds : (d.transitions.map (·.effectiveId)).Perm w.transitions.keys
  transitions : ∀ t ∈ d.transitions, ∃ u, w.transition? t.effectiveId = some u ∧ t.Declares u

namespace Declaration

def spelledOut (d : Declaration) : Declaration :=
  { d with
    description := some (d.description.getD "")
    maxCounter := some (d.maxCounter.getD 1)
    sequence := some (d.sequence.getD 0)
    nodes := d.nodes.map NodeDecl.spelledOut
    transitions := d.transitions.map TransitionDecl.spelledOut }

structure Alike (d d' : Declaration) : Prop where
  opening : { d.spelledOut with nodes := [], transitions := [] } =
    { d'.spelledOut with nodes := [], transitions := [] }
  nodes : d.spelledOut.nodes.Perm d'.spelledOut.nodes
  transitions : d.spelledOut.transitions.Perm d'.spelledOut.transitions

instance (d d' : Declaration) : Decidable (d.Alike d') :=
  decidable_of_iff
    ({ d.spelledOut with nodes := [], transitions := [] } =
      { d'.spelledOut with nodes := [], transitions := [] } ∧
      d.spelledOut.nodes.Perm d'.spelledOut.nodes ∧
      d.spelledOut.transitions.Perm d'.spelledOut.transitions)
    ⟨fun h => ⟨h.1, h.2.1, h.2.2⟩, fun h => ⟨h.opening, h.nodes, h.transitions⟩⟩

end Declaration

namespace Keyed

variable {κ α β γ : Type} [Key κ] [DecidableEq κ] {m : Keyed κ β}

theorem perm_keys {ks : List κ} (hks : ks.Nodup) (h : ∀ k, (∃ b, m.get? k = some b) ↔ k ∈ ks) :
    ks.Perm m.keys := by
  refine (List.perm_ext_iff_of_nodup hks m.nodup_keys).2 fun k => ?_
  rw [← h, mem_keys_iff, contains, Option.isSome_iff_exists]

theorem perm_filterMap_get? {l : List α} {key : α → κ} {read : β → γ} {spell : α → γ}
    (hkeys : (l.map key).Perm m.keys)
    (h : ∀ a ∈ l, ∃ b, m.get? (key a) = some b ∧ read b = spell a) :
    (l.map spell).Perm (m.keys.filterMap fun k => (m.get? k).map read) := by
  have hread : (l.map key).filterMap (fun k => (m.get? k).map read) = l.map spell := by
    rw [List.filterMap_map, ← List.filterMap_eq_map]
    refine List.filterMap_congr fun a ha => ?_
    obtain ⟨b, hb, hr⟩ := h a ha
    simp only [Function.comp_apply, hb, Option.map_some, hr]
  rw [← hread]
  exact hkeys.filterMap _

end Keyed

namespace Workflow.Depicts

variable {w : Workflow} {d : Draft}

theorem perm_nodeIds (hw : w.Depicts d) (h : d.nodeIds.Nodup) : d.nodeIds.Perm w.nodes.keys := by
  refine Keyed.perm_keys h fun k => ?_
  change (∃ x, w.node? k = some x) ↔ _
  simp only [hw.node_iff, Draft.nodeIds, List.mem_map]
  constructor
  · rintro ⟨_, n, hn, e, -⟩
    exact ⟨n, hn, e⟩
  · rintro ⟨n, hn, e⟩
    exact ⟨_, n, hn, e, rfl⟩

theorem perm_transitionIds (hw : w.Depicts d) (h : d.transitionIds.Nodup) :
    d.transitionIds.Perm w.transitions.keys := by
  refine Keyed.perm_keys h fun k => ?_
  change (∃ t, w.transition? k = some t) ↔ _
  simp only [hw.transition_iff, Draft.transitionIds, List.mem_map]

end Workflow.Depicts

namespace Decl

theorem word_gate {o : Option String} (h : ∀ g, o = some g → (Gate.ofWord? g).isSome = true) :
    (o.elim Gate.or fun g => (Gate.ofWord? g).getD .or).word = o.getD Gate.or.word := by
  cases o with
  | none => rfl
  | some s =>
    obtain ⟨g, hg⟩ := Option.isSome_iff_exists.1 (h s rfl)
    rw [Option.elim_some, Option.getD_some, hg, Option.getD_some, Gate.ofWord_eq_some_iff.1 hg]

theorem toInt_sequence {o : Option Int}
    (h : ∀ n, o = some n → IntRange.signed32.has n = true) :
    (o.elim 0 Int32.ofInt).toInt = o.getD 0 := by
  cases o with
  | none => rfl
  | some n =>
    obtain ⟨hlow, hhigh⟩ := IntRange.has_iff.1 (h n rfl)
    exact Int32.toInt_ofInt_of_le hlow (Int.lt_add_one_of_le hhigh)

theorem orDefault_spelled {α β : Type} {a : α} {b : β} (convert : α → Except DeclError β)
    (h : convert a = .ok b) (o : Option α) :
    orDefault b convert (some (o.getD a)) = orDefault b convert o := by
  cases o with
  | none => exact h
  | some _ => rfl

end Decl

namespace NodeDecl

variable {n : NodeDecl} {x : Node}

theorem declares_form (h : n.Known) (place : WorkflowId) (incoming outgoing : List TransitionId) :
    n.Declares { n.form with workflow := place, incoming, outgoing } where
  id := rfl
  kind := by
    obtain ⟨k, hk⟩ := Option.isSome_iff_exists.1 h.kind
    rw [form, hk]
    exact (NodeKind.ofWord_eq_some_iff.1 hk).symm
  name := rfl
  description := rfl
  join := Decl.word_gate fun g hg =>
    h.gates g (List.mem_append_left _ (Option.mem_toList.2 hg))
  split := Decl.word_gate fun g hg =>
    h.gates g (List.mem_append_right _ (Option.mem_toList.2 hg))
  action := rfl

theorem compile_spelledOut (n : NodeDecl) : n.spelledOut.compile = n.compile := by
  have hgate : ∀ o : Option String,
      Decl.orDefault .or Decl.readGate (some (o.getD Gate.or.word)) =
        Decl.orDefault .or Decl.readGate o := Decl.orDefault_spelled _ rfl
  simp only [compile, spelledOut, hgate, effectiveName, Option.getD_some]

end NodeDecl

def Node.declared (x : Node) : NodeDecl where
  id := x.id
  kind := x.kind.word
  line := 0
  name := some x.name
  description := some x.description
  join := some x.join.word
  split := some x.split.word
  action := x.action

theorem NodeDecl.Declares.declared {n : NodeDecl} {x : Node} (h : n.Declares x) :
    x.declared = n.spelledOut := by
  rw [Node.declared, h.id, h.kind, h.name, h.description, h.join, h.split, h.action]
  rfl

namespace TransitionDecl

variable {t : TransitionDecl} {u : Transition}

theorem declares_form (h : t.Fits) : t.Declares t.form :=
  ⟨rfl, rfl, rfl, rfl, rfl, Decl.toInt_sequence h, rfl⟩

theorem compile_spelledOut (t : TransitionDecl) : t.spelledOut.compile = t.compile := by
  have hsequence :
      Decl.orDefault 0 (Decl.narrowSequence "transition SEQUENCE") (some (t.sequence.getD 0)) =
        Decl.orDefault 0 (Decl.narrowSequence "transition SEQUENCE") t.sequence :=
    Decl.orDefault_spelled (Decl.narrowSequence _) rfl _
  simp only [compile, spelledOut, hsequence, effectiveId, Option.getD_some]

end TransitionDecl

def Transition.declared (u : Transition) : TransitionDecl where
  source := u.source
  target := u.target
  line := 0
  id := some u.id
  name := some u.name
  sequence := some u.sequence.toInt
  guard := u.guard

theorem TransitionDecl.Declares.declared {t : TransitionDecl} {u : Transition}
    (h : t.Declares u) : u.declared = t.spelledOut := by
  rw [Transition.declared, h.id, h.source, h.target, h.name, h.sequence, h.guard]
  rfl

namespace Declaration

variable {fresh fresh' : WorkflowId} {d d' : Declaration} {w : Workflow} {i : WorkflowId}

theorem carries_of_compile (h : d.compile fresh = .ok w) : w.Carries fresh d := by
  obtain ⟨hd, hn, hb⟩ := compile_eq_ok_iff.1 h
  have hw : w.Depicts (d.drafted fresh) := Draft.depicts_of_build hb
  have hheader : w.toHeader = d.heading fresh := hw.header
  have hmodel : w.model = d.model.getD "" := congrArg Header.model hheader
  obtain ⟨m, hm⟩ := Option.isSome_iff_exists.1 hd.model
  have hnodeIds : (d.drafted fresh).nodeIds = d.nodes.map (·.id) := nodeIds_forms d.nodes
  have htransitionIds : (d.drafted fresh).transitionIds = d.transitions.map (·.effectiveId) :=
    List.map_map
  exact {
    id := congrArg Header.id hheader
    name := congrArg Header.name hheader
    model := by rw [hmodel, hm, Option.getD_some]
    description := congrArg Header.description hheader
    visitLimit := (congrArg (fun h : Header => (h.visitLimit.toNat : Int)) hheader).trans
      (Decl.toNat_limit hd.limit)
    active := congrArg Header.active hheader
    sequence := (congrArg (fun h : Header => h.sequence.toInt) hheader).trans
      (Decl.toInt_sequence hd.sequence)
    condition := congrArg Header.condition hheader
    nodeIds := hnodeIds ▸ hw.perm_nodeIds (hnodeIds ▸ hd.nodeIds)
    nodes := fun n hn => ⟨_, (hw.node_iff n.id _).2 ⟨n.form, List.mem_map_of_mem hn, rfl, rfl⟩,
      NodeDecl.declares_form (hd.known n hn) ..⟩
    transitionIds := htransitionIds ▸ hw.perm_transitionIds (htransitionIds ▸ hn)
    transitions := fun t ht =>
      ⟨_, (hw.transition_iff t.effectiveId _).2 ⟨List.mem_map_of_mem ht, rfl⟩,
        TransitionDecl.declares_form (hd.transitions t ht).1⟩ }

theorem perm_declared_nodes (h : w.Carries fresh d) :
    (d.nodes.map NodeDecl.spelledOut).Perm
      (w.nodes.keys.filterMap fun k => (w.node? k).map Node.declared) := by
  refine Keyed.perm_filterMap_get? h.nodeIds fun n hn => ?_
  obtain ⟨x, hx, hd⟩ := h.nodes n hn
  exact ⟨x, hx, hd.declared⟩

theorem perm_declared_transitions (h : w.Carries fresh d) :
    (d.transitions.map TransitionDecl.spelledOut).Perm
      (w.transitions.keys.filterMap fun k => (w.transition? k).map Transition.declared) := by
  refine Keyed.perm_filterMap_get? h.transitionIds fun t ht => ?_
  obtain ⟨u, hu, hd⟩ := h.transitions t ht
  exact ⟨u, hu, hd.declared⟩

theorem alike_of_carries (h : w.Carries fresh d) (h' : w.Carries fresh' d') (hid : d.id = d'.id) :
    d.Alike d' where
  opening := by
    have hinactive : d.inactive = d'.inactive := Bool.not_inj (h.active.symm.trans h'.active)
    simp only [spelledOut, ← h.name, ← h'.name, hid, ← h.model, ← h'.model, ← h.description,
      ← h'.description, ← h.visitLimit, ← h'.visitLimit, ← h.sequence, ← h'.sequence,
      ← h.condition, ← h'.condition, hinactive]
  nodes := (perm_declared_nodes h).trans (perm_declared_nodes h').symm
  transitions := (perm_declared_transitions h).trans (perm_declared_transitions h').symm

theorem header_spelledOut : d.spelledOut.header fresh = d.header fresh := by
  have hlimit : Decl.orDefault 1 Decl.narrowLimit (some (d.maxCounter.getD 1)) =
      Decl.orDefault 1 Decl.narrowLimit d.maxCounter :=
    Decl.orDefault_spelled Decl.narrowLimit rfl _
  have hsequence :
      Decl.orDefault 0 (Decl.narrowSequence "SEQUENCE") (some (d.sequence.getD 0)) =
        Decl.orDefault 0 (Decl.narrowSequence "SEQUENCE") d.sequence :=
    Decl.orDefault_spelled (Decl.narrowSequence _) rfl _
  simp only [header, spelledOut, hlimit, hsequence, Option.getD_some]

theorem addNode_spelledOut (draft : Draft) (n : NodeDecl) :
    addNode draft n.spelledOut = addNode draft n := by
  rw [addNode, addNode, NodeDecl.compile_spelledOut]

theorem addTransition_spelledOut (draft : Draft) (t : TransitionDecl) :
    addTransition draft t.spelledOut = addTransition draft t := by
  rw [addTransition, addTransition, TransitionDecl.compile_spelledOut]

theorem compile_spelledOut (fresh : WorkflowId) (d : Declaration) :
    d.spelledOut.compile fresh = d.compile fresh := by
  have hnodes : ∀ draft,
      d.spelledOut.nodes.foldlM addNode draft = d.nodes.foldlM addNode draft := fun draft => by
    simp only [spelledOut, List.foldlM_map, addNode_spelledOut]
  have htransitions : ∀ draft, d.spelledOut.transitions.foldlM addTransition draft =
      d.transitions.foldlM addTransition draft := fun draft => by
    simp only [spelledOut, List.foldlM_map, addTransition_spelledOut]
  simp only [compile, toDraft, header_spelledOut, hnodes, htransitions]

theorem compile_perm {ns : List NodeDecl} {ts : List TransitionDecl} (hn : ns.Perm d.nodes)
    (ht : ts.Perm d.transitions) (h : d.compile fresh = .ok w) :
    { d with nodes := ns, transitions := ts }.compile fresh = .ok w := by
  obtain ⟨hd, hnodup, hb⟩ := compile_eq_ok_iff.1 h
  have hids : (ns.map (·.id)).Perm (d.nodes.map (·.id)) := hn.map _
  have htransitions : ∀ t ∈ ts, t.Fits ∧ t.source ∈ ns.map (·.id) ∧ t.target ∈ ns.map (·.id) := by
    intro t hm
    rw [hids.mem_iff, hids.mem_iff]
    exact hd.transitions t (ht.mem_iff.1 hm)
  refine compile_eq_ok_iff.2 ⟨⟨hd.model, hd.limit, hd.sequence, hids.nodup_iff.2 hd.nodeIds,
    fun n hm => hd.known n (hn.mem_iff.1 hm), htransitions⟩, (ht.map _).nodup_iff.2 hnodup, ?_⟩
  exact Draft.build_perm (d := d.drafted fresh) rfl (hn.map _) (ht.map _) hb

theorem Alike.compile_ok (ha : d.Alike d') (h : d.compile fresh = .ok w) :
    d'.compile fresh = .ok w := by
  -- with the defaults written out, the two differ in the order of their parts alone
  have hopening : d'.spelledOut = { d.spelledOut with
      nodes := d'.spelledOut.nodes
      transitions := d'.spelledOut.transitions } :=
    congrArg (fun o : Declaration => { o with
      nodes := d'.spelledOut.nodes
      transitions := d'.spelledOut.transitions }) ha.opening.symm
  rw [← compile_spelledOut] at h ⊢
  rw [hopening]
  exact compile_perm ha.nodes.symm ha.transitions.symm h

theorem compile_of_id (h : d.id = some i) : d.compile fresh' = d.compile fresh := by
  simp only [compile, toDraft, header, h, Option.getD_some]

theorem compile_lossless (fresh : WorkflowId) (d : Declaration) (w : Workflow)
    (h : d.compile fresh = .ok w) :
    w.Carries fresh d ∧
      ∀ (fresh' : WorkflowId) (d' : Declaration) (i : WorkflowId), d.id = some i →
        d'.id = some i → (d'.compile fresh' = .ok w ↔ d.Alike d') := by
  refine ⟨carries_of_compile h, fun fresh' d' i hi hi' => ⟨fun h' => ?_, fun ha => ?_⟩⟩
  · exact alike_of_carries (carries_of_compile h) (carries_of_compile h') (hi.trans hi'.symm)
  · rw [compile_of_id hi']
    exact ha.compile_ok h

def brief : Declaration where
  name := "Review"
  id := some "review"
  model := some "order"
  nodes := [
    { id := "a", kind := "start", line := 2 },
    { id := "b", kind := "task", line := 3, join := some "and", action := some "notify" },
    { id := "c", kind := "end", line := 4 }]
  transitions := [
    { source := "a", target := "b", line := 5 },
    { source := "b", target := "c", line := 6, id := some "done", sequence := some (-1) }]

def detailed : Declaration where
  name := "Review"
  id := some "review"
  model := some "order"
  description := some ""
  maxCounter := some 1
  nodes := [
    { id := "c", kind := "end", line := 3, split := some "or" },
    { id := "a", kind := "start", line := 4, name := some "a" },
    { id := "b", kind := "task", line := 5, join := some "and", action := some "notify" }]
  transitions := [
    { source := "b", target := "c", line := 6, id := some "done", sequence := some (-1) },
    { source := "a", target := "b", line := 7, id := some "a_to_b", sequence := some 0 }]

theorem compile_lossless_brief :
    ∃ w, brief.compile "fresh" = .ok w ∧ w.Carries "fresh" brief ∧ brief.Alike detailed ∧
      detailed.compile "other" = .ok w ∧
      { brief with inactive := true }.compile "other" ≠ .ok w := by
  have hok : (brief.compile "fresh").map (·.root) = .ok "a" := by cbv
  obtain ⟨w, hw⟩ : ∃ w, brief.compile "fresh" = .ok w := by
    cases hc : brief.compile "fresh" with
    | error e =>
      rw [hc] at hok
      cases hok
    | ok w => exact ⟨w, rfl⟩
  obtain ⟨hcarries, halike⟩ := compile_lossless "fresh" brief w hw
  have hdetailed : brief.Alike detailed := by decide +kernel
  refine ⟨w, hw, hcarries, hdetailed, (halike "other" detailed _ rfl rfl).2 hdetailed, fun h => ?_⟩
  have hinactive : ¬brief.Alike { brief with inactive := true } := by decide +kernel
  exact hinactive ((halike "other" _ _ rfl rfl).1 h)

end Declaration

end Flowgraph
