import Flowgraph.Decl.Compile
import Flowgraph.Proofs.Graph.Drafts

namespace Flowgraph

namespace Decl

theorem readKind_ok_iff {word : String} {k : NodeKind} :
    readKind word = .ok k ↔ NodeKind.ofWord? word = some k := by
  rw [readKind]
  split <;> simp_all

theorem readGate_ok_iff {word : String} {g : Gate} :
    readGate word = .ok g ↔ Gate.ofWord? word = some g := by
  rw [readGate]
  split <;> simp_all

theorem orDefault_ok_iff {α β : Type} {b : β} {convert : α → Except DeclError β} {f : α → β}
    {known : α → Prop} (h : ∀ a c, convert a = .ok c ↔ known a ∧ c = f a) {o : Option α} {c : β} :
    orDefault b convert o = .ok c ↔ (∀ a, o = some a → known a) ∧ c = o.elim b f := by
  cases o with
  | none =>
    constructor
    · intro h
      exact ⟨fun _ ha => (by cases ha), (Except.ok.inj h).symm⟩
    · intro h
      exact congrArg Except.ok h.2.symm
  | some a =>
    rw [orDefault, h]
    simp

theorem readGate_known (word : String) (g : Gate) :
    readGate word = .ok g ↔
      (Gate.ofWord? word).isSome = true ∧ g = (Gate.ofWord? word).getD .or := by
  rw [readGate_ok_iff]
  cases Gate.ofWord? word with
  | none => simp
  | some k =>
    rw [Option.some.injEq, Option.isSome_some, Option.getD_some, and_iff_right rfl]
    exact eq_comm

theorem narrow_ok_iff {α : Type} {field : String} {r : IntRange} {convert : Int → α} (n : Int)
    (a : α) : narrow field r convert n = .ok a ↔ r.has n = true ∧ a = convert n := by
  rw [narrow]
  split
  case isTrue h =>
    rw [and_iff_right h, Except.ok.injEq]
    exact eq_comm
  case isFalse h => simp [h]

theorem narrowLimit_ok_iff (n : Int) (l : UInt32) :
    narrowLimit n = .ok l ↔ IntRange.unsigned32.has n = true ∧ l = UInt32.ofNat n.toNat :=
  narrow_ok_iff n l

theorem narrowSequence_ok_iff {field : String} (n : Int) (k : Int32) :
    narrowSequence field n = .ok k ↔ IntRange.signed32.has n = true ∧ k = Int32.ofInt n :=
  narrow_ok_iff n k

theorem toNat_limit {o : Option Int}
    (h : ∀ n, o = some n → IntRange.unsigned32.has n = true) :
    ((o.elim 1 fun n => UInt32.ofNat n.toNat).toNat : Int) = o.getD 1 := by
  cases o with
  | none => rfl
  | some n =>
    obtain ⟨hlow, hhigh⟩ : 0 ≤ n ∧ n ≤ 4294967295 := IntRange.has_iff.1 (h n rfl)
    have hsize : n.toNat < UInt32.size := by
      rw [UInt32.size]
      omega
    rw [Option.elim_some, Option.getD_some, UInt32.toNat_ofNat_of_lt' hsize,
      Int.toNat_of_nonneg hlow]

end Decl

theorem NodeKind.ofWord_eq_some_iff {word : String} {k : NodeKind} :
    NodeKind.ofWord? word = some k ↔ word = k.word := by
  constructor
  · intro h
    rw [ofWord?.eq_def] at h
    split at h <;> cases h <;> rfl
  · rintro rfl
    cases k <;> rfl

theorem Gate.ofWord_eq_some_iff {word : String} {g : Gate} :
    Gate.ofWord? word = some g ↔ word = g.word := by
  constructor
  · intro h
    rw [ofWord?.eq_def] at h
    split at h <;> cases h <;> rfl
  · rintro rfl
    cases g <;> rfl

namespace NodeDecl

def form (n : NodeDecl) : Node where
  id := n.id
  name := n.effectiveName
  kind := (NodeKind.ofWord? n.kind).getD .task
  description := n.description.getD ""
  join := n.join.elim .or fun g => (Gate.ofWord? g).getD .or
  split := n.split.elim .or fun g => (Gate.ofWord? g).getD .or
  action := n.action

structure Known (n : NodeDecl) : Prop where
  kind : (NodeKind.ofWord? n.kind).isSome = true
  gates : ∀ g ∈ n.gates, (Gate.ofWord? g).isSome = true

variable {n : NodeDecl} {m : Node}

theorem compile_ok_iff : n.compile = .ok m ↔ n.Known ∧ m = n.form := by
  have hgates : (∀ g ∈ n.gates, (Gate.ofWord? g).isSome = true) ↔
      (∀ g, n.join = some g → (Gate.ofWord? g).isSome = true) ∧
        ∀ g, n.split = some g → (Gate.ofWord? g).isSome = true := by
    simp only [gates, List.mem_append, Option.mem_toList, or_imp, forall_and]
  simp only [compile, Except.bind_ok_iff, Decl.readKind_ok_iff,
    Decl.orDefault_ok_iff Decl.readGate_known, Except.ok.injEq]
  constructor
  · rintro ⟨k, hk, j, ⟨hj, rfl⟩, s, ⟨hs, rfl⟩, rfl⟩
    refine ⟨⟨?_, hgates.2 ⟨hj, hs⟩⟩, ?_⟩
    · rw [hk, Option.isSome_some]
    · rw [form, hk, Option.getD_some]
  · rintro ⟨⟨hk, hg⟩, rfl⟩
    obtain ⟨k, hk⟩ := Option.isSome_iff_exists.1 hk
    obtain ⟨hj, hs⟩ := hgates.1 hg
    refine ⟨k, hk, _, ⟨hj, rfl⟩, _, ⟨hs, rfl⟩, ?_⟩
    rw [form, hk, Option.getD_some]

theorem kind_form_eq_start_iff (h : n.Known) :
    n.form.kind = .start ↔ n.kind = NodeKind.start.word := by
  obtain ⟨k, hk⟩ := Option.isSome_iff_exists.1 h.kind
  have hkind : n.form.kind = k := by rw [form, hk, Option.getD_some]
  rw [hkind, NodeKind.ofWord_eq_some_iff.1 hk]
  cases k <;> decide

end NodeDecl

namespace TransitionDecl

def form (t : TransitionDecl) : Transition where
  id := t.effectiveId
  source := t.source
  target := t.target
  name := t.name.getD ""
  sequence := t.sequence.elim 0 Int32.ofInt
  guard := t.guard

def Fits (t : TransitionDecl) : Prop := ∀ n, t.sequence = some n → IntRange.signed32.has n = true

theorem compile_ok_iff {t : TransitionDecl} {u : Transition} :
    t.compile = .ok u ↔ t.Fits ∧ u = t.form := by
  simp only [compile, Except.bind_ok_iff, Decl.orDefault_ok_iff Decl.narrowSequence_ok_iff,
    Except.ok.injEq]
  constructor
  · rintro ⟨s, ⟨hs, rfl⟩, rfl⟩
    exact ⟨hs, rfl⟩
  · rintro ⟨hs, rfl⟩
    exact ⟨_, ⟨hs, rfl⟩, rfl⟩

end TransitionDecl

namespace Declaration

def heading (fresh : WorkflowId) (d : Declaration) : Header where
  id := d.id.getD fresh
  name := d.name
  model := d.model.getD ""
  description := d.description.getD ""
  visitLimit := d.maxCounter.elim 1 fun n => UInt32.ofNat n.toNat
  active := !d.inactive
  sequence := d.sequence.elim 0 Int32.ofInt
  condition := d.condition

def drafted (fresh : WorkflowId) (d : Declaration) : Draft :=
  { d.heading fresh with
    nodes := d.nodes.map NodeDecl.form
    transitions := d.transitions.map TransitionDecl.form }

variable {fresh : WorkflowId} {d : Declaration} {draft draft' : Draft} {ns : List NodeDecl}
  {ts : List TransitionDecl}

theorem header_ok_iff {h : Header} :
    d.header fresh = .ok h ↔
      (d.model.isSome = true ∧ (∀ n, d.maxCounter = some n → IntRange.unsigned32.has n = true) ∧
        ∀ n, d.sequence = some n → IntRange.signed32.has n = true) ∧ h = d.heading fresh := by
  rw [header]
  cases hm : d.model with
  | none => simp [bind, Except.bind]
  | some m =>
    simp only [Except.bind_ok_iff, Decl.orDefault_ok_iff Decl.narrowLimit_ok_iff,
      Decl.orDefault_ok_iff Decl.narrowSequence_ok_iff, Except.ok.injEq, heading, hm,
      Option.getD_some]
    constructor
    · rintro ⟨_, rfl, l, ⟨hl, rfl⟩, s, ⟨hs, rfl⟩, rfl⟩
      exact ⟨⟨rfl, hl, hs⟩, rfl⟩
    · rintro ⟨⟨-, hl, hs⟩, rfl⟩
      exact ⟨_, rfl, _, ⟨hl, rfl⟩, _, ⟨hs, rfl⟩, rfl⟩

theorem inGraph_ok_iff {α : Type} {x : Except GraphError α} {a : α} :
    Decl.inGraph x = .ok a ↔ x = .ok a := by
  cases x <;> simp [Decl.inGraph]

theorem addNode_ok_iff {n : NodeDecl} :
    addNode draft n = .ok draft' ↔
      n.Known ∧ n.id ∉ draft.nodeIds ∧
        draft' = { draft with nodes := draft.nodes ++ [n.form] } := by
  simp only [addNode, Except.bind_ok_iff, NodeDecl.compile_ok_iff, inGraph_ok_iff,
    Draft.addNode_ok_iff]
  constructor
  · rintro ⟨m, ⟨hn, rfl⟩, h⟩
    exact ⟨hn, h⟩
  · rintro ⟨hn, h⟩
    exact ⟨_, ⟨hn, rfl⟩, h⟩

theorem addNodes_ok_iff :
    ns.foldlM addNode draft = .ok draft' ↔
      (∀ n ∈ ns, n.Known) ∧ ((ns.map (·.id)).Nodup ∧ ∀ k ∈ ns.map (·.id), k ∉ draft.nodeIds) ∧
        draft' = { draft with nodes := draft.nodes ++ ns.map NodeDecl.form } := by
  induction ns generalizing draft with
  | nil => simp [pure, Except.pure, eq_comm]
  | cons n ns ih =>
    rw [List.foldlM_cons, Except.bind_ok_iff]
    simp only [addNode_ok_iff, ih]
    constructor
    · rintro ⟨_, ⟨hn, hk, rfl⟩, hns, ⟨hnodup, hfree⟩, rfl⟩
      have hfree' : ∀ k ∈ ns.map (·.id), k ∉ draft.nodeIds ∧ k ≠ n.id := by
        intro k hm
        have := hfree k hm
        simpa [Draft.nodeIds, NodeDecl.form] using this
      refine ⟨List.forall_mem_cons.2 ⟨hn, hns⟩, ⟨List.nodup_cons.2 ⟨?_, hnodup⟩, ?_⟩, by simp⟩
      · exact fun hm => (hfree' n.id hm).2 rfl
      · exact List.forall_mem_cons.2 ⟨hk, fun k hm => (hfree' k hm).1⟩
    · rintro ⟨hns, ⟨hnodup, hfree⟩, rfl⟩
      obtain ⟨hn, hns⟩ := List.forall_mem_cons.1 hns
      obtain ⟨hk, hfree⟩ := List.forall_mem_cons.1 hfree
      obtain ⟨hm, hnodup⟩ := List.nodup_cons.1 hnodup
      refine ⟨_, ⟨hn, hk, rfl⟩, hns, ⟨hnodup, fun k hk' => ?_⟩, by simp⟩
      have hne : k ≠ n.id := by
        rintro rfl
        exact hm hk'
      simpa [Draft.nodeIds, NodeDecl.form, hne] using hfree k hk'

theorem addTransition_eq {t : TransitionDecl} (hfits : t.Fits) :
    addTransition draft t = Decl.inGraph (draft.addTransition t.form) := by
  have hc : t.compile = .ok t.form := TransitionDecl.compile_ok_iff.2 ⟨hfits, rfl⟩
  rw [addTransition, hc]
  rfl

theorem addTransition_ok_iff {t : TransitionDecl} :
    addTransition draft t = .ok draft' ↔
      t.Fits ∧ t.effectiveId ∉ draft.transitionIds ∧
        (t.source ∈ draft.nodeIds ∧ t.target ∈ draft.nodeIds) ∧
        draft' = { draft with transitions := draft.transitions ++ [t.form] } := by
  simp only [addTransition, Except.bind_ok_iff, TransitionDecl.compile_ok_iff, inGraph_ok_iff,
    Draft.addTransition_ok_iff]
  constructor
  · rintro ⟨u, ⟨hf, rfl⟩, h⟩
    exact ⟨hf, h⟩
  · rintro ⟨hf, h⟩
    exact ⟨_, ⟨hf, rfl⟩, h⟩

end Declaration

end Flowgraph
