import Flowgraph.Proofs.Instance.Changes
import Flowgraph.Proofs.Run.Passes

namespace Flowgraph

structure Handled where
  current : Instance
  snapshots : List Snapshot

inductive Operation : Type 1
  | activate (v : Workflow) (n : NodeId) (now : Moment)
  | deactivate (n : NodeId) (now : Moment)
  | markEntered (n : NodeId)
  | recordArrival (n : NodeId) (t : TransitionId)
  | clearArrivals (n : NodeId)
  | recordFiring (t : Transition) (now : Moment)
  | setRunning (now : Moment)
  | setWaiting (now : Moment)
  | complete (now : Moment)
  | fail (f : Failure)
  | snapshot
  | restore (k : Nat)
  | advance {ω : Type} (inv : Invoker ω) (options : Options) (now : Moment)
      (actor : Option String) (s : ω)

namespace Operation

def perform (w : Workflow) (h : Handled) : Operation → Except EngineError Unit × Handled
  | activate v n now =>
      match h.current.activate v n now with
      | (.error e, i) => (.error (.workflow e), { h with current := i })
      | (.ok _, i) => (.ok (), { h with current := i })
  | deactivate n now => (.ok (), { h with current := h.current.deactivate n now })
  | markEntered n => (.ok (), { h with current := h.current.markEntered n })
  | recordArrival n t => (.ok (), { h with current := h.current.recordArrival n t })
  | clearArrivals n => (.ok (), { h with current := h.current.clearArrivals n })
  | recordFiring t now => (.ok (), { h with current := h.current.recordFiring t now })
  | setRunning now => (.ok (), { h with current := h.current.setRunning now })
  | setWaiting now => (.ok (), { h with current := h.current.setWaiting now })
  | complete now => (.ok (), { h with current := h.current.complete now })
  | fail f => (.ok (), { h with current := h.current.fail f })
  | snapshot => (.ok (), { h with snapshots := h.snapshots ++ [h.current.snapshot] })
  | restore k =>
      match h.snapshots[k]? with
      | none => (.ok (), h)
      | some s => (.ok (), { h with current := h.current.restore s })
  | advance inv options now actor s =>
      match w.advance inv options now actor h.current s with
      | (r, i, _) => (r.map fun _ => (), { h with current := i })

def Distinct (w : Workflow) : Operation → Prop
  | activate v _ _ => v.id = w.id → v = w
  | _ => True

end Operation

namespace Handled

def start (w : Workflow) (id : InstanceId) (target : Target) (now : Moment) : Handled where
  current := .start w id target now
  snapshots := []

def run (w : Workflow) (h : Handled) (ops : List Operation) : Handled :=
  ops.foldl (fun h op => (op.perform w h).2) h

end Handled

structure Workflow.Within (w : Workflow) (known : NodeId → Prop) (limit : Nat) : Prop where
  nodes : ∀ {n}, w.contains n = true → known n
  visits : w.visitLimit.toNat ≤ limit

structure Tally (known : NodeId → Prop) (limit : Nat) (active pending : IdSet)
    (counts : Keyed NodeId UInt32) : Prop where
  known : ∀ {n}, active.contains n = true → known n
  pending : ∀ {n}, pending.contains n = true → active.contains n = true
  counted : ∀ {n}, active.contains n = true → counts.contains n = true
  bounds : ∀ {n c}, counts.get? n = some c → 1 ≤ c.toNat ∧ c.toNat ≤ limit

namespace Instance

structure Shaped (id : WorkflowId) (known : NodeId → Prop) (limit : Nat) (i : Instance) :
    Prop where
  workflow : i.workflow = id
  tally : Tally known limit i.active i.pending i.visitCounts
  numbered : ∀ {k : Nat} {f : Firing}, i.history[k]? = some f → f.sequence = k

variable {id : WorkflowId} {known : NodeId → Prop} {limit : Nat} {w v : Workflow}
  {i j : Instance} {n : NodeId} {now : Moment}

theorem activate_known {b : Bool} (h : i.activate v n now = (.ok b, j)) :
    i.workflow = v.id ∧ v.contains n = true := by
  have hspec := activate_spec i v n now
  rw [h] at hspec
  cases hspec with
  | stays owned known => exact ⟨owned, known⟩
  | enters owned known => exact ⟨owned, known⟩

theorem activate_shaped {b : Bool} (hv : v.id = id → v.Within known limit)
    (h : i.activate v n now = (.ok b, j)) (hi : i.Shaped id known limit) :
    j.Shaped id known limit := by
  obtain ⟨hid, hn⟩ := activate_known h
  obtain ⟨hnodes, hvisits⟩ := hv (hid.symm.trans hi.workflow)
  rcases activate_ok h with ⟨-, -, rfl⟩ | ⟨-, -, hlt, rfl⟩
  · exact hi
  refine ⟨hi.workflow, ⟨fun {m} hm => ?_, fun {m} hm => ?_, fun {m} hm => ?_, fun {m c} hc => ?_⟩,
    hi.numbered⟩
  · rw [entering, Keyed.contains_add, Bool.or_eq_true, decide_eq_true_iff] at hm
    rcases hm with rfl | hm
    · exact hnodes hn
    · exact hi.tally.known hm
  · rw [entering, Keyed.contains_add, Bool.or_eq_true, decide_eq_true_iff] at hm ⊢
    exact hm.imp_right hi.tally.pending
  · rw [entering, Keyed.contains_add, Bool.or_eq_true, decide_eq_true_iff] at hm
    rw [entering, Keyed.contains_insert, Bool.or_eq_true, decide_eq_true_iff]
    exact hm.imp_right hi.tally.counted
  · rw [entering, Keyed.get?_insert] at hc
    split at hc
    case isTrue e =>
      obtain rfl := Option.some.inj hc
      have hnext : ((i.entering n now).visits n).toNat =
          (i.visits n).toNat + if n = n then 1 else 0 := visits_entering hlt n
      rw [if_pos rfl, visits, entering, Keyed.get?_insert_self, Option.getD_some] at hnext
      omega
    case isFalse => exact hi.tally.bounds hc

theorem deactivate_shaped (hi : i.Shaped id known limit) :
    (i.deactivate n now).Shaped id known limit := by
  refine ⟨hi.workflow, ⟨fun {m} hm => ?_, fun {m} hm => ?_, fun {m} hm => ?_, hi.tally.bounds⟩,
    hi.numbered⟩
  · rw [deactivate, Keyed.contains_erase, Bool.and_eq_true] at hm
    exact hi.tally.known hm.2
  · rw [deactivate, Keyed.contains_erase, Bool.and_eq_true] at hm ⊢
    exact hm.imp_right hi.tally.pending
  · rw [deactivate, Keyed.contains_erase, Bool.and_eq_true] at hm
    exact hi.tally.counted hm.2

theorem markEntered_shaped (hi : i.Shaped id known limit) :
    (i.markEntered n).Shaped id known limit := by
  refine ⟨hi.workflow, ⟨hi.tally.known, fun {m} hm => ?_, hi.tally.counted, hi.tally.bounds⟩,
    hi.numbered⟩
  rw [markEntered, Keyed.contains_erase, Bool.and_eq_true] at hm
  exact hi.tally.pending hm.2

theorem recordFiring_shaped (t : Transition) (hi : i.Shaped id known limit) :
    (i.recordFiring t now).Shaped id known limit := by
  refine ⟨hi.workflow, hi.tally, fun {k f} hf => ?_⟩
  rw [recordFiring, List.getElem?_append] at hf
  split at hf
  · exact hi.numbered hf
  case isFalse hk =>
    rcases hl : k - i.history.length with _ | m
    · rw [hl, List.getElem?_cons_zero] at hf
      obtain rfl := Option.some.inj hf
      exact Nat.le_antisymm (Nat.not_lt.1 hk) (Nat.le_of_sub_eq_zero hl)
    · rw [hl] at hf
      cases hf

theorem restore_shaped {s : Snapshot} (hs : Tally known limit s.active s.pending s.visitCounts)
    (hi : i.Shaped id known limit) : (i.restore s).Shaped id known limit := by
  refine ⟨hi.workflow, hs, fun {k f} hf => ?_⟩
  rw [restore, List.getElem?_take] at hf
  split at hf
  · exact hi.numbered hf
  · cases hf

theorem Change.shaped (hw : w.Within known limit) (h : Change w i j)
    (hi : i.Shaped id known limit) : j.Shaped id known limit := by
  cases h with
  | activate enter => exact activate_shaped (fun _ => hw) enter hi
  | deactivate => exact deactivate_shaped hi
  | markEntered => exact markEntered_shaped hi
  | recordArrival => exact ⟨hi.workflow, hi.tally, hi.numbered⟩
  | clearArrivals => exact ⟨hi.workflow, hi.tally, hi.numbered⟩
  | recordFiring t => exact recordFiring_shaped t hi
  | setWaiting => exact ⟨hi.workflow, hi.tally, hi.numbered⟩
  | complete => exact ⟨hi.workflow, hi.tally, hi.numbered⟩

theorem start_shaped (target : Target) (hw : w.Within known limit) (k : InstanceId) :
    (start w k target now).Shaped w.id known limit := by
  have hroot : ∀ {n}, (start w k target now).active.contains n = true → n = w.root := by
    intro n hn
    rw [start, Keyed.contains_add, Bool.or_eq_true, decide_eq_true_iff] at hn
    rcases hn with rfl | hn
    · rfl
    · cases hn
  have hpos : 0 < w.visitLimit.toNat :=
    Nat.pos_of_ne_zero fun h0 => w.wellFormed.limit_pos (UInt32.toNat_inj.1 h0)
  have hvisits := hw.visits
  refine ⟨rfl, ⟨fun {n} hn => ?_, fun hn => hn, fun {n} hn => ?_, fun {n c} hc => ?_⟩, ?_⟩
  · rw [hroot hn]
    exact hw.nodes w.wellFormed.root_mem
  · rw [hroot hn, start, Keyed.contains_insert]
    simp
  · rw [start, Keyed.get?_insert] at hc
    split at hc
    case isTrue =>
      obtain rfl := Option.some.inj hc
      have hone : (1 : UInt32).toNat = 1 := rfl
      omega
    case isFalse => cases hc
  · intro k f hf
    cases hf

end Instance

structure Handled.Shaped (id : WorkflowId) (known : NodeId → Prop) (limit : Nat) (h : Handled) :
    Prop where
  current : h.current.Shaped id known limit
  snapshots : ∀ {s}, s ∈ h.snapshots → Tally known limit s.active s.pending s.visitCounts

namespace Operation

variable {w : Workflow} {known : NodeId → Prop} {limit : Nat} {h : Handled}

def Within (id : WorkflowId) (known : NodeId → Prop) (limit : Nat) : Operation → Prop
  | activate v _ _ => v.id = id → v.Within known limit
  | _ => True

theorem perform_shaped (hw : w.Within known limit) {op : Operation}
    (hop : op.Within w.id known limit) (hh : h.Shaped w.id known limit) :
    (op.perform w h).2.Shaped w.id known limit := by
  obtain ⟨hi, hs⟩ := hh
  have same : ∀ {j : Instance}, j.workflow = h.current.workflow → j.active = h.current.active →
      j.pending = h.current.pending → j.visitCounts = h.current.visitCounts →
      j.history = h.current.history → j.Shaped w.id known limit := by
    intro j h₁ h₂ h₃ h₄ h₅
    exact ⟨h₁.trans hi.workflow, by rw [h₂, h₃, h₄]; exact hi.tally, by rw [h₅]; exact hi.numbered⟩
  cases op with
  | activate v n now =>
    rw [perform]
    rcases Instance.activate_error_or_ok h.current v n now with ⟨e, ha⟩ | ⟨b, j, ha⟩ <;> rw [ha]
    · exact ⟨hi, hs⟩
    · exact ⟨Instance.activate_shaped hop ha hi, hs⟩
  | deactivate n now => exact ⟨Instance.deactivate_shaped hi, hs⟩
  | markEntered n => exact ⟨Instance.markEntered_shaped hi, hs⟩
  | recordArrival n t => exact ⟨same rfl rfl rfl rfl rfl, hs⟩
  | clearArrivals n => exact ⟨same rfl rfl rfl rfl rfl, hs⟩
  | recordFiring t now => exact ⟨Instance.recordFiring_shaped t hi, hs⟩
  | setRunning now => exact ⟨same rfl rfl rfl rfl rfl, hs⟩
  | setWaiting now => exact ⟨same rfl rfl rfl rfl rfl, hs⟩
  | complete now => exact ⟨same rfl rfl rfl rfl rfl, hs⟩
  | fail f => exact ⟨same rfl rfl rfl rfl rfl, hs⟩
  | snapshot =>
    refine ⟨hi, fun {s} hm => ?_⟩
    rcases List.mem_append.1 hm with hm | hm
    · exact hs hm
    · obtain rfl := List.mem_singleton.1 hm
      exact hi.tally
  | restore k =>
    rw [perform]
    rcases hk : h.snapshots[k]? with _ | s
    · exact ⟨hi, hs⟩
    · exact ⟨Instance.restore_shaped (hs (List.mem_of_getElem? hk)) hi, hs⟩
  | advance inv options now actor s =>
    have hchanges := (w.advance_changes inv options now actor h.current s).1
    exact ⟨hchanges.preserve (fun hstep hj => hstep.shaped hw hj) hi, hs⟩

theorem perform_shown {op : Operation} (hop : op.Distinct w) (hid : h.current.workflow = w.id)
    {e : EngineError} (he : (op.perform w h).1 = .error e)
    (hne : e ≠ .workflow (.overflow none)) : e.ShownBy w (op.perform w h).2.current := by
  cases op with
  | activate v n now =>
    rw [perform] at he ⊢
    rcases ha : h.current.activate v n now with ⟨e' | b, j⟩ <;> simp only [ha] at he <;> cases he
    by_cases hv : v.id = w.id
    · obtain rfl := hop hv
      exact Instance.activate_shown ha
    · rw [Instance.activate, if_pos (fun e => hv (e.symm.trans hid))] at ha
      cases ha
      exact trivial
  | restore k =>
    rw [perform] at he
    split at he <;> cases he
  | advance inv options now actor s =>
    refine (w.advance_changes inv options now actor h.current s).2 e ?_ hne
    rw [perform] at he
    rcases hr : w.advance inv options now actor h.current s with ⟨e' | r, i, s'⟩ <;>
      simp only [hr] at he <;> cases he
    rfl
  | _ => cases he

end Operation

namespace Handled

variable {w : Workflow} {known : NodeId → Prop} {limit : Nat}

theorem run_shaped (hw : w.Within known limit) {ops : List Operation}
    (hops : ∀ op ∈ ops, op.Within w.id known limit) {h : Handled}
    (hh : h.Shaped w.id known limit) : (h.run w ops).Shaped w.id known limit := by
  induction ops generalizing h with
  | nil => exact hh
  | cons op ops ih =>
    have hop := hops op List.mem_cons_self
    exact ih (fun o ho => hops o (List.mem_cons_of_mem _ ho)) (Operation.perform_shaped hw hop hh)

theorem run_start_shaped (hw : w.Within known limit) (id : InstanceId) (target : Target)
    (now : Moment) {ops : List Operation} (hops : ∀ op ∈ ops, op.Within w.id known limit) :
    ((start w id target now).run w ops).Shaped w.id known limit :=
  run_shaped hw hops ⟨Instance.start_shaped target hw id, fun hs => by cases hs⟩

variable (w) in
theorem within_own : w.Within (fun n => w.contains n = true) w.visitLimit.toNat :=
  ⟨fun hn => hn, Nat.le_refl _⟩

theorem within_any (w : Workflow) : w.Within (fun _ => True) UInt32.size :=
  ⟨fun _ => trivial, Nat.le_of_lt w.visitLimit.toNat_lt⟩

end Handled

theorem Operation.Distinct.within {w : Workflow} {op : Operation} (h : op.Distinct w) :
    op.Within w.id (fun n => w.contains n = true) w.visitLimit.toNat := by
  cases op with
  | activate v n now =>
    intro hid
    obtain rfl := h hid
    exact Handled.within_own v
  | _ => exact trivial

theorem Operation.within_any (op : Operation) (id : WorkflowId) :
    op.Within id (fun _ => True) UInt32.size := by
  cases op with
  | activate v n now => exact fun _ => Handled.within_any v
  | _ => exact trivial

theorem Handled.run_keeps_shape (w : Workflow) (id : InstanceId) (target : Target) (now : Moment)
    (ops : List Operation) :
    let h := (Handled.start w id target now).run w ops
    (∀ n, h.current.pending.contains n = true → h.current.isActive n = true) ∧
      (∀ n, h.current.isActive n = true → h.current.visitCounts.contains n = true) ∧
      (∀ n c, h.current.visitCounts.get? n = some c → 1 ≤ c) ∧
      (∀ (k : Nat) (f : Firing), h.current.history[k]? = some f → f.sequence = k) ∧
      (∀ v n now e, ((Operation.activate v n now).perform w h).1 = .error e →
        ((Operation.activate v n now).perform w h).2 = h) ∧
      ((∀ op ∈ ops, op.Distinct w) →
        (∀ n, h.current.isActive n = true → w.contains n = true) ∧
          (∀ n c, h.current.visitCounts.get? n = some c → c ≤ w.visitLimit) ∧
          ∀ op : Operation, op.Distinct w → ∀ n visits max,
            (op.perform w h).1 = .error (.workflow (.visitLimit n visits max)) →
              (op.perform w h).2.current.visits n = w.visitLimit ∧
                visits.toNat = w.visitLimit.toNat + 1 ∧ max = w.visitLimit) := by
  intro h
  have hany : h.Shaped w.id (fun _ => True) UInt32.size :=
    run_start_shaped (within_any w) id target now fun op _ => op.within_any w.id
  refine ⟨fun n => hany.current.tally.pending, fun n => hany.current.tally.counted,
    fun n c hc => UInt32.le_iff_toNat_le.2 (hany.current.tally.bounds hc).1,
    fun k f => hany.current.numbered, fun v n now e he => ?_, fun hops => ?_⟩
  · rw [Operation.perform] at he ⊢
    rcases ha : h.current.activate v n now with ⟨e' | b, j⟩
    · obtain rfl : j = h.current := by
        have hsame := Instance.activate_unchanged (congrArg Prod.fst ha)
        rwa [ha] at hsame
      rfl
    · rw [ha] at he
      cases he
  have hown : h.Shaped w.id (fun n => w.contains n = true) w.visitLimit.toNat :=
    run_start_shaped (within_own w) id target now fun op hop => (hops op hop).within
  refine ⟨fun n => hown.current.tally.known,
    fun n c hc => UInt32.le_iff_toNat_le.2 (hown.current.tally.bounds hc).2,
    fun op hop n visits max he => ?_⟩
  have hafter := Operation.perform_shaped (within_own w) hop.within hown
  have hcount : ((op.perform w h).2.current.visits n).toNat ≤ w.visitLimit.toNat := by
    rw [Instance.visits]
    cases hc : (op.perform w h).2.current.visitCounts.get? n with
    | none => exact Nat.zero_le _
    | some c => exact (hafter.current.tally.bounds hc).2
  obtain ⟨rfl, hvisits, hlt⟩ : max = w.visitLimit ∧ visits.toNat = _ ∧ max < visits :=
    Operation.perform_shown hop hown.current.workflow he nofun
  rw [UInt32.lt_iff_toNat_lt] at hlt
  exact ⟨UInt32.toNat_inj.1 (by omega), by omega, rfl⟩

namespace Handled

open Workflow (diamond diamondDraft diamondStart steady)

def namesakeDraft : Draft :=
  { diamondDraft with
    visitLimit := 2
    nodes := diamondDraft.nodes ++ [{ id := "e", name := "E", kind := .task }] }

def namesake : Workflow := namesakeDraft.build.toOption.get (by decide +kernel)

def stranger : Workflow :=
  { namesakeDraft with id := "pentagon" }.build.toOption.get (by decide +kernel)

def diamondHandled (ops : List Operation) : Handled :=
  (start diamond diamondStart.id diamondStart.target diamondStart.created).run diamond ops

def afterNamesake : Handled :=
  diamondHandled [.activate namesake "e" diamondStart.created, .deactivate "e" diamondStart.created,
    .activate namesake "e" diamondStart.created]

theorem namesake_breaks_shape :
    afterNamesake.current.isActive "e" = true ∧ diamond.contains "e" = false ∧
      afterNamesake.current.visits "e" = 2 ∧ diamond.visitLimit = 1 := by
  refine ⟨?_, ?_, ?_, ?_⟩ <;> decide +kernel

def diamondOps : List Operation :=
  [.snapshot, .activate stranger "e" diamondStart.created,
    .advance (steady (.ok .null)) {} diamondStart.created none (), .snapshot, .restore 0,
    .setRunning diamondStart.created, .restore 1]

theorem run_keeps_shape_diamond :
    (∀ op ∈ diamondOps, op.Distinct diamond) ∧
      (Operation.activate diamond "b" diamondStart.created).Distinct diamond ∧
      ((Operation.activate diamond "b" diamondStart.created).perform diamond
        (diamondHandled diamondOps)).1 = .error (.workflow (.visitLimit "b" 2 1)) ∧
      ((Operation.activate diamond "b" diamondStart.created).perform diamond
        (diamondHandled diamondOps)).2.current.visits "b" = diamond.visitLimit := by
  have hops : ∀ op ∈ diamondOps, op.Distinct diamond := by
    have hid : stranger.id ≠ diamond.id := by decide +kernel
    simp [diamondOps, Operation.Distinct, hid]
  have hop : (Operation.activate diamond "b" diamondStart.created).Distinct diamond := fun _ => rfl
  have he : ((Operation.activate diamond "b" diamondStart.created).perform diamond
      (diamondHandled diamondOps)).1 = .error (.workflow (.visitLimit "b" 2 1)) := by cbv
  obtain ⟨-, -, -, -, -, hkept⟩ := run_keeps_shape diamond diamondStart.id diamondStart.target
    diamondStart.created diamondOps
  exact ⟨hops, hop, he, ((hkept hops).2.2 _ hop "b" 2 1 he).1⟩

end Handled

end Flowgraph
