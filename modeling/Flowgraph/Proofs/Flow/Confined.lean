import Flowgraph.Proofs.Flow.Acyclic
import Flowgraph.Proofs.Graph.Searches
import Flowgraph.Proofs.Instance.Shape

namespace Flowgraph

namespace Keyed

variable {κ α : Type} [Key κ] [DecidableEq κ] {m : Keyed κ α} {k : κ} {a : α} {P : κ → Prop}

theorem forall_insert (hk : P k) (h : ∀ {l}, m.contains l = true → P l) {l : κ}
    (hl : (m.insert k a).contains l = true) : P l := by
  rw [contains_insert, Bool.or_eq_true, decide_eq_true_iff] at hl
  rcases hl with rfl | hl
  · exact hk
  · exact h hl

theorem forall_erase (h : ∀ {l}, m.contains l = true → P l) {l : κ}
    (hl : (m.erase k).contains l = true) : P l := by
  rw [contains_erase, Bool.and_eq_true] at hl
  exact h hl.2

end Keyed

variable {w : Workflow} {P : NodeId → Prop} {now : Moment}

namespace Instance

variable {i j : Instance} {n : NodeId} {t : Transition}

structure Confined (P : NodeId → Prop) (i : Instance) : Prop where
  active : ∀ {n}, i.active.contains n = true → P n
  counted : ∀ {n}, i.visitCounts.contains n = true → P n
  waiting : ∀ {n}, i.arrivals.contains n = true → P n

namespace Confined

theorem start (w : Workflow) (id : InstanceId) (target : Target) (now : Moment) (hP : P w.root) :
    (Instance.start w id target now).Confined P where
  active := Keyed.forall_insert hP fun hn => by cases hn
  counted := Keyed.forall_insert hP fun hn => by cases hn
  waiting hn := by cases hn

theorem congr (h : i.Confined P) (hactive : j.active = i.active)
    (hvisits : j.visitCounts = i.visitCounts) (harrivals : j.arrivals = i.arrivals) :
    j.Confined P :=
  ⟨fun hn => h.active (hactive ▸ hn), fun hn => h.counted (hvisits ▸ hn),
    fun hn => h.waiting (harrivals ▸ hn)⟩

theorem activate (h : i.Confined P) (w : Workflow) (now : Moment) (hn : P n) :
    (i.activate w n now).2.Confined P := by
  rcases activate_error_or_ok i w n now with ⟨e, ha⟩ | ⟨b, j, ha⟩ <;> rw [ha]
  · exact h
  rcases activate_ok ha with ⟨-, -, rfl⟩ | ⟨-, -, -, rfl⟩
  · exact h
  · exact ⟨Keyed.forall_insert hn h.active, Keyed.forall_insert hn h.counted, h.waiting⟩

theorem recordArrival (h : i.Confined P) (hn : P n) (u : TransitionId) :
    (i.recordArrival n u).Confined P :=
  ⟨h.active, h.counted, Keyed.forall_insert hn h.waiting⟩

theorem clearArrivals (h : i.Confined P) (n : NodeId) : (i.clearArrivals n).Confined P :=
  ⟨h.active, h.counted, Keyed.forall_erase h.waiting⟩

theorem deactivate (h : i.Confined P) (n : NodeId) (now : Moment) :
    (i.deactivate n now).Confined P :=
  ⟨Keyed.forall_erase h.active, h.counted, h.waiting⟩

theorem depart (h : i.Confined P) (record : Bool) (now : Moment) (ts : List Transition) :
    (i.depart record now ts).Confined P := by
  induction ts generalizing i with
  | nil => exact h
  | cons t ts ih =>
    have hleft := h.deactivate t.source now
    cases record with
    | false => exact ih hleft
    | true => exact ih (hleft.congr rfl rfl rfl)

theorem arrive (h : i.Confined P) (w : Workflow) (now : Moment) (ht : P t.target) :
    (i.arrive w now t).2.Confined P := by
  rw [Instance.arrive]
  rcases hx : w.requireNode t.target with e | x
  · exact h
  have hid := Workflow.node_id (Workflow.requireNode_ok hx)
  cases hg : x.join with
  | or =>
    simp only [hg, hid]
    split
    · exact h.activate w now ht
    · exact h
  | and =>
    have hrec := h.recordArrival ht t.id
    simp only [hg, hid]
    split
    · exact (hrec.clearArrivals t.target).activate w now ht
    · exact hrec

theorem arriveAll (h : i.Confined P) (w : Workflow) (now : Moment) {ts : List Transition}
    (hts : ∀ t ∈ ts, P t.target) : (i.arriveAll w now ts).2.Confined P := by
  induction ts generalizing i with
  | nil => exact h
  | cons t ts ih =>
    have harrive := h.arrive w now (hts t List.mem_cons_self)
    rw [Instance.arriveAll]
    rcases ht : i.arrive w now t with ⟨e | b, k⟩ <;> rw [ht] at harrive
    · exact harrive
    have hrest := ih harrive fun u hu => hts u (List.mem_cons_of_mem _ hu)
    simp only
    rcases hr : k.arriveAll w now ts with ⟨e | ns, m⟩ <;> rw [hr] at hrest <;> exact hrest

end Confined

end Instance

namespace Workflow

variable {ω : Type} {p : Progress ω} {i : Instance} {F : List TransitionId}

def Closed (w : Workflow) (P : NodeId → Prop) : Prop := ∀ {m n}, w.Follows m n → P m → P n

theorem closed_path (w : Workflow) : w.Closed (w.Path w.root) := fun hstep hpath =>
  path_iff.2 ((path_iff.1 hpath).tail hstep)

section Advances

variable (inv : Invoker ω) (site : Site) (options : Options) (now : Moment)

theorem fire_confined (hP : w.Closed P) {taken : List Transition}
    (hsel : w.Selects p.current.active.keys taken) (h : p.current.Confined P) :
    (w.fire options now taken p).2.current.Confined P := by
  have htargets : ∀ t ∈ taken, P t.target := fun t ht =>
    hP ⟨t, hsel.transition ht, rfl, rfl⟩
      (h.active (Keyed.mem_keys_iff.1 (hsel.source_mem t ht)))
  have hfired := (h.depart options.recordHistory now taken).arriveAll w now htargets
  rw [fire]
  rcases hr : (p.current.depart options.recordHistory now taken).arriveAll w now taken with
    ⟨e | ns, j⟩ <;> rw [hr] at hfired <;> exact hfired

theorem pass_confined (hP : w.Closed P) (h : p.current.Confined P) :
    (w.pass inv site options now p).2.current.Confined P := by
  have hready := (w.ready_readies inv site p).current
  rw [pass_eq]
  rcases hr : w.ready inv site p with ⟨e | taken, q⟩ <;> rw [hr] at hready
  all_goals
    have hq : q.current.Confined P := by
      rw [show q.current = _ from hready]
      exact h.congr rfl rfl rfl
  · exact hq
  rcases taken with _ | ⟨t, ts⟩
  · rw [conclude]
    simp only
    split <;> exact hq.congr rfl rfl rfl
  · obtain ⟨hc, hsel⟩ := ready_ok hr
    have hactive : q.current.active = p.current.active := by rw [hc, Instance.entered]
    have hfired := fire_confined options now hP
      (hactive ▸ hsel.resolve_left (List.cons_ne_nil t ts)) hq
    rw [conclude]
    · rcases hf : w.fire options now (t :: ts) q with ⟨e | _, q'⟩ <;> rw [hf] at hfired <;>
        exact hfired
    · simp

theorem passes_confined (hP : w.Closed P) (k : Nat) (h : p.current.Confined P) :
    (w.passes inv site options now k p).2.current.Confined P := by
  induction k generalizing p with
  | zero => exact h.congr rfl rfl rfl
  | succ k ih =>
    have hpass := pass_confined inv site options now hP h
    rw [passes]
    rcases hr : w.pass inv site options now p with ⟨e | b, q⟩ <;> rw [hr] at hpass
    · exact hpass
    cases b with
    | false => exact hpass
    | true => exact ih hpass

theorem advance_confined (hP : w.Closed P) (actor : Option String) (s : ω) (h : i.Confined P) :
    (w.advance inv options now actor i s).2.1.Confined P := by
  have hend := passes_confined (p := ⟨i, {}, s⟩) inv (w.siteOf actor i) options now hP
    (options.passLimit (w.passBound i)) h
  rw [siteOf] at hend
  rw [advance]
  simp only
  split
  case h_1 hq => rwa [hq] at hend
  case h_2 hq => rwa [hq] at hend

end Advances

theorem Life.confined {a : Instance} (hP : w.Closed P) (ha : a.Confined P) (h : w.Life a F i) :
    i.Confined P := by
  induction h with
  | start => exact ha
  | advance before inv options now actor s ih =>
    exact advance_confined inv options now hP actor s ih

theorem Life.changes {a : Instance} (h : w.Life a F i) : a.Changes w i := by
  induction h with
  | start => exact .refl
  | advance before inv options now actor s ih =>
    exact ih.trans (advance_changes w inv options now actor _ s).1

theorem Life.pending_le {id : InstanceId} {target : Target}
    (h : w.Life (.start w id target now) F i) {n : NodeId} (hn : i.pending.contains n = true) :
    i.active.contains n = true := by
  have hshaped : (Instance.start w id target now).Shaped w.id _ _ :=
    Instance.start_shaped target (Handled.within_own w) id
  have hend := h.changes.preserve (fun hc => hc.shaped (Handled.within_own w)) hshaped
  exact hend.tally.pending hn

theorem out_of_reach (w : Workflow) :
    w.unreachable.Pairwise (· < ·) ∧
      (∀ n, n ∈ w.unreachable ↔
        w.contains n = true ∧ ¬ Relation.ReflTransGen w.Follows w.root n) ∧
      (w.searched.stack = [] ∧ w.unreachable = w.nodes.keys.filter (· ∉ w.searched.seen)) ∧
      ∀ {id : InstanceId} {target : Target} {now : Moment} {F : List TransitionId} {i : Instance},
        w.Life (.start w id target now) F i → ∀ n ∈ w.unreachable,
          i.isActive n = false ∧ i.pending.contains n = false ∧ i.visits n = 0 ∧
            i.visitCounts.contains n = false ∧ i.arrivals.contains n = false := by
  refine ⟨unreachable_ascending, fun n => ?_, ⟨stack_searched, unreachable_eq_unseen⟩, ?_⟩
  · rw [mem_unreachable_iff, path_iff]
  intro id target now F i h n hn
  have hstart := Instance.Confined.start w id target now (P := w.Path w.root) (.here w.root)
  have hi : i.Confined (w.Path w.root) := h.confined w.closed_path hstart
  have hout : ¬ w.Path w.root n := (mem_unreachable_iff.1 hn).2
  have hactive : i.active.contains n = false := Bool.eq_false_iff.2 fun hc => hout (hi.active hc)
  have hcount : i.visitCounts.contains n = false :=
    Bool.eq_false_iff.2 fun hc => hout (hi.counted hc)
  refine ⟨hactive, Bool.eq_false_iff.2 fun hc => ?_, ?_, hcount,
    Bool.eq_false_iff.2 fun hc => hout (hi.waiting hc)⟩
  · exact Bool.eq_false_iff.1 hactive (h.pending_le hc)
  · rw [Instance.visits, Option.isSome_eq_false_iff.1 hcount |> Option.isNone_iff_eq_none.1]
    rfl

def islandDraft : Draft where
  id := "island"
  name := "Island"
  model := "order"
  nodes := [
    { id := "a", name := "A", kind := .start }, { id := "b", name := "B", kind := .task },
    { id := "c", name := "C", kind := .task }, { id := "d", name := "D", kind := .task },
    { id := "e", name := "E", kind := .finish, join := .and }]
  transitions := [
    { id := "ab", source := "a", target := "b" }, { id := "be", source := "b", target := "e" },
    { id := "cd", source := "c", target := "d" }, { id := "dc", source := "d", target := "c" },
    { id := "de", source := "d", target := "e" }]

def island : Workflow := islandDraft.build.toOption.get (by decide +kernel)

def islandStart : Instance := .start island "1" ⟨"order", "7"⟩ diamondStart.created

def islandEnd : Instance :=
  (island.advance (steady (.ok .null)) {} islandStart.created none islandStart ()).2.1

theorem island_life : island.Life islandStart ["ab", "be"] islandEnd := by
  have hlife := Life.advance (w := island) (.start (i := islandStart)) (steady (.ok .null)) {}
    islandStart.created none ()
  have hfired : island.firings (steady (.ok .null)) {} islandStart.created none islandStart () =
      ["ab", "be"] := by cbv
  rw [hfired] at hlife
  exact hlife

theorem out_of_reach_island :
    island.unreachable = ["c", "d"] ∧ island.Life islandStart ["ab", "be"] islandEnd ∧
      islandEnd.arrivals.contains "e" = true ∧ islandEnd.arrivals.contains "d" = false := by
  have hout : island.unreachable = ["c", "d"] := by cbv
  have hd : "d" ∈ island.unreachable := by
    rw [hout]
    decide
  exact ⟨hout, island_life, by cbv, ((out_of_reach island).2.2.2 island_life "d" hd).2.2.2.2⟩

end Workflow

end Flowgraph
