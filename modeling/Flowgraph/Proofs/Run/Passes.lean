import Flowgraph.Graph.Build
import Flowgraph.Proofs.Run.Effects
import Mathlib.Data.List.Permutation

namespace Flowgraph

variable {ω : Type} {w : Workflow} {inv : Invoker ω} {site : Site} {options : Options}
  {now : Moment} {s s' : ω}

theorem Invoker.choose_ok {gate : Gate} {ts l : List Transition}
    (h : inv.choose gate site ts s = (.ok l, s')) :
    l.Sublist ts ∧ (gate = .or → l.length ≤ 1) := by
  induction ts generalizing s s' l with
  | nil =>
    cases h
    exact ⟨.refl _, fun _ => by simp⟩
  | cons t ts ih =>
    rw [choose] at h
    rcases ho : inv.opens t site s with ⟨e | b, s₁⟩ <;> rw [ho] at h
    · cases h
    cases b with
    | false =>
      obtain ⟨hl, hg⟩ := ih h
      exact ⟨hl.cons t, hg⟩
    | true =>
      cases gate with
      | or =>
        cases h
        exact ⟨(List.nil_sublist ts).cons_cons t, fun _ => by simp⟩
      | and =>
        rcases hc : inv.choose .and site ts s₁ with ⟨e | more, s₂⟩ <;> simp only [hc] at h <;>
          cases h
        exact ⟨(ih hc).1.cons_cons t, fun hg => by cases hg⟩

namespace Workflow

structure Selects (w : Workflow) (ns : List NodeId) (taken : List Transition) : Prop where
  sublist : ∀ n, (taken.filter (·.source = n)).Sublist (w.outgoing n)
  source_mem : ∀ t ∈ taken, t.source ∈ ns
  not_finish : ∀ t ∈ taken, w.isFinish t.source = false
  single : ∀ n x, w.node? n = some x → x.split = .or →
    (taken.filter (·.source = n)).length ≤ 1

theorem Selects.transition {ns : List NodeId} {taken : List Transition} (h : w.Selects ns taken)
    {t : Transition} (ht : t ∈ taken) : w.transition? t.id = some t := by
  have hm : t ∈ taken.filter (·.source = t.source) := List.mem_filter.2 ⟨ht, by simp⟩
  exact (mem_outgoing_iff.1 ((h.sublist t.source).subset hm)).1

theorem filter_source_of_sublist {n m : NodeId} {l : List Transition}
    (h : l.Sublist (w.outgoing n)) :
    l.filter (·.source = m) = if n = m then l else [] := by
  split
  case isTrue e =>
    subst e
    exact List.filter_eq_self.2 fun t ht => by
      simp [(mem_outgoing_iff.1 (h.subset ht)).2]
  case isFalse e =>
    refine List.filter_eq_nil_iff.2 fun t ht hm => e ?_
    rw [← (mem_outgoing_iff.1 (h.subset ht)).2]
    exact of_decide_eq_true hm

theorem split_ok {n : NodeId} {x : Node} {l : List Transition} (hx : w.node? n = some x)
    (h : w.split inv site x s = (.ok l, s')) :
    l.Sublist (w.outgoing n) ∧ (w.isFinish n = true → l = []) ∧
      (x.split = .or → l.length ≤ 1) := by
  have hf : w.isFinish n = x.isFinish := by simp [isFinish, hx]
  rw [split, node_id hx] at h
  rw [hf]
  split at h
  case isTrue hfin =>
    cases h
    exact ⟨List.nil_sublist _, fun _ => rfl, fun _ => by simp⟩
  case isFalse hfin =>
    obtain ⟨hl, hg⟩ := Invoker.choose_ok h
    exact ⟨hl, fun hc => absurd hc hfin, hg⟩

theorem splitAll_ok {ns : List NodeId} {taken : List Transition} (hns : ns.Nodup)
    (h : w.splitAll inv site ns s = (.ok taken, s')) : w.Selects ns taken := by
  induction ns generalizing s s' taken with
  | nil =>
    cases h
    exact ⟨fun n => List.nil_sublist _, by simp, by simp, by simp⟩
  | cons n ns ih =>
    obtain ⟨hn, hns'⟩ := List.nodup_cons.1 hns
    rw [splitAll] at h
    rcases hx : w.requireNode n with e | x
    · simp [hx] at h
    have hnode := requireNode_ok hx
    rcases hl : w.split inv (site.atNode n) x s with ⟨e | l, s₁⟩ <;> simp only [hx, hl] at h
    · cases h
    rcases hm : w.splitAll inv site ns s₁ with ⟨e | more, s₂⟩ <;> simp only [hm] at h <;> cases h
    obtain ⟨hsub, hfin, hsingle⟩ := split_ok hnode hl
    have hmore := ih hns' hm
    have hsource : ∀ t ∈ l, t.source = n := fun t ht => (mem_outgoing_iff.1 (hsub.subset ht)).2
    have hnone : more.filter (·.source = n) = [] :=
      List.filter_eq_nil_iff.2 fun t ht hs => hn (of_decide_eq_true hs ▸ hmore.source_mem t ht)
    constructor
    · intro m
      rw [List.filter_append, filter_source_of_sublist hsub]
      split
      case isTrue e =>
        subst e
        rw [hnone, List.append_nil]
        exact hsub
      case isFalse e => exact hmore.sublist m
    · intro t ht
      rcases List.mem_append.1 ht with ht | ht
      · exact hsource t ht ▸ List.mem_cons_self
      · exact List.mem_cons_of_mem _ (hmore.source_mem t ht)
    · intro t ht
      rcases List.mem_append.1 ht with ht | ht
      · rw [hsource t ht]
        refine Bool.eq_false_iff.2 fun hf => ?_
        rw [hfin hf] at ht
        cases ht
      · exact hmore.not_finish t ht
    · intro m y hy hor
      rw [List.filter_append, filter_source_of_sublist hsub]
      split
      case isTrue e =>
        subst e
        rw [hnode] at hy
        cases hy
        rw [hnone, List.append_nil]
        exact hsingle hor
      case isFalse e => exact hmore.single m y hy hor

end Workflow

def Instance.entered (i : Instance) : Instance := { i with pending := .empty }

namespace Workflow

theorem enter_ok {ns : List NodeId} {p q : Progress ω}
    (h : w.enter inv site ns p = (.ok (), q)) :
    q.current = { p.current with pending := q.current.pending } ∧
      (∀ n, q.current.pending.contains n = (p.current.pending.contains n && !ns.contains n)) ∧
      q.report.fired = p.report.fired ∧ q.report.activated = p.report.activated := by
  induction ns generalizing p with
  | nil =>
    cases h
    exact ⟨rfl, by simp, rfl, rfl⟩
  | cons n ns ih =>
    have hpend : ∀ m, (p.current.markEntered n).pending.contains m =
        (p.current.pending.contains m && !decide (n = m)) := by
      intro m
      rw [Instance.markEntered, Keyed.contains_erase, Bool.and_comm]
    have step : ∀ p₁ : Progress ω, p₁.current = p.current.markEntered n →
        p₁.report.fired = p.report.fired → p₁.report.activated = p.report.activated →
        w.enter inv site ns p₁ = (.ok (), q) →
        q.current = { p.current with pending := q.current.pending } ∧
          (∀ m, q.current.pending.contains m =
            (p.current.pending.contains m && !(n :: ns).contains m)) ∧
          q.report.fired = p.report.fired ∧ q.report.activated = p.report.activated := by
      intro p₁ hc hf ha hq
      obtain ⟨h₁, h₂, h₃, h₄⟩ := ih hq
      rw [hc] at h₁
      refine ⟨h₁, fun m => ?_, h₃.trans hf, h₄.trans ha⟩
      rw [h₂, hc, hpend]
      by_cases e : n = m
      · simp [e]
      · have e' : m ≠ n := fun h => e h.symm
        simp [e, e']
    rw [enter] at h
    rcases hx : w.requireNode n with e | x
    · simp [hx] at h
    rcases hk : x.action with _ | key <;> simp only [hx, hk] at h
    · refine step _ ?_ ?_ ?_ h <;> rfl
    rcases hr : inv.action key (site.atNode n) p.world with ⟨c | v, s₁⟩ <;> simp only [hr] at h
    · cases h
    · refine step _ ?_ ?_ ?_ h <;> rfl

theorem enter_pending {ns : List NodeId} {p q : Progress ω}
    (h : w.enter inv site ns p = (.ok (), q)) (hns : ns = p.current.pending.keys) :
    q.current = p.current.entered := by
  subst hns
  obtain ⟨hq, hp, -, -⟩ := enter_ok h
  have hempty : q.current.pending = .empty := by
    refine Keyed.ext fun n => ?_
    have hn : q.current.pending.contains n = false := by
      rw [hp]
      cases hc : p.current.pending.contains n with
      | false => rfl
      | true => simp [Keyed.mem_keys_iff.2 hc]
    exact Option.isSome_eq_false_iff.1 hn |> Option.isNone_iff_eq_none.1
  rw [hq, hempty]
  rfl

inductive Move (w : Workflow) (record : Bool) (now : Moment) (i : Instance) :
    List Transition → List NodeId → Instance → Prop
  | finish (ends : i.onlyFinished w = true) : Move w record now i [] [] (i.entered.complete now)
  | rest (open_ : i.onlyFinished w = false) : Move w record now i [] [] (i.entered.setWaiting now)
  | fire {taken : List Transition} {ns : List NodeId} {j : Instance}
      (open_ : i.onlyFinished w = false) (selects : w.Selects i.active.keys taken)
      (some : taken ≠ [])
      (arrive : (i.entered.depart record now taken).arriveAll w now taken = (.ok ns, j)) :
      Move w record now i taken ns j

inductive Sweeps (w : Workflow) (inv : Invoker ω) (site : Site) (options : Options) (now : Moment)
    (m : Progress ω) : Bool → Progress ω → Prop
  | finish (ends : m.current.onlyFinished w = true) :
      Sweeps w inv site options now m false { m with current := m.current.complete now }
  | rest {s : ω} (open_ : m.current.onlyFinished w = false)
      (split : w.splitAll inv site m.current.active.keys m.world = (.ok [], s)) :
      Sweeps w inv site options now m false
        { m with current := m.current.setWaiting now, world := s }
  | fire {taken : List Transition} {s : ω} {q : Progress ω}
      (open_ : m.current.onlyFinished w = false)
      (split : w.splitAll inv site m.current.active.keys m.world = (.ok taken, s))
      (some : taken ≠ [])
      (fires : w.fire options now taken { m with world := s } = (.ok (), q)) :
      Sweeps w inv site options now m true q

theorem sweep_cases {p q : Progress ω} {b : Bool}
    (h : w.sweep inv site options now p = (.ok b, q)) :
    ∃ m, w.enter inv site p.current.pending.keys p = (.ok (), m) ∧
      w.Sweeps inv site options now m b q := by
  rw [sweep] at h
  rcases he : w.enter inv site p.current.pending.keys p with ⟨e | _, m⟩ <;> simp only [he] at h
  · cases h
  refine ⟨m, rfl, ?_⟩
  split at h
  case isTrue ho =>
    cases h
    exact .finish ho
  case isFalse ho =>
    have hopen := Bool.eq_false_iff.2 ho
    rcases hs : w.splitAll inv site m.current.active.keys m.world with ⟨e | taken, s⟩ <;>
      simp only [hs] at h
    · cases h
    rcases taken with _ | ⟨t, ts⟩
    · cases h
      exact .rest hopen hs
    rcases hr : w.fire options now (t :: ts) { m with world := s } with ⟨e | _, m'⟩ <;>
      simp only [hr] at h <;> cases h
    exact .fire hopen hs (List.cons_ne_nil t ts) hr

theorem fire_ok {taken : List Transition} {p q : Progress ω}
    (h : w.fire options now taken p = (.ok (), q)) :
    ∃ ns, (p.current.depart options.recordHistory now taken).arriveAll w now taken =
        (.ok ns, q.current) ∧
      q.report.fired = p.report.fired ++ taken.map (·.id) ∧
      q.report.activated = p.report.activated ++ ns := by
  rw [fire] at h
  rcases ha : (p.current.depart options.recordHistory now taken).arriveAll w now taken with
    ⟨e | ns, j⟩ <;> simp only [ha] at h <;> cases h
  exact ⟨ns, rfl, rfl, rfl⟩

theorem sweep_ok {p q : Progress ω} {b : Bool}
    (h : w.sweep inv site options now p = (.ok b, q)) :
    ∃ taken ns, w.Move options.recordHistory now p.current taken ns q.current ∧
      b = !taken.isEmpty ∧ q.report.fired = p.report.fired ++ taken.map (·.id) ∧
      q.report.activated = p.report.activated ++ ns := by
  obtain ⟨m, he, hsweeps⟩ := sweep_cases h
  obtain ⟨-, -, hf, ha⟩ := enter_ok he
  obtain ⟨current, report, world⟩ := m
  obtain rfl : current = p.current.entered := (enter_pending he rfl :)
  cases hsweeps with
  | finish ends => exact ⟨[], [], .finish ends, rfl, by simpa using hf, by simpa using ha⟩
  | rest open_ => exact ⟨[], [], .rest open_, rfl, by simpa using hf, by simpa using ha⟩
  | @fire taken s q open_ split some fires =>
    obtain ⟨ns, harrive, hfired, hactivated⟩ := fire_ok fires
    refine ⟨taken, ns, .fire open_ (splitAll_ok (Keyed.nodup_keys _) split) some harrive, ?_,
      by rw [hfired, hf], by rw [hactivated, ha]⟩
    cases taken with
    | nil => exact absurd rfl some
    | cons t ts => rfl

theorem pass_ok {p q : Progress ω} {b : Bool}
    (h : w.pass inv site options now p = (.ok b, q)) :
    ∃ taken ns, w.Move options.recordHistory now p.current taken ns q.current ∧
      b = !taken.isEmpty ∧ q.report.fired = p.report.fired ++ taken.map (·.id) ∧
      q.report.activated = p.report.activated ++ ns := by
  rw [pass] at h
  split at h
  · cases h
  case h_2 k _ => exact (sweep_ok h :)

inductive Reaches (w : Workflow) (allow : Options → Prop) (i : Instance) : Instance → Prop
  | refl : Reaches w allow i i
  | pass {ω : Type} {inv : Invoker ω} {site : Site} {options : Options} {now : Moment}
      {p q : Progress ω} {b : Bool} (before : Reaches w allow i p.current) (ok : allow options)
      (step : w.pass inv site options now p = (.ok b, q)) : Reaches w allow i q.current
  | stop {j : Instance} (now : Moment) (before : Reaches w allow i j) :
      Reaches w allow i (j.setWaiting now)

namespace Reaches

variable {allow : Options → Prop} {i j : Instance}

theorem of_passes (ho : allow options) {k : Nat} {p q : Progress ω}
    (hp : w.Reaches allow i p.current)
    (h : w.passes inv site options now k p = (.ok (), q)) : w.Reaches allow i q.current := by
  induction k generalizing p with
  | zero =>
    cases h
    exact .stop now hp
  | succ k ih =>
    rw [passes] at h
    rcases hr : w.pass inv site options now p with ⟨e | b, p₁⟩ <;> rw [hr] at h
    · cases h
    have hp₁ : w.Reaches allow i p₁.current := .pass hp ho hr
    cases b with
    | false =>
      cases h
      exact hp₁
    | true => exact ih hp₁ h

theorem of_advance (ho : allow options) {actor : Option String} {r : Report}
    (h : w.advance inv options now actor i s = (.ok r, j, s')) : w.Reaches allow i j := by
  rw [advance] at h
  simp only at h
  split at h
  · cases h
  case h_2 q hq =>
    cases h
    exact of_passes ho .refl hq

end Reaches

def diamondDraft : Draft where
  id := "diamond"
  name := "Diamond"
  model := "order"
  nodes := [
    { id := "a", name := "A", kind := .start, split := .and },
    { id := "b", name := "B", kind := .task, action := some "notify" },
    { id := "c", name := "C", kind := .task },
    { id := "d", name := "D", kind := .finish, join := .and }]
  transitions := [
    { id := "ab", source := "a", target := "b" }, { id := "ac", source := "a", target := "c" },
    { id := "bd", source := "b", target := "d" }, { id := "cd", source := "c", target := "d" }]

def diamond : Workflow := diamondDraft.build.toOption.get (by decide +kernel)

def diamondStart : Instance :=
  .start diamond "1" ⟨"order", "7"⟩ ⟨2024, 1, 1, 0, 0, 0, 0, by decide⟩

def steady (answer : Except InvokerError Json) : Invoker Unit where
  guard _ _ s := (.ok true, s)
  action _ _ s := (answer, s)
  apply _ _ s := s

def diamondEnd : Instance :=
  (diamond.advance (steady (.ok .null)) {} diamondStart.created none diamondStart ()).2.1

theorem diamond_reaches :
    diamond.Reaches (fun o => o.recordHistory = true) diamondStart diamondEnd := by
  have hok : (diamond.advance (steady (.ok .null)) {} diamondStart.created none
      diamondStart ()).1.isOk = true := by cbv
  rcases hr : diamond.advance (steady (.ok .null)) {} diamondStart.created none diamondStart () with
    ⟨e | r, j, s⟩
  · rw [hr] at hok
    cases hok
  · rw [diamondEnd, hr]
    exact .of_advance rfl hr

end Workflow

end Flowgraph
