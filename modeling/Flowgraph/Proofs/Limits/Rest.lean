import Flowgraph.Proofs.Limits.Cuts

namespace Flowgraph

variable {ω : Type}

def Invoker.PureGuards (inv : Invoker ω) : Prop :=
  ∃ answer : String → Site → Except InvokerError Bool,
    ∀ e site s, inv.guard e site s = (answer e site, s)

namespace Invoker

variable {inv inv' : Invoker ω} {site : Site} {gate : Gate}

theorem PureGuards.opens (h : inv.PureGuards) (t : Transition) (site : Site) :
    ∃ a, ∀ s, inv.opens t site s = (a, s) := by
  obtain ⟨answer, hanswer⟩ := h
  cases hg : t.guard with
  | none => exact ⟨.ok true, fun s => by simp only [Invoker.opens, hg]⟩
  | some e =>
    cases ha : answer e site with
    | error c =>
      exact ⟨.error (.guard t.id e c), fun s => by simp only [Invoker.opens, hg, hanswer, ha]⟩
    | ok b => exact ⟨.ok b, fun s => by simp only [Invoker.opens, hg, hanswer, ha]⟩

theorem PureGuards.choose (h : inv.PureGuards) (gate : Gate) (site : Site) (ts : List Transition) :
    ∃ a, ∀ s, inv.choose gate site ts s = (a, s) := by
  induction ts with
  | nil => exact ⟨.ok [], fun s => rfl⟩
  | cons t ts ih =>
    obtain ⟨b, hb⟩ := h.opens t site
    obtain ⟨a, ha⟩ := ih
    rcases b with e | b
    · exact ⟨.error e, fun s => by rw [Invoker.choose, hb]⟩
    cases b with
    | false => exact ⟨a, fun s => by rw [Invoker.choose, hb]; exact ha s⟩
    | true =>
      cases gate with
      | or => exact ⟨.ok [t], fun s => by rw [Invoker.choose, hb]⟩
      | and =>
        rcases a with e | l
        · exact ⟨.error e, fun s => by simp only [Invoker.choose, hb, ha]⟩
        · exact ⟨.ok (t :: l), fun s => by simp only [Invoker.choose, hb, ha]⟩

theorem choose_congr (h : inv'.guard = inv.guard) (gate : Gate) (site : Site)
    (ts : List Transition) (s : ω) : inv'.choose gate site ts s = inv.choose gate site ts s := by
  have hopens : ∀ t s, inv'.opens t site s = inv.opens t site s := fun t s => by
    rw [Invoker.opens, Invoker.opens, h]
  induction ts generalizing s with
  | nil => rfl
  | cons t ts ih => simp only [Invoker.choose, hopens, ih]

end Invoker

namespace Workflow

variable {w : Workflow} {inv inv' : Invoker ω} {site : Site} {options : Options}
  {now : Moment} {p q : Progress ω} {i j : Instance} {s s' : ω} {actor : Option String}
  {record : Bool} {n : NodeId} {ns : List NodeId}

theorem splitAll_nil (hinv : inv.PureGuards) (h : w.splitAll inv site ns s = (.ok [], s')) :
    ∀ n ∈ ns, ∃ x, w.node? n = some x ∧ ∀ s, w.split inv (site.atNode n) x s = (.ok [], s) := by
  induction ns generalizing s with
  | nil => simp
  | cons n ns ih =>
    rw [splitAll] at h
    rcases hx : w.requireNode n with e | x <;> simp only [hx] at h
    · cases h
    rcases hl : w.split inv (site.atNode n) x s with ⟨e | l, s₁⟩ <;> simp only [hl] at h
    · cases h
    rcases hm : w.splitAll inv site ns s₁ with ⟨e | more, s₂⟩ <;> simp only [hm] at h
    · cases h
    obtain ⟨⟨hl', hm'⟩, hs⟩ : (l = [] ∧ more = []) ∧ s₂ = s' := by simpa using h
    subst hl' hm' hs
    refine List.forall_mem_cons.2 ⟨⟨x, requireNode_ok hx, fun s₀ => ?_⟩, ih hm⟩
    rw [split] at hl ⊢
    split
    · rfl
    case isFalse hfinish =>
      rw [if_neg hfinish] at hl
      obtain ⟨a, ha⟩ := hinv.choose x.split (site.atNode n) (w.outgoing x.id)
      rw [ha] at hl ⊢
      cases hl
      rfl

theorem splitAll_of_nil (h : ∀ n ∈ ns, ∃ x, w.node? n = some x ∧
    ∀ s, w.split inv (site.atNode n) x s = (.ok [], s)) (s : ω) :
    w.splitAll inv site ns s = (.ok [], s) := by
  induction ns with
  | nil => rfl
  | cons n ns ih =>
    obtain ⟨⟨x, hx, hsplit⟩, hns⟩ := List.forall_mem_cons.1 h
    have hrequire : w.requireNode n = .ok x := by simp only [requireNode, hx]
    simp only [splitAll, hrequire, hsplit, ih hns, List.append_nil]

inductive Rests (w : Workflow) (inv : Invoker ω) (site : Site) (q : Progress ω) : Prop
  | completed (status : q.current.status = .completed) (pending : q.current.pending = .empty)
      (ends : q.current.onlyFinished w = true)
  | waiting {s : ω} (status : q.current.status = .waiting) (pending : q.current.pending = .empty)
      (open_ : q.current.onlyFinished w = false)
      (none : w.splitAll inv site q.current.active.keys s = (.ok [], q.world))

theorem sweep_rests (h : w.sweep inv site options now p = (.ok false, q)) :
    w.Rests inv site q := by
  obtain ⟨m, he, hsweeps⟩ := sweep_cases h
  have hpending : m.current.pending = .empty := by
    rw [enter_pending he rfl]
    rfl
  cases hsweeps with
  | finish ends => exact .completed rfl hpending ends
  | rest open_ split => exact .waiting rfl hpending open_ split

theorem pass_rests (h : w.pass inv site options now p = (.ok false, q)) :
    w.Rests inv site q := by
  rw [pass] at h
  split at h
  · cases h
  · exact sweep_rests h

theorem Runs.rests {k : Nat} {r : Except EngineError Unit × Progress ω}
    (h : w.Runs inv site options now k p r) (hr : r.1 = .ok ()) : w.Rests inv site r.2 := by
  induction h with
  | fails => cases hr
  | ends step => exact pass_rests step
  | goes _ _ ih => exact ih hr

theorem advance_rests
    (h : w.advance inv { recordHistory := record } now actor i s = (.ok r, j, s')) :
    r.status = j.status ∧ ∃ report, w.Rests inv (w.siteOf actor j) ⟨j, report, s'⟩ := by
  obtain ⟨m, -, hruns⟩ :=
    exists_runs_passes w inv (w.siteOf actor i) { recordHistory := record } now i s
  rcases hr : w.passes inv (w.siteOf actor i) { recordHistory := record } now (w.passBound i)
    ⟨i, {}, s⟩ with ⟨a, q⟩
  rw [hr] at hruns
  have hsite : w.siteOf actor j = w.siteOf actor i := siteOf_of_advance h
  rw [hruns.advance_eq] at h
  cases a with
  | error e => cases h
  | ok u =>
    cases h
    refine ⟨rfl, q.report, ?_⟩
    rw [hsite]
    exact hruns.rests rfl

end Workflow

theorem Instance.onlyFinished_iff {i : Instance} {w : Workflow} :
    i.onlyFinished w = true ↔
      (∃ n, i.isActive n = true) ∧ ∀ n, i.isActive n = true → w.isFinish n = true := by
  rw [onlyFinished, Bool.and_eq_true, Bool.not_eq_true', Keyed.isEmpty_eq_false_iff,
    List.all_eq_true]
  simp only [Keyed.mem_keys_iff, isActive]

namespace Workflow

variable {w : Workflow} {inv inv' : Invoker ω} {now : Moment} {i j : Instance} {s s' : ω}
  {actor : Option String} {record : Bool} {r : Report}

theorem split_congr (h : inv'.guard = inv.guard) (site : Site) (x : Node) (s : ω) :
    w.split inv' site x s = w.split inv site x s := by
  rw [split, split, Invoker.choose_congr h]

theorem advance_again {options : Options} (hlimit : options.maxPasses = none)
    (hwaiting : j.status = .waiting) (hpending : j.pending = .empty)
    (hopen : j.onlyFinished w = false)
    (hnone : w.splitAll inv (w.siteOf actor j) j.active.keys s = (.ok [], s)) :
    w.advance inv options now actor j s =
      (.ok { status := .waiting, passes := 1 }, { j with updated := now }, s) := by
  have hpass : w.pass inv (w.siteOf actor j) options now ⟨j, {}, s⟩ =
      (.ok false, ⟨{ j with updated := now }, { passes := 1 }, s⟩) := by
    have hkeys : j.pending.keys = [] := by rw [hpending]; rfl
    have hset : j.setWaiting now = { j with updated := now } := by
      rw [Instance.setWaiting, ← hwaiting]
    have hone : (0 : UInt32).next? = some 1 := rfl
    simp only [pass, hone, Progress.counting, sweep, hkeys, enter, hopen, hnone, hset]
    rfl
  have hpasses : w.passes inv (w.siteOf actor j) options now (w.passBound j) ⟨j, {}, s⟩ =
      (.ok (), ⟨{ j with updated := now }, { passes := 1 }, s⟩) := by
    rw [passBound, passes, hpass]
  have hbound : options.passLimit (w.passBound j) = w.passBound j := by
    rw [Options.passLimit, hlimit, Option.elim_none]
  rw [siteOf] at hpasses
  simp only [advance, hbound, hpasses, hwaiting]

theorem advance_quiescent (hinv : inv.PureGuards)
    (h : w.advance inv { recordHistory := record } now actor i s = (.ok r, j, s')) :
    r.status = j.status ∧
      (j.status = .completed ↔
        (∃ n, j.isActive n = true) ∧ ∀ n, j.isActive n = true → w.isFinish n = true) ∧
      (j.status ≠ .completed → j.status = .waiting) ∧ j.pending = .empty ∧
      (j.status = .waiting →
        (∀ n, j.isActive n = true → w.isFinish n = false → ∃ x, w.node? n = some x ∧
          ∀ s, w.split inv ((w.siteOf actor j).atNode n) x s = (.ok [], s)) ∧
        ∀ inv' : Invoker ω, inv'.guard = inv.guard → ∀ record now' s,
          w.advance inv' { recordHistory := record } now' actor j s =
            (.ok { status := .waiting, passes := 1 }, { j with updated := now' }, s)) := by
  obtain ⟨hstatus, report, hrests⟩ := advance_rests h
  rw [← Instance.onlyFinished_iff]
  cases hrests with
  | completed status pending ends =>
    have hdone : j.status = .completed := status
    refine ⟨hstatus, ⟨fun _ => ends, fun _ => hdone⟩, fun hne => absurd hdone hne, pending,
      fun hwaiting => ?_⟩
    rw [hdone] at hwaiting
    cases hwaiting
  | waiting status pending open_ none =>
    have hwaiting : j.status = .waiting := status
    have hopen : j.onlyFinished w = false := open_
    have hclosed := splitAll_nil hinv none
    refine ⟨hstatus, ⟨fun hdone => ?_, fun hends => ?_⟩, fun _ => hwaiting, pending,
      fun _ => ⟨fun n hn _ => hclosed n (Keyed.mem_keys_iff.2 hn), ?_⟩⟩
    · rw [hwaiting] at hdone
      cases hdone
    · rw [hopen] at hends
      cases hends
    · intro inv' hguard record' now' s₀
      refine advance_again rfl hwaiting pending hopen (splitAll_of_nil (fun n hn => ?_) s₀)
      obtain ⟨x, hx, hsplit⟩ := hclosed n hn
      refine ⟨x, hx, fun s => ?_⟩
      rw [split_congr hguard]
      exact hsplit s

def turnstileDraft : Draft where
  id := "turnstile"
  name := "Turnstile"
  model := "order"
  nodes := [
    { id := "a", name := "A", kind := .start, split := .and },
    { id := "b", name := "B", kind := .task, action := some "notify" },
    { id := "c", name := "C", kind := .finish, action := some "notify" },
    { id := "d", name := "D", kind := .finish, join := .and }]
  transitions := [
    { id := "ab", source := "a", target := "b" }, { id := "ac", source := "a", target := "c" },
    { id := "ad", source := "a", target := "d" },
    { id := "bd", source := "b", target := "d", guard := some "paid" }]

def turnstile : Workflow := turnstileDraft.build.toOption.get (by decide +kernel)

def refusing : Invoker Unit := { steady (.ok .null) with guard := fun _ _ s => (.ok false, s) }

def turnstileStart : Instance :=
  .start turnstile "1" ⟨"order", "7"⟩ diamondStart.created

def turnstileReading (r : Except EngineError Report × Instance × Unit) :
    Bool × Status × List NodeId × Bool :=
  (r.1.isOk, r.2.1.status, r.2.1.active.keys, r.2.1.hasArrived "d" "ad")

theorem advance_quiescent_turnstile :
    refusing.PureGuards ∧
      ∃ r j, turnstile.advance refusing {} diamondStart.created none turnstileStart () =
          (.ok r, j, ()) ∧
        j.status = .waiting ∧ j.active.keys = ["b", "c"] ∧ j.hasArrived "d" "ad" = true ∧
        j.pending = .empty ∧
        turnstile.advance refusing {} diamondStart.created none j () =
          (.ok { status := .waiting, passes := 1 },
            { j with updated := diamondStart.created }, ()) := by
  have hpure : refusing.PureGuards := ⟨fun _ _ => .ok false, fun _ _ _ => rfl⟩
  have hread : turnstileReading
      (turnstile.advance refusing {} diamondStart.created none turnstileStart ()) =
        (true, .waiting, ["b", "c"], true) := by cbv
  rcases hr : turnstile.advance refusing {} diamondStart.created none turnstileStart () with
    ⟨e | r, j, s⟩ <;> rw [hr] at hread
  · cases hread
  obtain ⟨-, hwaiting, hactive, harrived⟩ :
      (Except.ok r : Except EngineError Report).isOk = true ∧ j.status = .waiting ∧
        j.active.keys = ["b", "c"] ∧ j.hasArrived "d" "ad" = true := by
    simpa [turnstileReading] using hread
  obtain ⟨-, -, -, hpending, hrest⟩ := advance_quiescent hpure hr
  exact ⟨hpure, r, j, rfl, hwaiting, hactive, harrived, hpending,
    (hrest hwaiting).2 refusing rfl true _ _⟩

end Workflow

end Flowgraph
