import Flowgraph.Proofs.Run.Beside
import Flowgraph.Proofs.Run.Passes

namespace Flowgraph

variable {ω : Type}

structure ActionCall where
  key : String
  site : Site
deriving DecidableEq

namespace Invoker

def logged (inv : Invoker ω) : Invoker (ω × List ActionCall) where
  guard e site s := ((inv.guard e site s.1).1, (inv.guard e site s.1).2, s.2)
  action key site s :=
    ((inv.action key site s.1).1, (inv.action key site s.1).2, s.2 ++ [⟨key, site⟩])
  apply fields site s := (inv.apply fields site s.1, s.2)

theorem sameCalls_logged (inv : Invoker ω) : inv.SameCalls inv.logged fun s p => p.1 = s where
  guard e site s p hp := by
    subst hp
    exact .mk _ rfl
  action key site s p hp := by
    subst hp
    exact .mk _ rfl

theorem sameGuards_logged (inv : Invoker ω) (l : List ActionCall) :
    inv.SameGuards inv.logged fun s p => p = (s, l) where
  guard e site s p hp := by
    subst hp
    exact .mk _ rfl

end Invoker

def Progress.withLog (p : Progress ω) (l : List ActionCall) : Progress (ω × List ActionCall) :=
  ⟨p.current, p.report, p.world, l⟩

namespace Workflow

def entryCalls (w : Workflow) (site : Site) (ns : List NodeId) : List ActionCall :=
  ns.filterMap fun n => (w.node? n).bind fun x => x.action.map fun key => ⟨key, site.atNode n⟩

section Parts

variable (w : Workflow) (inv : Invoker ω) (site : Site) (options : Options) (now : Moment)

def prepare (p : Progress ω) : Except EngineError (List Transition) × Progress ω :=
  match w.enter inv site p.current.pending.keys p with
  | (.error e, p) => (.error e, p)
  | (.ok (), p) =>
      if p.current.onlyFinished w then (.ok [], p)
      else
        match w.splitAll inv site p.current.active.keys p.world with
        | (.error e, s) => (.error e, { p with world := s })
        | (.ok taken, s) => (.ok taken, { p with world := s })

def ready (p : Progress ω) : Except EngineError (List Transition) × Progress ω :=
  match p.report.passes.next? with
  | none => (.error (.workflow (.overflow none)), p)
  | some k => w.prepare inv site (p.counting k)

def conclude : Except EngineError (List Transition) × Progress ω →
    Except EngineError Bool × Progress ω
  | (.error e, p) => (.error e, p)
  | (.ok [], p) =>
      (.ok false, { p with
        current := if p.current.onlyFinished w then p.current.complete now
          else p.current.setWaiting now })
  | (.ok taken, p) =>
      match w.fire options now taken p with
      | (.error e, p) => (.error e, p)
      | (.ok (), p) => (.ok true, p)

theorem sweep_eq (p : Progress ω) :
    w.sweep inv site options now p = w.conclude options now (w.prepare inv site p) := by
  rw [sweep, prepare]
  rcases w.enter inv site p.current.pending.keys p with ⟨e | _, q⟩
  · rfl
  cases ho : q.current.onlyFinished w with
  | true => simp [ho, conclude]
  | false =>
    simp only [ho, Bool.false_eq_true, if_false]
    rcases w.splitAll inv site q.current.active.keys q.world with ⟨e | taken, s⟩
    · rfl
    rcases taken with _ | ⟨t, ts⟩
    · simp [ho, conclude]
    · rfl

theorem pass_eq (p : Progress ω) :
    w.pass inv site options now p = w.conclude options now (w.ready inv site p) := by
  rw [pass, ready]
  rcases p.report.passes.next? with _ | k
  · rfl
  · exact sweep_eq w inv site options now (p.counting k)

end Parts

variable {w : Workflow} {inv : Invoker ω} {site : Site} {options : Options} {now : Moment}

theorem prepare_ok {p m : Progress ω} {taken : List Transition}
    (h : w.prepare inv site p = (.ok taken, m)) :
    m.current = p.current.entered ∧ (taken = [] ∨ w.Selects p.current.active.keys taken) := by
  rw [prepare] at h
  rcases he : w.enter inv site p.current.pending.keys p with ⟨e | _, q⟩ <;> simp only [he] at h
  · cases h
  have hc : q.current = p.current.entered := (enter_pending he rfl :)
  split at h
  · cases h
    exact ⟨hc, .inl rfl⟩
  rcases hs : w.splitAll inv site q.current.active.keys q.world with ⟨e | ts, s⟩ <;>
    simp only [hs] at h <;> cases h
  rw [hc] at hs
  exact ⟨hc, .inr (splitAll_ok (Keyed.nodup_keys _) hs)⟩

theorem ready_ok {p m : Progress ω} {taken : List Transition}
    (h : w.ready inv site p = (.ok taken, m)) :
    m.current = p.current.entered ∧ (taken = [] ∨ w.Selects p.current.active.keys taken) := by
  rw [ready] at h
  split at h
  · cases h
  · exact (prepare_ok h :)

variable (w inv site options now) (l : List ActionCall)

theorem splitAll_logged (ns : List NodeId) (s : ω) :
    w.splitAll inv.logged site ns (s, l) =
      ((w.splitAll inv site ns s).1, (w.splitAll inv site ns s).2, l) :=
  ((inv.sameGuards_logged l).splitAll w site ns rfl).eq_image

theorem enter_logged (ns : List NodeId) (p : Progress ω) :
    ∃ l', w.enter inv.logged site ns (p.withLog l) =
        ((w.enter inv site ns p).1, (w.enter inv site ns p).2.withLog l') ∧
      ((w.enter inv site ns p).1 = .ok () → l' = l ++ w.entryCalls site ns) := by
  induction ns generalizing p l with
  | nil => exact ⟨l, rfl, fun _ => (List.append_nil l).symm⟩
  | cons n ns ih =>
    rw [enter, enter]
    rcases hx : w.requireNode n with e | x
    · exact ⟨l, rfl, fun h => by cases h⟩
    have hnode := requireNode_ok hx
    rcases hk : x.action with _ | key <;> simp only [hk]
    · obtain ⟨l', hl, hgrown⟩ := ih l { p with current := p.current.markEntered n }
      refine ⟨l', hl, fun h => ?_⟩
      rw [hgrown h, entryCalls, entryCalls, List.filterMap_cons, hnode]
      simp [hk]
    · simp only [Invoker.logged, Progress.withLog]
      rcases hr : inv.action key (site.atNode n) p.world with ⟨c | v, s⟩
      · exact ⟨_, rfl, fun h => by cases h⟩
      · obtain ⟨l', hl, hgrown⟩ := ih (l ++ [⟨key, site.atNode n⟩])
          { current := p.current.markEntered n
            report := { p.report with context := Json.merge p.report.context v }
            world := s }
        refine ⟨l', hl, fun h => ?_⟩
        rw [hgrown h, entryCalls, entryCalls, List.filterMap_cons, hnode]
        simp [hk]

theorem prepare_logged (p : Progress ω) :
    ∃ l', w.prepare inv.logged site (p.withLog l) =
        ((w.prepare inv site p).1, (w.prepare inv site p).2.withLog l') ∧
      ∀ taken, (w.prepare inv site p).1 = .ok taken →
        l' = l ++ w.entryCalls site p.current.pending.keys := by
  obtain ⟨l', hl, hgrown⟩ := w.enter_logged inv site l p.current.pending.keys p
  refine ⟨l', ?_⟩
  rw [prepare, prepare]
  simp only [Progress.withLog] at hl ⊢
  rw [hl]
  rcases hr : w.enter inv site p.current.pending.keys p with ⟨e | _, q⟩
  · exact ⟨rfl, fun taken h => by cases h⟩
  rw [hr] at hgrown
  simp only [splitAll_logged]
  split
  · exact ⟨rfl, fun _ _ => hgrown rfl⟩
  rcases w.splitAll inv site q.current.active.keys q.world with ⟨e | taken, s⟩
  · exact ⟨rfl, fun taken h => by cases h⟩
  · exact ⟨rfl, fun _ _ => hgrown rfl⟩

theorem ready_logged (p : Progress ω) :
    ∃ l', w.ready inv.logged site (p.withLog l) =
        ((w.ready inv site p).1, (w.ready inv site p).2.withLog l') ∧
      ∀ taken, (w.ready inv site p).1 = .ok taken →
        l' = l ++ w.entryCalls site p.current.pending.keys := by
  rw [ready, ready]
  simp only [Progress.withLog]
  split
  · exact ⟨l, rfl, fun taken h => by cases h⟩
  case h_2 k _ => exact w.prepare_logged inv site l (p.counting k)

def logAfter (actor : Option String) (i : Instance) (s : ω) : List ActionCall :=
  (w.advance inv.logged options now actor i (s, l)).2.2.2

theorem advance_logged (actor : Option String) (i : Instance) (s : ω) :
    w.advance inv.logged options now actor i (s, l) =
      ((w.advance inv options now actor i s).1, (w.advance inv options now actor i s).2.1,
        (w.advance inv options now actor i s).2.2, w.logAfter inv options now l actor i s) := by
  have hsame : Same (Same fun s p => p.1 = s) (w.advance inv options now actor i s)
      (w.advance inv.logged options now actor i (s, l)) :=
    inv.sameCalls_logged.advance w options now actor i rfl
  rw [logAfter]
  generalize w.advance inv options now actor i s = r at hsame ⊢
  generalize w.advance inv.logged options now actor i (s, l) = r' at hsame ⊢
  cases hsame with
  | mk a h =>
    cases h with
    | mk j hs =>
      subst hs
      rfl

end Workflow

end Flowgraph
