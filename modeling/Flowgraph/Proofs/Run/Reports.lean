import Flowgraph.Proofs.Flow.Counts
import Flowgraph.Proofs.Run.Untold

namespace Flowgraph

def firingsFrom (k : Nat) (now : Moment) : List Transition → List Firing
  | [] => []
  | t :: ts => ⟨k, t.id, t.source, t.target, now⟩ :: firingsFrom (k + 1) now ts

theorem firingsFrom_append (k : Nat) (now : Moment) (ts us : List Transition) :
    firingsFrom k now (ts ++ us) =
      firingsFrom k now ts ++ firingsFrom (k + ts.length) now us := by
  induction ts generalizing k with
  | nil => rfl
  | cons t ts ih =>
    have hnext : k + 1 + ts.length = k + (ts.length + 1) := by omega
    rw [List.cons_append, firingsFrom, ih, firingsFrom, List.length_cons, List.cons_append, hnext]

theorem length_firingsFrom (k : Nat) (now : Moment) (ts : List Transition) :
    (firingsFrom k now ts).length = ts.length := by
  induction ts generalizing k with
  | nil => rfl
  | cons t ts ih => rw [firingsFrom, List.length_cons, ih, List.length_cons]

namespace Instance

variable {i j : Instance} {w : Workflow} {now : Moment} {ts : List Transition} {ns : List NodeId}

theorem history_depart_recorded (i : Instance) (now : Moment) (ts : List Transition) :
    (i.depart true now ts).history = i.history ++ firingsFrom i.history.length now ts := by
  induction ts generalizing i with
  | nil => exact (List.append_nil i.history).symm
  | cons t ts ih =>
    have hone : ((i.deactivate t.source now).recordFiring t now).history =
        i.history ++ [⟨i.history.length, t.id, t.source, t.target, now⟩] := rfl
    rw [depart, if_pos rfl, ih, hone, List.length_append, List.append_assoc]
    rfl

theorem visits_activate {n : NodeId} {b : Bool} (h : i.activate w n now = (.ok b, j)) (m : NodeId) :
    (j.visits m).toNat = (i.visits m).toNat + if b = true ∧ n = m then 1 else 0 := by
  rcases activate_ok h with ⟨-, rfl, rfl⟩ | ⟨-, rfl, hv, rfl⟩
  · simp
  · simp [visits_entering hv]

theorem Arrives.visits_eq {t : Transition} {b : Bool} (h : Arrives w now t i b j) (m : NodeId) :
    (j.visits m).toNat = (i.visits m).toNat + if b = true ∧ t.target = m then 1 else 0 := by
  cases h with
  | any _ _ enter => exact visits_activate enter m
  | last _ _ _ enter => exact visits_activate enter m
  | waits =>
    rw [if_neg fun hb => Bool.false_ne_true hb.1]
    rfl

theorem visits_arriveAll (h : i.arriveAll w now ts = (.ok ns, j)) (m : NodeId) :
    (j.visits m).toNat = (i.visits m).toNat + ns.count m := by
  induction ts generalizing i j ns with
  | nil =>
    cases h
    rfl
  | cons t ts ih =>
    obtain ⟨b, k, ms, ht, hr, rfl⟩ := arriveAll_cons_ok h
    rw [ih hr, (arrive_ok ht).visits_eq m]
    cases b with
    | false => simp
    | true =>
      rw [if_pos rfl, List.count_cons]
      by_cases e : t.target = m
      · simp [e]
        omega
      · simp [e]

end Instance

namespace Workflow

variable {ω : Type} {w : Workflow} {inv : Invoker ω} {site : Site} {options : Options}
  {now : Moment} {p q : Progress ω} {i j : Instance} {taken : List Transition} {ns : List NodeId}

theorem Move.told (h : w.Move true now i taken ns j) :
    j.history = i.history ++ firingsFrom i.history.length now taken ∧
      (∀ t ∈ taken, w.transition? t.id = some t) ∧
      ∀ n, (j.visits n).toNat = (i.visits n).toNat + ns.count n := by
  cases h with
  | finish => exact ⟨(List.append_nil _).symm, by simp, fun n => rfl⟩
  | rest => exact ⟨(List.append_nil _).symm, by simp, fun n => rfl⟩
  | fire _ selects _ arrive =>
    have hkept := (Instance.arriveAll_frame (i.entered.depart true now taken) w now taken).2
    rw [arrive] at hkept
    refine ⟨?_, fun t ht => selects.transition ht, fun n => ?_⟩
    · rw [show j.history = _ from hkept, Instance.history_depart_recorded]
      rfl
    · rw [Instance.visits_arriveAll arrive, Instance.visits_depart]
      rfl

structure Tells (w : Workflow) (now : Moment) (i : Instance) (p : Progress ω) : Prop where
  fired : ∃ ts : List Transition, ts.map (·.id) = p.report.fired ∧
    (∀ t ∈ ts, w.transition? t.id = some t) ∧
    p.current.history = i.history ++ firingsFrom i.history.length now ts
  activated : ∀ n, (p.current.visits n).toNat =
    (i.visits n).toNat + p.report.activated.count n

theorem Tells.pass {b : Bool} (hoptions : options.recordHistory = true) (h : w.Tells now i p)
    (hpass : w.pass inv site options now p = (.ok b, q)) : w.Tells now i q := by
  obtain ⟨taken, ns, hmove, -, hfired, hactivated⟩ := pass_ok hpass
  rw [hoptions] at hmove
  obtain ⟨hhistory, htaken, hvisits⟩ := hmove.told
  obtain ⟨⟨ts, hids, hts, hbefore⟩, hcount⟩ := h
  refine ⟨⟨ts ++ taken, ?_, ?_, ?_⟩, fun n => ?_⟩
  · rw [List.map_append, hids, hfired]
  · intro t ht
    exact (List.mem_append.1 ht).elim (hts t) (htaken t)
  · rw [hhistory, hbefore, firingsFrom_append, List.append_assoc, List.length_append,
      length_firingsFrom]
  · rw [hvisits, hcount, hactivated, List.count_append, Nat.add_assoc]

theorem Tells.passes (hoptions : options.recordHistory = true) {k : Nat} (h : w.Tells now i p)
    (hpasses : w.passes inv site options now k p = (.ok (), q)) : w.Tells now i q := by
  induction k generalizing p with
  | zero =>
    cases hpasses
    exact ⟨h.fired, h.activated⟩
  | succ k ih =>
    rw [Workflow.passes] at hpasses
    rcases hr : w.pass inv site options now p with ⟨e | b, p₁⟩ <;> rw [hr] at hpasses
    · cases hpasses
    have hp₁ := h.pass hoptions hr
    cases b with
    | false =>
      cases hpasses
      exact hp₁
    | true => exact ih hp₁ hpasses

theorem report_is_change (w : Workflow) (inv : Invoker ω) (limit : Option UInt32)
    (now now' : Moment) (actor : Option String) (i : Instance) (s : ω) :
    ∃ a j j' s',
      w.advance inv { recordHistory := true, maxPasses := limit } now actor i s = (a, j, s') ∧
      w.advance inv { recordHistory := false, maxPasses := limit } now' actor i s = (a, j', s') ∧
      j.Agrees j' ∧ j'.history = i.history ∧
      ∀ r, a = .ok r → r.status = j.status ∧
        (∃ ts : List Transition, ts.map (·.id) = r.fired ∧
          (∀ t ∈ ts, w.transition? t.id = some t) ∧
          j.history = i.history ++ firingsFrom i.history.length now ts) ∧
        ∀ n, (j.visits n).toNat = (i.visits n).toNat + r.activated.count n := by
  have huntold : Progress.Untold i.history (⟨i, {}, s⟩ : Progress ω) ⟨i, {}, s⟩ :=
    ⟨.refl i, rfl, rfl, rfl⟩
  have htells : w.Tells now i (⟨i, {}, s⟩ : Progress ω) :=
    ⟨⟨[], rfl, by simp, (List.append_nil i.history).symm⟩, fun n => rfl⟩
  simp only [advance, Options.passLimit]
  generalize ({ workflow := w.id, target := i.target, instanceId := some i.id, actor } : Site) =
    site
  have hsame : Same (Progress.Untold i.history)
      (w.passes inv site { recordHistory := true, maxPasses := limit } now
        (limit.elim (w.passBound i) (·.toNat)) ⟨i, {}, s⟩)
      (w.passes inv site { recordHistory := false, maxPasses := limit } now'
        (limit.elim (w.passBound i) (·.toNat)) ⟨i, {}, s⟩) := huntold.passes rfl _
  rcases hr : w.passes inv site { recordHistory := true, maxPasses := limit } now
    (limit.elim (w.passBound i) (·.toNat)) ⟨i, {}, s⟩ with ⟨a, p⟩
  rw [hr] at hsame
  generalize w.passes inv site { recordHistory := false, maxPasses := limit } now'
    (limit.elim (w.passBound i) (·.toNat)) ⟨i, {}, s⟩ = r' at hsame ⊢
  cases hsame with
  | @mk a p q h =>
    rcases a with e | _
    · refine ⟨.error e, p.current, q.current, q.world, ?_, rfl, h.current, h.history, ?_⟩
      · rw [← h.world]
      · intro r hr
        cases hr
    have hend : w.Tells now i p := htells.passes rfl hr
    refine ⟨.ok { p.report with status := p.current.status }, p.current, q.current, q.world, ?_, ?_,
      h.current, h.history, ?_⟩
    · rw [← h.world]
    · rw [h.report, h.current.status]
    · rintro r hr
      cases hr
      exact ⟨rfl, hend.fired, hend.activated⟩

def twinsDraft : Draft where
  id := "twins"
  name := "Twins"
  model := "order"
  nodes := [
    { id := "a", name := "A", kind := .start, split := .and },
    { id := "b", name := "B", kind := .task }, { id := "c", name := "C", kind := .finish }]
  transitions := [
    { id := "ab", source := "a", target := "b" }, { id := "ab2", source := "a", target := "b" },
    { id := "bc", source := "b", target := "c" }]

def twins : Workflow := twinsDraft.build.toOption.get (by decide +kernel)

def twinsStart : Instance := .start twins "1" ⟨"order", "7"⟩ diamondStart.created

theorem report_is_change_twins :
    ∃ r j, twins.advance (steady (.ok .null)) {} twinsStart.created none twinsStart () =
        (.ok r, j, ()) ∧
      r.fired = ["ab", "ab2", "bc"] ∧ r.activated = ["b", "c"] ∧ r.status = j.status ∧
      (j.visits "b").toNat = (twinsStart.visits "b").toNat + 1 := by
  have hok : (twins.advance (steady (.ok .null)) {} twinsStart.created none
      twinsStart ()).1.toOption.map (fun r => (r.fired, r.activated)) =
        some (["ab", "ab2", "bc"], ["b", "c"]) := by cbv
  obtain ⟨a, j, j', s', hon, -, -, -, htold⟩ := report_is_change twins (steady (.ok .null)) none
    twinsStart.created twinsStart.created none twinsStart ()
  rw [hon] at hok
  rcases a with e | r
  · cases hok
  obtain ⟨hfired, hactivated⟩ := Prod.mk.inj (Option.some.inj hok)
  obtain ⟨hstatus, -, hvisits⟩ := htold r rfl
  refine ⟨r, j, hon, hfired, hactivated, hstatus, ?_⟩
  rw [hvisits "b", show r.activated = _ from hactivated]
  rfl

end Workflow

end Flowgraph
