import Flowgraph.Engine.Advance
import Flowgraph.Engine.Conditions

namespace Flowgraph

namespace Json

def Ascending (fields : Fields) : Prop := fields.Pairwise fun a b => Key.before a.1 b.1 = true

variable {into : Fields}

theorem mergeFields_ascending (h : Ascending into) (fields : Fields) :
    Ascending (mergeFields into fields) := by
  induction fields generalizing into with
  | nil => rwa [mergeFields]
  | cons f fields ih =>
    rw [mergeFields]
    exact ih (Keyed.put_ascending _ _ h)

theorem merge_ascending (h : Ascending into) (v : Json) : Ascending (merge into v) := by
  cases v with
  | obj fields => exact mergeFields_ascending h fields
  | _ => exact h

end Json

namespace Workflow

variable {ω : Type} (w : Workflow) (inv : Invoker ω) (site : Site) (options : Options)
  (now : Moment) {p : Progress ω}

theorem enter_context (ns : List NodeId) (hp : Json.Ascending p.report.context) :
    Json.Ascending (w.enter inv site ns p).2.report.context := by
  induction ns generalizing p with
  | nil => exact hp
  | cons n ns ih =>
    rw [enter]
    rcases w.requireNode n with e | x
    · exact hp
    rcases hk : x.action with _ | key <;> simp only [hk]
    · exact ih hp
    · rcases inv.action key (site.atNode n) p.world with ⟨c | v, s⟩
      · exact hp
      · exact ih (Json.merge_ascending hp v)

theorem fire_context (taken : List Transition) (hp : Json.Ascending p.report.context) :
    Json.Ascending (w.fire options now taken p).2.report.context := by
  rw [fire]
  rcases (p.current.depart options.recordHistory now taken).arriveAll w now taken with
    ⟨e | ns, i⟩ <;>
    exact hp

theorem sweep_context (hp : Json.Ascending p.report.context) :
    Json.Ascending (w.sweep inv site options now p).2.report.context := by
  have hin : Json.Ascending (w.enter inv site p.current.pending.keys p).2.report.context :=
    w.enter_context inv site _ hp
  rw [sweep]
  generalize w.enter inv site p.current.pending.keys _ = c at hin ⊢
  obtain ⟨e | _, q⟩ := c
  · exact hin
  simp only
  split
  · exact hin
  rcases w.splitAll inv site q.current.active.keys q.world with ⟨e | _ | ⟨t, ts⟩, s⟩
  · exact hin
  · exact hin
  have hfire : Json.Ascending
      (w.fire options now (t :: ts) { q with world := s }).2.report.context :=
    w.fire_context options now _ hin
  simp only
  generalize w.fire options now (t :: ts) _ = c at hfire ⊢
  obtain ⟨e | _, q'⟩ := c <;> exact hfire

theorem pass_context (hp : Json.Ascending p.report.context) :
    Json.Ascending (w.pass inv site options now p).2.report.context := by
  rw [pass]
  split
  · exact hp
  · exact w.sweep_context inv site options now hp

theorem passes_context (k : Nat) (hp : Json.Ascending p.report.context) :
    Json.Ascending (w.passes inv site options now k p).2.report.context := by
  induction k generalizing p with
  | zero => exact hp
  | succ k ih =>
    have hpass := w.pass_context inv site options now hp
    rw [passes]
    generalize w.pass inv site options now p = c at hpass ⊢
    obtain ⟨e | b, q⟩ := c
    · exact hpass
    cases b with
    | false => exact hpass
    | true => exact ih hpass

variable {w inv options now} in
theorem context_of_advance {actor : Option String} {i j : Instance} {s s' : ω} {r : Report}
    (h : w.advance inv options now actor i s = (.ok r, j, s')) : Json.Ascending r.context := by
  simp only [advance] at h
  generalize ({ workflow := w.id, target := i.target, instanceId := some i.id, actor } : Site) =
    site at h
  have hpasses : Json.Ascending (w.passes inv site options now
      (options.passLimit (w.passBound i)) ⟨i, {}, s⟩).2.report.context :=
    w.passes_context inv site options now _ List.Pairwise.nil
  rcases hr : w.passes inv site options now (options.passLimit (w.passBound i)) ⟨i, {}, s⟩ with
    ⟨e | _, q⟩ <;> rw [hr] at h hpasses <;> cases h
  exact hpasses

end Workflow

namespace Entities

variable {floatText : Binary64 → String}

def written? (floatText : Binary64 → String) (fields : Json.Fields) (k : String) : Option String :=
  (Keyed.find k fields).bind (scalarText floatText)

theorem get?_writeField (vs : Guard.Variables) (f : String × Json) (k : String) :
    (writeField floatText vs f).get? k =
      if f.1 = k then (scalarText floatText f.2).or (vs.get? k) else vs.get? k := by
  rw [writeField]
  rcases scalarText floatText f.2 with _ | v
  · simp
  · simp [Keyed.get?_insert]

theorem get?_writeFields {fields : Json.Fields} (h : Json.Ascending fields)
    (vs : Guard.Variables) (k : String) :
    (fields.foldl (writeField floatText) vs).get? k =
      (written? floatText fields k).or (vs.get? k) := by
  induction fields generalizing vs with
  | nil => rfl
  | cons f fields ih =>
    obtain ⟨hf, hfields⟩ := List.pairwise_cons.1 h
    rw [List.foldl_cons, ih hfields, get?_writeField, written?, written?, Keyed.find]
    by_cases e : f.1 = k
    · have hfree : Keyed.find k fields = none := by
        refine Option.eq_none_iff_forall_ne_some.2 fun v hv => ?_
        exact Key.ne_of_before (hf _ (Keyed.mem_of_find hv)) e
      simp [e, hfree]
    · simp [e]

theorem get?_writeBack {fields : Json.Fields} (h : Json.Ascending fields) (es : Entities)
    (t u : Target) (k : String) :
    (es.writeBack floatText t fields).get? u k =
      if u = t then (written? floatText fields k).or (es.get? u k) else es.get? u k := by
  rw [get?, variablesOf, writeBack, setAll, Keyed.get?_insert]
  by_cases e : u = t
  · subst e
    rw [if_pos rfl, if_pos rfl, Option.getD_some, get?_writeFields h]
    rfl
  · rw [if_neg fun h => e h.symm, if_neg e]
    rfl

end Entities

end Flowgraph
