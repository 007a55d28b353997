import Flowgraph.Engine.Run
import Flowgraph.Proofs.Flow.Counts

namespace Flowgraph

namespace Instance

structure Proper (i : Instance) : Prop where
  idle : i.status ≠ .running
  failure : i.failure.isSome = true ↔ i.status = .failed
  completed : i.completed.isSome = true ↔ i.status = .completed ∨ i.status = .failed
  pending : i.status = .completed → i.pending = .empty

inductive Ends (now : Moment) (i j : Instance) : Prop
  | completed (status : j.status = .completed) (moment : j.completed = some now)
      (pending : j.pending = .empty)
  | waiting (status : j.status = .waiting) (moment : j.completed = i.completed)

variable {i j k : Instance} {w : Workflow} {now : Moment}

theorem isTerminal_iff : i.isTerminal = true ↔ i.status = .completed ∨ i.status = .failed := by
  rw [isTerminal]
  cases i.status <;> simp [Status.isTerminal]

namespace Proper

theorem start (w : Workflow) (id : InstanceId) (target : Target) (now : Moment) :
    (Instance.start w id target now).Proper := by
  refine ⟨?_, ?_, ?_, ?_⟩ <;> simp [Instance.start]

theorem fail (i : Instance) (f : Failure) : (i.fail f).Proper := by
  refine ⟨?_, ?_, ?_, ?_⟩ <;> simp [Instance.fail]

theorem version (h : i.Proper) (v : UInt64) : Proper { i with version := v } :=
  ⟨h.idle, h.failure, h.completed, h.pending⟩

theorem ends (h : i.Proper) (ht : i.isTerminal = false) (hf : j.failure = i.failure)
    (he : Ends now i j) : j.Proper := by
  have hopen : ¬ (i.status = .completed ∨ i.status = .failed) := by
    rw [← isTerminal_iff, ht]
    exact Bool.false_ne_true
  have hfailure : j.failure = none := by
    rw [hf, ← Option.not_isSome_iff_eq_none, h.failure]
    exact fun hs => hopen (.inr hs)
  have hcompleted : i.completed = none := by
    rw [← Option.not_isSome_iff_eq_none, h.completed]
    exact hopen
  cases he with
  | completed status moment pending =>
    refine ⟨?_, ?_, ?_, fun _ => pending⟩ <;> simp [status, moment, hfailure]
  | waiting status moment =>
    refine ⟨?_, ?_, ?_, ?_⟩ <;> simp [status, moment, hfailure, hcompleted]

end Proper

theorem completed_depart {record : Bool} {ts : List Transition} :
    (i.depart record now ts).completed = i.completed := by
  induction ts generalizing i with
  | nil => rfl
  | cons t ts ih => cases record <;> exact ih

theorem completed_activate {n : NodeId} {b : Bool} (h : i.activate w n now = (.ok b, j)) :
    j.completed = i.completed := by
  rcases activate_ok h with ⟨-, -, rfl⟩ | ⟨-, -, -, rfl⟩
  · rfl
  · rfl

theorem Arrives.completed {t : Transition} {b : Bool} (h : Arrives w now t i b j) :
    j.completed = i.completed := by
  cases h with
  | any _ _ enter => exact completed_activate enter
  | last _ _ _ enter => exact (completed_activate enter :)
  | waits => rfl

end Instance

namespace Workflow

variable {ω : Type} {w : Workflow} {inv : Invoker ω} {site : Site} {options : Options}
  {now : Moment} {i j : Instance}

theorem Move.ends {record : Bool} {taken : List Transition} {ns : List NodeId}
    (h : w.Move record now i taken ns j) :
    (taken = [] ∧ i.Ends now j) ∨ (taken ≠ [] ∧ j.completed = i.completed) := by
  cases h with
  | finish => exact .inl ⟨rfl, .completed rfl rfl rfl⟩
  | rest => exact .inl ⟨rfl, .waiting rfl rfl⟩
  | fire open_ selects some arrive =>
    refine .inr ⟨some, ?_⟩
    refine Instance.arriveAll_run (Q := fun _ k => k.completed = i.completed) ?_
      (fun t ht => selects.transition ht) arrive Instance.completed_depart
    intro t ts k b m _ harrives hk
    exact harrives.completed.trans hk

theorem passes_ends {k : Nat} {p q : Progress ω}
    (h : w.passes inv site options now k p = (.ok (), q)) : p.current.Ends now q.current := by
  induction k generalizing p with
  | zero =>
    cases h
    exact .waiting rfl rfl
  | succ k ih =>
    rw [passes] at h
    rcases hr : w.pass inv site options now p with ⟨e | b, p₁⟩ <;> rw [hr] at h
    · cases h
    obtain ⟨taken, ns, hmove, hb, -, -⟩ := pass_ok hr
    rcases hmove.ends with ⟨rfl, hends⟩ | ⟨hne, hsame⟩
    · cases hb
      cases h
      exact hends
    · have htrue : b = true := by
        rw [hb]
        simpa using hne
      subst htrue
      cases ih h with
      | completed status moment pending => exact .completed status moment pending
      | waiting status moment => exact .waiting status (moment.trans hsame)

theorem advance_ends {actor : Option String} {r : Report} {s s' : ω}
    (h : w.advance inv options now actor i s = (.ok r, j, s')) : i.Ends now j := by
  rw [advance] at h
  simp only at h
  split at h
  · cases h
  case h_2 q hq =>
    cases h
    exact (passes_ends hq :)

end Workflow

end Flowgraph
