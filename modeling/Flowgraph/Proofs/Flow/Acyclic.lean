import Flowgraph.Proofs.Flow.Orderly
import Flowgraph.Proofs.Limits.Cuts
import Flowgraph.Proofs.Run.Ready

namespace Flowgraph

namespace Workflow

variable {ω : Type} {w : Workflow} {p : Progress ω} {i j : Instance} {F : List TransitionId}
  {taken : List Transition} {now : Moment}

section Advances

variable (inv : Invoker ω) (site : Site) (options : Options) (now : Moment)

theorem fire_orderly (hw : w.WellStructured) (hsel : w.Selects p.current.active.keys taken)
    (h : Instance.Orderly w (F ++ p.report.fired) [] p.current) :
    ∃ q, w.fire options now taken p = (.ok (), q) ∧
      Instance.Orderly w (F ++ q.report.fired) [] q.current := by
  have hdepart := h.depart options.recordHistory now hsel
  obtain ⟨ns, j, hj, hend⟩ := hdepart.arriveAll now hw fun t ht => hsel.transition ht
  rw [List.append_assoc] at hend
  rw [fire, hj]
  exact ⟨_, rfl, hend⟩

theorem pass_orderly (hw : w.WellStructured)
    (h : Instance.Orderly w (F ++ p.report.fired) [] p.current) :
    Instance.Orderly w (F ++ (w.pass inv site options now p).2.report.fired) []
        (w.pass inv site options now p).2.current ∧
      Unlimited (w.pass inv site options now p) := by
  have hready := w.ready_readies inv site p
  rw [pass_eq]
  rcases hr : w.ready inv site p with ⟨e | taken, q⟩ <;> rw [hr] at hready
  all_goals
    have hq : Instance.Orderly w (F ++ q.report.fired) [] q.current := by
      rw [show q.report.fired = _ from hready.fired, show q.current = _ from hready.current]
      exact h.congr rfl rfl rfl rfl rfl
  · exact ⟨hq, .error (hready.unlimited e rfl) q⟩
  rcases taken with _ | ⟨t, ts⟩
  · refine ⟨?_, .ok false _⟩
    rw [conclude]
    simp only
    split <;> exact hq.congr rfl rfl rfl rfl rfl
  · obtain ⟨hc, hsel⟩ := ready_ok hr
    have hactive : q.current.active = p.current.active := by rw [hc, Instance.entered]
    obtain ⟨q', hfire, hend⟩ := fire_orderly options now hw
      (hactive ▸ hsel.resolve_left (List.cons_ne_nil t ts)) hq
    simp only [conclude, hfire]
    exact ⟨hend, .ok true q'⟩

theorem passes_orderly (hw : w.WellStructured) (k : Nat)
    (h : Instance.Orderly w (F ++ p.report.fired) [] p.current) :
    Instance.Orderly w (F ++ (w.passes inv site options now k p).2.report.fired) []
        (w.passes inv site options now k p).2.current ∧
      Unlimited (w.passes inv site options now k p) := by
  induction k generalizing p with
  | zero => exact ⟨h.congr rfl rfl rfl rfl rfl, .ok () _⟩
  | succ k ih =>
    obtain ⟨hq, hunlimited⟩ := pass_orderly inv site options now hw h
    rw [passes]
    rcases hr : w.pass inv site options now p with ⟨e | b, q⟩ <;> rw [hr] at hq hunlimited
    · exact ⟨hq, .error (hunlimited e rfl) q⟩
    cases b with
    | false => exact ⟨hq, .ok () q⟩
    | true => exact ih hq

def firings (w : Workflow) (inv : Invoker ω) (options : Options) (now : Moment)
    (actor : Option String) (i : Instance) (s : ω) : List TransitionId :=
  (w.passes inv (w.siteOf actor i) options now (options.passLimit (w.passBound i))
    ⟨i, {}, s⟩).2.report.fired

variable (actor : Option String) (s : ω)

theorem firings_of_advance {r : Report} {s' : ω}
    (h : w.advance inv options now actor i s = (.ok r, j, s')) :
    w.firings inv options now actor i s = r.fired := by
  rw [advance] at h
  rw [firings, siteOf]
  simp only at h
  split at h <;> cases h
  case h_2 hq => rw [hq]

theorem advance_orderly (hw : w.WellStructured) (h : Instance.Orderly w F [] i) :
    Instance.Orderly w (F ++ w.firings inv options now actor i s) []
        (w.advance inv options now actor i s).2.1 ∧
      Unlimited (w.advance inv options now actor i s) := by
  have hstart : Instance.Orderly w (F ++ (⟨i, {}, s⟩ : Progress ω).report.fired) [] i := by
    simpa using h
  obtain ⟨hend, hunlimited⟩ := passes_orderly inv (w.siteOf actor i) options now hw
    (options.passLimit (w.passBound i)) hstart
  rw [firings, advance, siteOf] at *
  rcases hr : w.passes inv { workflow := w.id, target := i.target, instanceId := some i.id, actor }
    options now (options.passLimit (w.passBound i)) ⟨i, {}, s⟩ with ⟨e | _, q⟩ <;>
    rw [hr] at hend hunlimited
  · exact ⟨hend, .error (hunlimited e rfl) _⟩
  · exact ⟨hend, .ok _ _⟩

end Advances

inductive Life (w : Workflow) (i : Instance) : List TransitionId → Instance → Prop
  | start : Life w i [] i
  | advance {ω : Type} {F : List TransitionId} {j : Instance} (before : Life w i F j)
      (inv : Invoker ω) (options : Options) (now : Moment) (actor : Option String) (s : ω) :
      Life w i (F ++ w.firings inv options now actor j s)
        (w.advance inv options now actor j s).2.1

theorem Life.orderly (hw : w.WellStructured) (hi : Instance.Orderly w [] [] i)
    (h : w.Life i F j) : Instance.Orderly w F [] j := by
  induction h with
  | start => exact hi
  | advance before inv options now actor s ih =>
    exact (advance_orderly inv options now actor s hw ih).1

theorem limit_never_met {id : InstanceId} {target : Target} (hw : w.WellStructured)
    (h : w.Life (.start w id target now) F i) :
    (∀ n, (i.visits n).toNat ≤ 1) ∧ F.Nodup ∧ (i.history.map (·.transition)).Nodup ∧
      ∀ {ω : Type} (inv : Invoker ω) (options : Options) (now : Moment) (actor : Option String)
        (s : ω),
        (∀ n visits max, (w.advance inv options now actor i s).1 ≠
          .error (.workflow (.visitLimit n visits max))) ∧
        ∀ r, (w.advance inv options now actor i s).1 = .ok r → (F ++ r.fired).Nodup := by
  have horderly := h.orderly hw (.start w id target now)
  refine ⟨fun n => (horderly.once hw n).1, horderly.nodup hw,
    (horderly.nodup hw).sublist horderly.recorded, ?_⟩
  intro ω inv options now actor s
  obtain ⟨hnext, hunlimited⟩ := advance_orderly inv options now actor s hw horderly
  refine ⟨fun n visits max he => ?_, fun r hr => ?_⟩
  · cases hunlimited _ he
  · rw [← firings_of_advance inv options now actor s (Prod.ext hr rfl)]
    exact hnext.nodup hw

theorem diamond_wellStructured : diamond.WellStructured := by
  have hforward : ∀ t ∈ diamond.transitions.values, Key.before t.source t.target = true := by
    decide +kernel
  have hjoins : (diamond.nodes.values.all fun x =>
      (diamond.incoming x.id).length < 2 || x.join = .and) = true := by cbv
  have hlead : ∀ {m n}, diamond.Leads m n → Key.before m n = true := by
    rintro m n ⟨t, ht, rfl⟩
    obtain ⟨htr, rfl⟩ := mem_outgoing_iff.1 ht
    exact hforward t (Keyed.mem_values_iff.2 ⟨t.id, htr⟩)
  refine ⟨fun n hcycle => ?_, fun {n x} hx htwo => ?_⟩
  · have hbefore : ∀ {m}, Relation.TransGen diamond.Leads n m → Key.before n m = true := by
      intro m hpath
      induction hpath with
      | single h => exact hlead h
      | tail _ h ih => exact Key.trans ih (hlead h)
    exact Key.ne_of_before (hbefore hcycle) rfl
  · have hx' := List.all_eq_true.1 hjoins x (Keyed.mem_values_iff.2 ⟨n, hx⟩)
    rw [node_id hx, Bool.or_eq_true, decide_eq_true_iff, decide_eq_true_iff] at hx'
    exact hx'.resolve_left (by omega)

def diamondHalted : Instance :=
  (diamond.advance (steady (.error (.failed "offline"))) {} diamondStart.created none
    diamondStart ()).2.1

def diamondResumed : Instance :=
  (diamond.advance (steady (.ok .null)) {} diamondStart.created none diamondHalted ()).2.1

theorem diamond_life : diamond.Life diamondStart ["ab", "ac", "bd", "cd"] diamondResumed := by
  have hhalted := Life.advance (w := diamond) (.start (i := diamondStart))
    (steady (.error (.failed "offline"))) {} diamondStart.created none ()
  have hresumed : diamond.Life diamondStart _ diamondResumed :=
    hhalted.advance (steady (.ok .null)) {} diamondStart.created none ()
  have hfired : diamond.firings (steady (.error (.failed "offline"))) {} diamondStart.created none
      diamondStart () = ["ab", "ac"] := by cbv
  have hrest : diamond.firings (steady (.ok .null)) {} diamondStart.created none
      diamondHalted () = ["bd", "cd"] := by cbv
  rw [hfired, ← diamondHalted, hrest] at hresumed
  exact hresumed

theorem limit_never_met_diamond :
    diamond.WellStructured ∧
      diamond.Life diamondStart ["ab", "ac", "bd", "cd"] diamondResumed ∧
      (diamondResumed.visits "d").toNat = 1 ∧ ∀ n, (diamondResumed.visits n).toNat ≤ 1 :=
  ⟨diamond_wellStructured, diamond_life, by cbv,
    (limit_never_met diamond_wellStructured diamond_life).1⟩

end Workflow

end Flowgraph
