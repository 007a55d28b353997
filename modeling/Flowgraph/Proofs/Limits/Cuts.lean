import Flowgraph.Proofs.Flow.Termination
import Flowgraph.Proofs.Limits.Alike
import Flowgraph.Proofs.Run.Conduct

namespace Flowgraph.Workflow

variable {ω : Type} {w : Workflow} {inv : Invoker ω} {site : Site} {options : Options}
  {now now' : Moment} {p q : Progress ω} {i : Instance} {s : ω} {actor : Option String}
  {record : Bool} {k m : Nat}

theorem Runs.unique {r r' : Except EngineError Unit × Progress ω}
    (h : w.Runs inv site options now k p r) (h' : w.Runs inv site options now m p r') :
    k = m ∧ r = r' := by
  induction h generalizing m with
  | fails step =>
    rcases h' with step' | step' | ⟨step', -⟩ <;> rw [step] at step' <;> cases step'
    exact ⟨rfl, rfl⟩
  | ends step =>
    rcases h' with step' | step' | ⟨step', -⟩ <;> rw [step] at step' <;> cases step'
    exact ⟨rfl, rfl⟩
  | goes step rest ih =>
    rcases h' with step' | step' | ⟨step', rest'⟩ <;> rw [step] at step' <;> cases step'
    obtain ⟨rfl, rfl⟩ := ih rest'
    exact ⟨rfl, rfl⟩

theorem next_passes_ne_none (h : p.report.passes.toNat + (k + 1) < UInt32.size) :
    p.report.passes.next? ≠ none := by
  intro hnone
  have hfull : p.report.passes.toNat = 4294967295 := by rw [UInt32.next?_eq_none.1 hnone]; rfl
  have hsize : UInt32.size = 4294967296 := rfl
  omega

theorem Runs.parallel {before : Report} {r : Except EngineError Unit × Progress ω}
    (h : w.Runs inv site options now k p r) (hroom : p.report.passes.toNat + k < UInt32.size)
    (hp : p.Resumes before q) (now' : Moment) :
    ∃ r', w.Runs inv site options now' k q r' ∧ Parallel before r r' ∧
      (r.1 = .ok () → r.2.current.status = r'.2.current.status) := by
  induction h generalizing q with
  | fails step =>
    obtain ⟨q', hq, hp', -⟩ := hp.step (next_passes_ne_none hroom) step now'
    exact ⟨_, .fails hq, ⟨rfl, hp'⟩, fun hc => by cases hc⟩
  | ends step =>
    obtain ⟨q', hq, hp', hstatus⟩ := hp.step (next_passes_ne_none hroom) step now'
    exact ⟨_, .ends hq, ⟨rfl, hp'⟩, fun _ => hstatus rfl⟩
  | goes step rest ih =>
    have hone := pass_passes step nofun
    obtain ⟨q', hq, hp', -⟩ := hp.step (next_passes_ne_none hroom) step now'
    obtain ⟨r', hr', hrest⟩ := ih (by omega) hp'
    exact ⟨r', .goes hq hr', hrest⟩

theorem Runs.cut {r : Except EngineError Unit × Progress ω}
    (h : w.Runs inv site options now m p r) (hk : k < m) :
    ∃ q, w.passes inv site options now k p =
        (.ok (), { q with current := q.current.setWaiting now }) ∧
      q.report.passes.toNat = p.report.passes.toNat + k ∧
      w.Runs inv site options now (m - k) q r := by
  induction k generalizing p m with
  | zero => exact ⟨p, rfl, rfl, h⟩
  | succ k ih =>
    cases h with
    | fails => exact absurd hk (by omega)
    | ends => exact absurd hk (by omega)
    | @goes _ p' n _ step rest =>
      obtain ⟨q, hpasses, hcount, hrest⟩ := ih rest (Nat.lt_of_succ_lt_succ hk)
      have hone := pass_passes step nofun
      refine ⟨q, ?_, by omega, ?_⟩
      · rw [passes, step]
        exact hpasses
      · rw [Nat.add_sub_add_right]
        exact hrest

theorem passes_congr (limit : Option UInt32) (k : Nat) (p : Progress ω) :
    w.passes inv site { recordHistory := record, maxPasses := limit } now k p =
      w.passes inv site { recordHistory := record } now k p := by
  induction k generalizing p with
  | zero => rfl
  | succ k ih =>
    have hpass : w.pass inv site { recordHistory := record, maxPasses := limit } now p =
        w.pass inv site { recordHistory := record } now p := rfl
    rw [passes, passes, hpass]
    rcases w.pass inv site { recordHistory := record } now p with ⟨e | b, q⟩
    · rfl
    cases b with
    | false => rfl
    | true => exact ih q

def siteOf (w : Workflow) (actor : Option String) (i : Instance) : Site :=
  { workflow := w.id, target := i.target, instanceId := some i.id, actor }

theorem siteOf_of_advance {r : Except EngineError Report} {j : Instance} {s' : ω}
    (h : w.advance inv options now actor i s = (r, j, s')) :
    w.siteOf actor j = w.siteOf actor i := by
  have hevolves := evolves_of_advance h
  rw [siteOf, siteOf, hevolves.target, hevolves.id]

def outcome (r : Except EngineError Unit × Progress ω) :
    Except EngineError Report × Instance × ω :=
  (r.1.map fun _ => { r.2.report with status := r.2.current.status }, r.2.current, r.2.world)

theorem advance_eq_outcome (limit : Option UInt32) :
    w.advance inv { recordHistory := record, maxPasses := limit } now actor i s =
      outcome (w.passes inv (w.siteOf actor i) { recordHistory := record } now
        (limit.elim (w.passBound i) (·.toNat)) ⟨i, {}, s⟩) := by
  simp only [advance, Options.passLimit, passes_congr]
  rw [siteOf]
  rcases w.passes inv { workflow := w.id, target := i.target, instanceId := some i.id, actor }
    { recordHistory := record } now (limit.elim (w.passBound i) (·.toNat)) ⟨i, {}, s⟩ with
    ⟨e | u, q⟩
  · rfl
  · rfl

theorem Runs.advance_eq {r : Except EngineError Unit × Progress ω}
    (h : w.Runs inv (w.siteOf actor i) { recordHistory := record } now m ⟨i, {}, s⟩ r) :
    w.advance inv { recordHistory := record } now actor i s = outcome r := by
  obtain ⟨n, -, hn⟩ :=
    exists_runs_passes w inv (w.siteOf actor i) { recordHistory := record } now i s
  obtain ⟨-, rfl⟩ := hn.unique h
  exact advance_eq_outcome none

def Takes (w : Workflow) (inv : Invoker ω) (record : Bool) (now : Moment) (actor : Option String)
    (i : Instance) (s : ω) (m : Nat) : Prop :=
  ∃ r, w.Runs inv (w.siteOf actor i) { recordHistory := record } now m ⟨i, {}, s⟩ r ∧
    r.1 ≠ .error (.workflow (.overflow none))

theorem exists_takes (hbound : w.passBound i < UInt32.size) (inv : Invoker ω) (record : Bool)
    (now : Moment) (actor : Option String) (s : ω) : ∃ m, w.Takes inv record now actor i s m := by
  obtain ⟨m, hm, hruns⟩ :=
    exists_runs_passes w inv (w.siteOf actor i) { recordHistory := record } now i s
  refine ⟨m, _, hruns, fun he => ?_⟩
  have hcount : 0 + m = UInt32.size := (hruns.passes_eq.resolve_left fun h => h.1 he).2
  omega

theorem Runs.lt_size {r : Except EngineError Unit × Progress ω}
    (h : w.Runs inv site options now m ⟨i, {}, s⟩ r)
    (hr : r.1 ≠ .error (.workflow (.overflow none))) :
    (⟨i, {}, s⟩ : Progress ω).report.passes.toNat + m < UInt32.size := by
  rcases h.passes_eq with ⟨-, hcount⟩ | ⟨he, -⟩
  · rw [← hcount]
    exact r.2.report.passes.toNat_lt
  · exact absurd he hr

inductive Agrees (earlier : List Report) : Except EngineError Report × Instance × ω →
    Except EngineError Report × Instance × ω → Prop
  | fails (e : EngineError) (i j : Instance) (s : ω) :
      Agrees earlier (.error e, i, s) (.error e, j, s)
  | ends {r r' : Report} {i j : Instance} (s : ω) (alike : i.Alike j) (same : i.status = j.status)
      (status : r.status = r'.status)
      (passes : r.passes.toNat = (earlier.map (·.passes.toNat)).sum + r'.passes.toNat)
      (activated : r.activated = earlier.flatMap (·.activated) ++ r'.activated)
      (fired : r.fired = earlier.flatMap (·.fired) ++ r'.fired) :
      Agrees earlier (.ok r, i, s) (.ok r', j, s)

theorem Agrees.trans {rs rs' : List Report} {a b c : Except EngineError Report × Instance × ω}
    (h : Agrees rs a b) (h' : Agrees rs' b c) : Agrees (rs ++ rs') a c := by
  cases h with
  | fails e i j s =>
    cases h'
    exact .fails ..
  | ends s alike same status passes activated fired =>
    cases h' with
    | ends _ alike' same' status' passes' activated' fired' =>
      refine .ends s (alike.trans alike') (same.trans same') (status.trans status') ?_ ?_ ?_
      · rw [passes, passes', List.map_append, List.sum_append, Nat.add_assoc]
      · rw [activated, activated', List.flatMap_append, List.append_assoc]
      · rw [fired, fired', List.flatMap_append, List.append_assoc]

theorem agrees_of_parallel {before : Report} {earlier : List Report}
    {r r' : Except EngineError Unit × Progress ω} (hpar : Parallel before r r')
    (hstatus : r.1 = .ok () → r.2.current.status = r'.2.current.status)
    (passes : (earlier.map (·.passes.toNat)).sum = before.passes.toNat)
    (activated : earlier.flatMap (·.activated) = before.activated)
    (fired : earlier.flatMap (·.fired) = before.fired) :
    Agrees earlier (outcome r) (outcome r') := by
  obtain ⟨a, p⟩ := r
  obtain ⟨a', q⟩ := r'
  obtain ⟨ha, hp⟩ := hpar
  obtain rfl : a = a' := ha
  have hworld : p.world = q.world := hp.world
  cases a with
  | error e =>
    simp only [outcome, hworld]
    exact .fails ..
  | ok u =>
    simp only [outcome, hworld]
    refine .ends q.world hp.current (hstatus rfl) (hstatus rfl) ?_ ?_ ?_
    · rw [passes]
      exact hp.passes
    · rw [activated]
      exact hp.activated
    · rw [fired]
      exact hp.fired

theorem Takes.agrees (h : w.Takes inv record now actor i s m) (now' : Moment) :
    w.Takes inv record now' actor i s m ∧
      Agrees [] (w.advance inv { recordHistory := record } now actor i s)
        (w.advance inv { recordHistory := record } now' actor i s) := by
  obtain ⟨r, hr, hne⟩ := h
  obtain ⟨r', hr', hpar, hstatus⟩ := hr.parallel (hr.lt_size hne) (.refl _) now'
  rw [hr.advance_eq, hr'.advance_eq]
  exact ⟨⟨r', hr', hpar.1 ▸ hne⟩, agrees_of_parallel hpar hstatus rfl rfl rfl⟩

theorem Takes.cut {k : UInt32} (h : w.Takes inv record now actor i s m) (hk : k.toNat < m)
    (now' : Moment) :
    ∃ r j s', w.advance inv { recordHistory := record, maxPasses := some k } now' actor i s =
        (.ok r, j, s') ∧
      r.status = .waiting ∧ j.status = .waiting ∧ r.passes = k ∧
      ∀ last, w.Takes inv record last actor j s' (m - k.toNat) ∧
        Agrees [r] (w.advance inv { recordHistory := record } now actor i s)
          (w.advance inv { recordHistory := record } last actor j s') := by
  obtain ⟨⟨r, hr, hne⟩, hagrees⟩ := h.agrees now'
  have hroom := hr.lt_size hne
  obtain ⟨q, hpasses, hcount, hrest⟩ := hr.cut hk
  have hstop : w.advance inv { recordHistory := record, maxPasses := some k } now' actor i s =
      (.ok { q.report with status := .waiting }, q.current.setWaiting now', q.world) := by
    rw [advance_eq_outcome, Option.elim_some, hpasses]
    rfl
  have hpassed : q.report.passes = k := UInt32.toNat_inj.1 (hcount.trans (Nat.zero_add _))
  refine ⟨_, _, _, hstop, rfl, rfl, hpassed, fun last => ?_⟩
  have hsite : w.siteOf actor (q.current.setWaiting now') = w.siteOf actor i :=
    siteOf_of_advance hstop
  have hresumes : q.Resumes q.report ⟨q.current.setWaiting now', {}, q.world⟩ :=
    ⟨(Instance.Alike.refl q.current).setWaiting, rfl, rfl, (List.append_nil _).symm,
      (List.append_nil _).symm⟩
  obtain ⟨r', hr', hpar, hstatus⟩ := hrest.parallel (by omega) hresumes last
  rw [← hsite] at hr'
  refine ⟨⟨r', hr', hpar.1 ▸ hne⟩, ?_⟩
  have hleft : Agrees [{ q.report with status := .waiting }]
      (w.advance inv { recordHistory := record } now' actor i s)
      (w.advance inv { recordHistory := record } last actor (q.current.setWaiting now')
        q.world) := by
    rw [hr.advance_eq, hr'.advance_eq]
    refine agrees_of_parallel hpar hstatus ?_ ?_ ?_ <;> simp
  exact hagrees.trans hleft

def advanceBy (w : Workflow) (inv : Invoker ω) (record : Bool) (actor : Option String) :
    List (UInt32 × Moment) → Instance → ω → Except EngineError (List Report) × Instance × ω
  | [], i, s => (.ok [], i, s)
  | (k, now) :: limits, i, s =>
      match w.advance inv { recordHistory := record, maxPasses := some k } now actor i s with
      | (.error e, i, s) => (.error e, i, s)
      | (.ok r, i, s) =>
          match advanceBy w inv record actor limits i s with
          | (.error e, i, s) => (.error e, i, s)
          | (.ok rs, i, s) => (.ok (r :: rs), i, s)

theorem Takes.cuts (h : w.Takes inv record now actor i s m) {limits : List (UInt32 × Moment)}
    (hsum : (limits.map (·.1.toNat)).sum < m) (last : Moment) :
    ∃ rs j s', w.advanceBy inv record actor limits i s = (.ok rs, j, s') ∧
      rs.map (·.passes) = limits.map (·.1) ∧ (∀ r ∈ rs, r.status = .waiting) ∧
      w.Takes inv record last actor j s' (m - (limits.map (·.1.toNat)).sum) ∧
      Agrees rs (w.advance inv { recordHistory := record } now actor i s)
        (w.advance inv { recordHistory := record } last actor j s') := by
  induction limits generalizing i s m now with
  | nil =>
    obtain ⟨htakes, hagrees⟩ := h.agrees last
    exact ⟨[], i, s, rfl, rfl, by simp, htakes, hagrees⟩
  | cons limit limits ih =>
    obtain ⟨k, now'⟩ := limit
    simp only [List.map_cons, List.sum_cons] at hsum
    obtain ⟨r, j, s', hstop, hstatus, -, hcount, hrest⟩ := h.cut (k := k) (by omega) now'
    obtain ⟨htakes, hagrees⟩ := hrest last
    obtain ⟨rs, j', s'', hby, hpasses, hwaiting, htakes', hagrees'⟩ := ih htakes (by omega)
    refine ⟨r :: rs, j', s'', ?_, ?_, ?_, ?_, hagrees.trans hagrees'⟩
    · rw [advanceBy, hstop]
      simp only [hby]
    · rw [List.map_cons, hcount, hpasses, List.map_cons]
    · exact List.forall_mem_cons.2 ⟨hstatus, hwaiting⟩
    · rw [List.map_cons, List.sum_cons, ← Nat.sub_sub]
      exact htakes'

theorem limits_only_cut (h : w.Takes inv record now actor i s m) :
    (∀ r, (w.advance inv { recordHistory := record } now actor i s).1 = .ok r →
        r.passes.toNat = m) ∧
      (∀ k : UInt32, k.toNat < m → ∀ now' last, ∃ r j s',
        w.advance inv { recordHistory := record, maxPasses := some k } now' actor i s =
          (.ok r, j, s') ∧
          r.status = .waiting ∧ j.status = .waiting ∧ r.passes = k ∧
          w.Takes inv record last actor j s' (m - k.toNat) ∧
          Agrees [r] (w.advance inv { recordHistory := record } now actor i s)
            (w.advance inv { recordHistory := record } last actor j s')) ∧
      ∀ limits : List (UInt32 × Moment), (limits.map (·.1.toNat)).sum < m → ∀ last, ∃ rs j s',
        w.advanceBy inv record actor limits i s = (.ok rs, j, s') ∧
          rs.map (·.passes) = limits.map (·.1) ∧ (∀ r ∈ rs, r.status = .waiting) ∧
          w.Takes inv record last actor j s' (m - (limits.map (·.1.toNat)).sum) ∧
          Agrees rs (w.advance inv { recordHistory := record } now actor i s)
            (w.advance inv { recordHistory := record } last actor j s') := by
  refine ⟨fun r hr => ?_, fun k hk now' last => ?_, fun limits hsum last => h.cuts hsum last⟩
  · obtain ⟨⟨a, q⟩, hruns, hne⟩ := h
    rw [hruns.advance_eq] at hr
    cases a with
    | error e => cases hr
    | ok u =>
      cases hr
      exact (hruns.passes_eq.resolve_right fun he => hne he.1).2.trans (Nat.zero_add m)
  · obtain ⟨r, j, s', hstop, hstatus, hwaiting, hcount, hrest⟩ := h.cut hk now'
    exact ⟨r, j, s', hstop, hstatus, hwaiting, hcount, (hrest last).1, (hrest last).2⟩

theorem limits_only_cut_diamond :
    diamond.Takes (steady (.ok .null)) true diamondStart.created none diamondStart () 3 ∧
      ∃ r j s', diamond.advance (steady (.ok .null)) { maxPasses := some 1 } diamondStart.created
          none diamondStart () = (.ok r, j, s') ∧
        j.status = .waiting ∧ r.passes = 1 ∧
        diamond.Takes (steady (.ok .null)) true diamondStart.created none j s' 2 := by
  have hbound : diamond.passBound diamondStart < UInt32.size := by decide +kernel
  obtain ⟨m, hm⟩ := exists_takes hbound (steady (.ok .null)) true diamondStart.created none ()
  have hpasses : (diamond.advance (steady (.ok .null)) {} diamondStart.created none
      diamondStart ()).1.map (·.passes) = .ok 3 := by cbv
  obtain ⟨hcount, hcut, -⟩ := limits_only_cut hm
  rcases hr : (diamond.advance (steady (.ok .null)) {} diamondStart.created none
      diamondStart ()).1 with e | r
  · rw [hr] at hpasses
    cases hpasses
  obtain rfl : m = 3 := by
    rw [hr] at hpasses
    have hthree : r.passes = 3 := Except.ok.inj hpasses
    rw [← hcount r hr, hthree]
    rfl
  obtain ⟨r', j, s', hstop, -, hwaiting, hone, hrest, -⟩ :=
    hcut 1 (by decide) diamondStart.created diamondStart.created
  exact ⟨hm, r', j, s', hstop, hwaiting, hone, hrest⟩

end Flowgraph.Workflow
