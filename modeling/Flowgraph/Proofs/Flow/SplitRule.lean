import Flowgraph.Proofs.Graph.Canonical
import Flowgraph.Proofs.Run.Beside
import Flowgraph.Proofs.Run.Passes

namespace Flowgraph

variable {ω : Type}

structure Verdict (ω : Type) where
  transition : Transition
  call : Option (GuardCall ω)

namespace Verdict

def answer (v : Verdict ω) : Except EngineError Bool :=
  match v.call with
  | none => .ok true
  | some c => c.answer.mapError (.guard v.transition.id c.expression)

def isOpen (v : Verdict ω) : Bool :=
  match v.answer with
  | .ok b => b
  | .error _ => false

def settles (gate : Gate) (v : Verdict ω) : Bool :=
  match v.answer with
  | .error _ => true
  | .ok b => b && gate = .or

def heeded (gate : Gate) : List (Verdict ω) → List (Verdict ω)
  | [] => []
  | v :: vs => v :: if v.settles gate then [] else heeded gate vs

def outcome : List (Verdict ω) → Except EngineError (List Transition)
  | [] => .ok []
  | v :: vs =>
      match v.answer with
      | .error e => .error e
      | .ok b => (outcome vs).map fun l => if b then v.transition :: l else l

def calls (vs : List (Verdict ω)) : List (GuardCall ω) := vs.filterMap (·.call)

def opened (vs : List (Verdict ω)) : List Transition := (vs.filter (·.isOpen)).map (·.transition)

variable {gate : Gate} {v : Verdict ω} {vs before : List (Verdict ω)}

theorem heeded_cons_of_settles (h : v.settles gate = true) : heeded gate (v :: vs) = [v] := by
  rw [heeded, if_pos h]

theorem heeded_append (h : ∀ u ∈ before, u.settles gate = false) :
    heeded gate (before ++ vs) = before ++ heeded gate vs := by
  induction before with
  | nil => rfl
  | cons u before ih =>
    have hu : ¬ u.settles gate = true := by simp [h u List.mem_cons_self]
    rw [List.cons_append, heeded, if_neg hu, ih fun x hx => h x (List.mem_cons_of_mem _ hx),
      List.cons_append]

theorem heeded_self (h : ∀ u ∈ vs, u.settles gate = false) : heeded gate vs = vs := by
  have hall : heeded gate (vs ++ []) = vs ++ heeded gate [] := heeded_append h
  rwa [heeded, List.append_nil] at hall

theorem outcome_append (h : ∀ u ∈ before, ∃ b, u.answer = .ok b) :
    outcome (before ++ vs) = (outcome vs).map (opened before ++ ·) := by
  induction before with
  | nil => cases hr : outcome vs <;> simp [hr, opened, Except.map]
  | cons u before ih =>
    obtain ⟨b, hb⟩ := h u List.mem_cons_self
    rw [List.cons_append, outcome, hb, ih fun x hx => h x (List.mem_cons_of_mem _ hx)]
    cases outcome vs <;> cases b <;> simp [opened, isOpen, hb, Except.map]

end Verdict

namespace Invoker

def question (inv : Invoker ω) (site : Site) (t : Transition) (s : ω) : Option (GuardCall ω) :=
  t.guard.map fun e => ⟨e, site, s, (inv.guard e site s).1⟩

def verdicts (inv : Invoker ω) (site : Site) : List Transition → ω → List (Verdict ω)
  | [], _ => []
  | t :: ts, s => ⟨t, inv.question site t s⟩ :: verdicts inv site ts (inv.opens t site s).2

variable (inv : Invoker ω) (site : Site)

theorem transition_verdicts (ts : List Transition) (s : ω) :
    (inv.verdicts site ts s).map (·.transition) = ts := by
  induction ts generalizing s with
  | nil => rfl
  | cons t ts ih => rw [verdicts, List.map_cons, ih]

theorem expression_of_verdicts {ts : List Transition} {s : ω} {v : Verdict ω}
    (hv : v ∈ inv.verdicts site ts s) : v.call.map (·.expression) = v.transition.guard := by
  induction ts generalizing s with
  | nil => cases hv
  | cons t ts ih =>
    rcases List.mem_cons.1 hv with rfl | hv
    · rw [question, Option.map_map]
      exact Option.map_id'
    · exact ih hv

theorem opens_audited (t : Transition) (s : ω) (l : List (GuardCall ω)) :
    inv.audited.opens t site (s, l) =
      ((⟨t, inv.question site t s⟩ : Verdict ω).answer, (inv.opens t site s).2,
        l ++ (inv.question site t s).toList) := by
  rw [opens, opens, question]
  cases hg : t.guard with
  | none => simp [Verdict.answer]
  | some e =>
    simp only [audited]
    rcases hr : inv.guard e site s with ⟨c | b, s'⟩ <;> simp [Verdict.answer, hr, Except.mapError]

theorem choose_audited (gate : Gate) (ts : List Transition) (s : ω) (l : List (GuardCall ω)) :
    ∃ s', inv.audited.choose gate site ts (s, l) =
      (Verdict.outcome (Verdict.heeded gate (inv.verdicts site ts s)), s',
        l ++ Verdict.calls (Verdict.heeded gate (inv.verdicts site ts s))) := by
  induction ts generalizing s l with
  | nil => exact ⟨s, by simp [choose, verdicts, Verdict.heeded, Verdict.outcome, Verdict.calls]⟩
  | cons t ts ih =>
    rw [choose, opens_audited, verdicts, Verdict.heeded]
    generalize hv : (⟨t, inv.question site t s⟩ : Verdict ω) = v
    have hq : inv.question site t s = v.call := by rw [← hv]
    obtain rfl : v.transition = t := by rw [← hv]
    rw [hq]
    obtain ⟨s', hs'⟩ := ih (inv.opens v.transition site s).2 (l ++ v.call.toList)
    have hcalls : ∀ vs, l ++ v.call.toList ++ Verdict.calls vs = l ++ Verdict.calls (v :: vs) := by
      intro vs
      cases hc : v.call <;> simp [Verdict.calls, hc]
    have hlone : l ++ v.call.toList = l ++ Verdict.calls [v] := by
      rw [← hcalls [], Verdict.calls, List.filterMap_nil, List.append_nil]
    rw [hcalls] at hs'
    rcases ha : v.answer with e | _ | _
    · have hset : v.settles gate = true := by simp [Verdict.settles, ha]
      exact ⟨(inv.opens v.transition site s).2, by simp [hset, Verdict.outcome, ha, hlone]⟩
    · have hset : v.settles gate = false := by simp [Verdict.settles, ha]
      refine ⟨s', ?_⟩
      simp only [hs', hset, Bool.false_eq_true, if_false, Verdict.outcome, ha]
      cases Verdict.outcome _ <;> rfl
    · cases gate with
      | or =>
        have hset : v.settles .or = true := by simp [Verdict.settles, ha]
        refine ⟨(inv.opens v.transition site s).2, ?_⟩
        simp [hset, Verdict.outcome, ha, hlone, Except.map]
      | and =>
        have hset : v.settles .and = false := by simp [Verdict.settles, ha]
        refine ⟨s', ?_⟩
        simp only [hs', hset, Bool.false_eq_true, if_false, Verdict.outcome, ha]
        cases Verdict.outcome _ <;> rfl

end Invoker

structure TakesFirst (vs : List (Verdict ω)) (r : Except EngineError (List Transition))
    (log : List (GuardCall ω)) : Prop where
  shut : (∀ v ∈ vs, v.answer = .ok false) → r = .ok [] ∧ log = Verdict.calls vs
  taken : ∀ before v after, vs = before ++ v :: after → (∀ u ∈ before, u.answer = .ok false) →
    v.answer = .ok true → r = .ok [v.transition] ∧ log = Verdict.calls (before ++ [v])
  fails : ∀ before v after c f, vs = before ++ v :: after → (∀ u ∈ before, u.answer = .ok false) →
    v.call = some c → c.answer = .error f →
    r = .error (.guard v.transition.id c.expression f) ∧ log = Verdict.calls (before ++ [v])

structure TakesAll (vs : List (Verdict ω)) (r : Except EngineError (List Transition))
    (log : List (GuardCall ω)) : Prop where
  taken : (∀ v ∈ vs, ∃ b, v.answer = .ok b) → r = .ok (Verdict.opened vs) ∧ log = Verdict.calls vs
  fails : ∀ before v after c f, vs = before ++ v :: after →
    (∀ u ∈ before, ∃ b, u.answer = .ok b) → v.call = some c → c.answer = .error f →
    r = .error (.guard v.transition.id c.expression f) ∧ log = Verdict.calls (before ++ [v])

namespace Verdict

variable {vs before after : List (Verdict ω)} {v : Verdict ω}

theorem answer_of_call {c : GuardCall ω} {f : InvokerError} (hc : v.call = some c)
    (hf : c.answer = .error f) : v.answer = .error (.guard v.transition.id c.expression f) := by
  simp [answer, hc, hf, Except.mapError]

theorem settles_of_shut {gate : Gate} (h : v.answer = .ok false) : v.settles gate = false := by
  simp [settles, h]

theorem settles_and_of_ok {b : Bool} (h : v.answer = .ok b) : v.settles .and = false := by
  simp [settles, h]

theorem settles_of_error {gate : Gate} {e : EngineError} (h : v.answer = .error e) :
    v.settles gate = true := by
  simp [settles, h]

theorem outcome_error {e : EngineError} (h : ∀ u ∈ before, ∃ b, u.answer = .ok b)
    (hv : v.answer = .error e) : outcome (before ++ [v]) = .error e := by
  rw [outcome_append h, outcome, hv]
  rfl

theorem outcome_ok (h : ∀ u ∈ vs, ∃ b, u.answer = .ok b) : outcome vs = .ok (opened vs) := by
  have hall : outcome (vs ++ []) = (outcome []).map (opened vs ++ ·) := outcome_append h
  rwa [outcome, Except.map, List.append_nil, List.append_nil] at hall

theorem opened_eq_nil (h : ∀ u ∈ vs, u.answer = .ok false) : opened vs = [] := by
  rw [opened, List.map_eq_nil_iff, List.filter_eq_nil_iff]
  intro u hu
  simp [isOpen, h u hu]

theorem takesFirst (vs : List (Verdict ω)) :
    TakesFirst vs (outcome (heeded .or vs)) (calls (heeded .or vs)) where
  shut h := by
    rw [heeded_self fun u hu => settles_of_shut (h u hu), outcome_ok fun u hu => ⟨_, h u hu⟩,
      opened_eq_nil h]
    exact ⟨rfl, rfl⟩
  taken before v after hvs h hv := by
    have hset : v.settles .or = true := by simp [settles, hv]
    rw [hvs, heeded_append fun u hu => settles_of_shut (h u hu), heeded_cons_of_settles hset,
      outcome_append fun u hu => ⟨_, h u hu⟩, opened_eq_nil h, outcome, hv]
    exact ⟨rfl, rfl⟩
  fails before v after c f hvs h hc hf := by
    have hv := answer_of_call hc hf
    rw [hvs, heeded_append fun u hu => settles_of_shut (h u hu),
      heeded_cons_of_settles (settles_of_error hv), outcome_error (fun u hu => ⟨_, h u hu⟩) hv]
    exact ⟨rfl, rfl⟩

theorem takesAll (vs : List (Verdict ω)) :
    TakesAll vs (outcome (heeded .and vs)) (calls (heeded .and vs)) where
  taken h := by
    rw [heeded_self fun u hu => (h u hu).elim fun _ => settles_and_of_ok, outcome_ok h]
    exact ⟨rfl, rfl⟩
  fails before v after c f hvs h hc hf := by
    have hv := answer_of_call hc hf
    rw [hvs, heeded_append fun u hu => (h u hu).elim fun _ => settles_and_of_ok,
      heeded_cons_of_settles (settles_of_error hv), outcome_error h hv]
    exact ⟨rfl, rfl⟩

theorem answer_error_iff :
    (∃ e, v.answer = .error e) ↔ ∃ c, v.call = some c ∧ ∃ f, c.answer = .error f := by
  rw [answer]
  rcases hc : v.call with _ | c
  · simp
  · rcases ha : c.answer with f | b <;> simp [Except.mapError, ha]

theorem outcome_error_iff :
    (∃ e, outcome vs = .error e) ↔ ∃ c ∈ calls vs, ∃ f, c.answer = .error f := by
  have hsome : (∃ e, outcome vs = .error e) ↔ ∃ v ∈ vs, ∃ e, v.answer = .error e := by
    induction vs with
    | nil => simp [outcome]
    | cons v vs ih =>
      rw [List.exists_mem_cons_iff, ← ih, outcome]
      rcases v.answer with e | b
      · simp
      · rcases outcome vs with e | l <;> simp [Except.map]
  rw [hsome, calls]
  constructor
  · rintro ⟨v, hv, he⟩
    obtain ⟨c, hc, hf⟩ := answer_error_iff.1 he
    exact ⟨c, List.mem_filterMap.2 ⟨v, hv, hc⟩, hf⟩
  · rintro ⟨c, hc, hf⟩
    obtain ⟨v, hv, hvc⟩ := List.mem_filterMap.1 hc
    exact ⟨v, hv, answer_error_iff.2 ⟨c, hvc, hf⟩⟩

end Verdict

namespace Workflow

theorem split_audited (w : Workflow) (x : Node) (inv : Invoker ω) (site : Site) (s : ω) :
    let vs := if x.isFinish then []
      else Verdict.heeded x.split (inv.verdicts site (w.outgoing x.id) s)
    ∃ s', w.split inv site x s = (Verdict.outcome vs, s') ∧
      w.split inv.audited site x (s, []) = (Verdict.outcome vs, s', Verdict.calls vs) ∧
      (x.isFinish = true → s' = s) := by
  intro vs
  have hsplit : ∃ s', w.split inv.audited site x (s, []) =
      (Verdict.outcome vs, s', Verdict.calls vs) ∧ (x.isFinish = true → s' = s) := by
    rw [split]
    cases hf : x.isFinish with
    | true => exact ⟨s, by simp [vs, hf, Verdict.outcome, Verdict.calls], fun _ => rfl⟩
    | false =>
      obtain ⟨s', hs'⟩ := inv.choose_audited site x.split (w.outgoing x.id) s []
      exact ⟨s', by simp [vs, hf, hs'], fun h => by cases h⟩
  obtain ⟨s', hs', hend⟩ := hsplit
  have hsame : Same (fun s p => p.1 = s) (w.split inv site x s)
      (w.split inv.audited site x (s, [])) := inv.sameCalls_audited.toSameGuards.split w site x rfl
  rw [hs'] at hsame
  exact ⟨s', hsame.eq_first, hs', hend⟩

theorem split_rule (w : Workflow) (x : Node) (inv : Invoker ω) (site : Site) (s : ω) :
    let vs := inv.verdicts site (w.outgoing x.id) s
    (w.outgoing x.id).Pairwise Transition.Before ∧
      (∀ t, t ∈ w.outgoing x.id ↔ w.transition? t.id = some t ∧ t.source = x.id) ∧
      vs.map (·.transition) = w.outgoing x.id ∧
      (∀ v ∈ vs, v.call.map (·.expression) = v.transition.guard) ∧
      ∃ r s' log, w.split inv site x s = (r, s') ∧
        w.split inv.audited site x (s, []) = (r, s', log) ∧
        (x.isFinish = true → r = .ok [] ∧ s' = s ∧ log = []) ∧
        (x.isFinish = false → x.split = .or → TakesFirst vs r log) ∧
        (x.isFinish = false → x.split = .and → TakesAll vs r log) ∧
        ((∃ e, r = .error e) ↔ ∃ c ∈ log, ∃ f, c.answer = .error f) := by
  intro vs
  obtain ⟨s', hs', haudited, hend⟩ := w.split_audited x inv site s
  refine ⟨pairwise_outgoing x.id, fun t => mem_outgoing_iff, inv.transition_verdicts site _ s,
    fun v hv => inv.expression_of_verdicts site hv, _, s', _, hs', haudited, fun h => ?_,
    fun h hg => ?_, fun h hg => ?_, Verdict.outcome_error_iff⟩
  · rw [if_pos h]
    exact ⟨rfl, hend h, rfl⟩
  · rw [if_neg (by simp [h]), hg]
    exact Verdict.takesFirst vs
  · rw [if_neg (by simp [h]), hg]
    exact Verdict.takesAll vs

def deskDraft : Draft where
  id := "desk"
  name := "Desk"
  model := "order"
  nodes := [
    { id := "desk", name := "Desk", kind := .start, split := .or },
    { id := "paid", name := "Paid", kind := .finish },
    { id := "held", name := "Held", kind := .finish },
    { id := "lost", name := "Lost", kind := .finish }]
  transitions := [
    { id := "lose", source := "desk", target := "lost", guard := some "broken", sequence := 3 },
    { id := "pay", source := "desk", target := "paid", guard := some "open", sequence := 2 },
    { id := "hold", source := "desk", target := "held", guard := some "shut", sequence := 1 }]

def desk : Workflow := deskDraft.build.toOption.get (by decide +kernel)

def deskInvoker : Invoker Unit :=
  let answer (e : String) :=
    if e = "shut" then .ok false else if e = "open" then .ok true else .error (.failed e)
  { steady (.ok .null) with guard := fun e _ s => (answer e, s) }

def deskSite : Site := { workflow := "desk", target := ⟨"order", "7"⟩ }

def deskNode : Node := { id := "desk", name := "Desk", kind := .start, split := .or }

def deskVerdict (t : TransitionId) (n : NodeId) (k : Int32) (e : String)
    (answer : Except InvokerError Bool) : Verdict Unit where
  transition := { id := t, source := "desk", target := n, guard := some e, sequence := k }
  call := some ⟨e, deskSite, (), answer⟩

theorem split_rule_desk :
    let before := [deskVerdict "hold" "held" 1 "shut" (.ok false)]
    let pay := deskVerdict "pay" "paid" 2 "open" (.ok true)
    let after := [deskVerdict "lose" "lost" 3 "broken" (.error (.failed "broken"))]
    deskInvoker.verdicts deskSite (desk.outgoing deskNode.id) () = before ++ pay :: after ∧
      deskNode.isFinish = false ∧ deskNode.split = .or ∧
      (∀ u ∈ before, u.answer = .ok false) ∧ pay.answer = .ok true ∧
      ∃ s', desk.split deskInvoker.audited deskSite deskNode ((), []) =
        (.ok [pay.transition], s', Verdict.calls (before ++ [pay])) := by
  intro before pay after
  have hvs : deskInvoker.verdicts deskSite (desk.outgoing deskNode.id) () =
      before ++ pay :: after := by
    cbv
  have hshut : ∀ u ∈ before, u.answer = .ok false := by
    intro u hu
    obtain rfl := List.mem_singleton.1 hu
    rfl
  obtain ⟨-, -, -, -, r, s', log, -, hrun, -, hor, -⟩ :=
    desk.split_rule deskNode deskInvoker deskSite ()
  obtain ⟨hr, hlog⟩ := (hor rfl rfl).taken before pay after hvs hshut rfl
  exact ⟨hvs, rfl, rfl, hshut, rfl, s', by rw [hrun, hr, hlog]⟩

end Workflow

end Flowgraph
