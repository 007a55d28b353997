import Flowgraph.Proofs.Engine.Beside
import Flowgraph.Proofs.Flow.SplitRule
import Flowgraph.Proofs.Ranks

namespace Flowgraph

variable {γ : Type}

def Invoker.Traceless (inv : Invoker γ) : Prop := ∀ e site s, (inv.guard e site s).2 = s

def Registered (ws : List Workflow) (w : Workflow) : Prop :=
  ∃ before after, ws = before ++ w :: after ∧ ∀ v ∈ after, v.id ≠ w.id

theorem registered_concat {ws : List Workflow} {v w : Workflow} :
    Registered (ws ++ [v]) w ↔ w = v ∨ Registered ws w ∧ v.id ≠ w.id := by
  constructor
  · rintro ⟨before, after, h, hafter⟩
    rcases List.eq_nil_or_concat after with rfl | ⟨rest, u, rfl⟩
    · exact .inl (List.concat_inj.1 (by simpa using h)).2.symm
    · rw [List.concat_eq_append] at h hafter
      rw [← List.cons_append, ← List.append_assoc] at h
      obtain ⟨hws, rfl⟩ := List.append_singleton_inj.1 h
      refine .inr ⟨⟨before, rest, hws, fun x hx => hafter x ?_⟩, hafter v ?_⟩
      · exact List.mem_append_left _ hx
      · exact List.mem_append_right _ (List.mem_singleton_self v)
  · rintro (rfl | ⟨⟨before, after, rfl, hafter⟩, hne⟩)
    · exact ⟨ws, [], rfl, fun x hx => by cases hx⟩
    · refine ⟨before, after ++ [v], by simp, fun x hx => ?_⟩
      rcases List.mem_append.1 hx with hx | hx
      · exact hafter x hx
      · obtain rfl := List.mem_singleton.1 hx
        exact hne

def catalogue (ws : List Workflow) : Keyed WorkflowId Workflow :=
  .ofList (ws.map fun w => (w.id, w))

theorem catalogue_concat (ws : List Workflow) (v : Workflow) :
    catalogue (ws ++ [v]) = (catalogue ws).insert v.id v := by
  rw [catalogue, Keyed.ofList, List.map_append, List.foldl_append]
  rfl

theorem get?_catalogue {ws : List Workflow} {k : WorkflowId} {w : Workflow} :
    (catalogue ws).get? k = some w ↔ Registered ws w ∧ w.id = k := by
  induction ws using List.reverseRecOn with
  | nil =>
    constructor
    · intro h
      cases h
    · rintro ⟨⟨before, after, h, -⟩, -⟩
      simp at h
  | append_singleton ws v ih =>
    rw [catalogue_concat, Keyed.get?_insert, registered_concat]
    by_cases hk : v.id = k
    · subst hk
      rw [if_pos rfl, Option.some.injEq]
      constructor
      · rintro rfl
        exact ⟨.inl rfl, rfl⟩
      · rintro ⟨rfl | ⟨-, hne⟩, hid⟩
        · rfl
        · exact absurd hid.symm hne
    · rw [if_neg hk, ih]
      constructor
      · rintro ⟨hw, rfl⟩
        exact ⟨.inr ⟨hw, hk⟩, rfl⟩
      · rintro ⟨rfl | ⟨hw, -⟩, rfl⟩
        · exact absurd rfl hk
        · exact ⟨hw, rfl⟩

theorem catalogue_congr {ws ws' : List Workflow} (h : ∀ w, Registered ws' w ↔ Registered ws w) :
    catalogue ws' = catalogue ws := by
  refine Keyed.ext fun k => Option.ext fun w => ?_
  rw [get?_catalogue, get?_catalogue, h]

namespace Workflow

def Before (a b : Workflow) : Prop :=
  a.sequence < b.sequence ∨ a.sequence = b.sequence ∧ a.id < b.id

theorem ranks : Ranks precedes (·.sequence) (·.id) := fun a b => by simp [precedes]

def ruling (inv : Invoker γ) (target : Target) (s : γ) (w : Workflow) : Except InvokerError Bool :=
  match w.condition with
  | none => .ok true
  | some e => (inv.guard e { workflow := w.id, target } s).1

def conditionCalls (inv : Invoker γ) (target : Target) (s : γ) (ws : List Workflow) :
    List (GuardCall γ) :=
  ws.filterMap fun w => w.condition.map fun e =>
    let site : Site := { workflow := w.id, target }
    ⟨e, site, s, (inv.guard e site s).1⟩

end Workflow

namespace Engine

def registerAll (g : Engine γ) (ws : List Workflow) : Engine γ :=
  ws.foldl (fun g w => (g.register w).2) g

theorem spend_clear {g : Engine γ} (h : g.outages = fun _ => []) (c : StoreCall) :
    g.spend c = g := by
  obtain ⟨store, outages, leases, supply, guest⟩ := g
  subst h
  simp [spend]

theorem registerAll_new (guest : γ) (ws : List Workflow) :
    (new guest).registerAll ws =
      { new guest with store := { Store.empty with workflows := catalogue ws } } := by
  induction ws using List.reverseRecOn with
  | nil => rfl
  | append_singleton ws v ih =>
    rw [registerAll, List.foldl_append] at *
    rw [List.foldl_cons, List.foldl_nil, ih, register, call_of_clear rfl, spend_clear rfl,
      catalogue_concat]
    rfl

theorem workflowFor_clear {g : Engine γ} (h : g.outages = fun _ => [])
    (inv : Invoker (Engine γ)) (target : Target) :
    workflowFor inv target g = selectFrom inv target (g.store.workflowsFor target.model) g := by
  have hout : g.outage? .workflowsForModel = none := by rw [outage?, h]; rfl
  rw [workflowFor, read_of_clear hout, spend_clear h]

structure SelectsFirst (inv : Invoker γ) (target : Target) (s : γ) (ws : List Workflow)
    (r : Except EngineError (Option Workflow)) (log : List (GuardCall γ)) : Prop where
  none : (∀ w ∈ ws, w.ruling inv target s = .ok false) →
    r = .ok none ∧ log = Workflow.conditionCalls inv target s ws
  applies : ∀ before w after, ws = before ++ w :: after →
    (∀ v ∈ before, v.ruling inv target s = .ok false) → w.ruling inv target s = .ok true →
    r = .ok (some w) ∧ log = Workflow.conditionCalls inv target s (before ++ [w])
  fails : ∀ before w after e f, ws = before ++ w :: after →
    (∀ v ∈ before, v.ruling inv target s = .ok false) → w.condition = some e →
    w.ruling inv target s = .error f →
    r = .error (.condition w.id e f) ∧ log = Workflow.conditionCalls inv target s (before ++ [w])

section Looking

variable {inv : Invoker γ} {target : Target} {g : Engine γ} {w : Workflow}
  {ws before : List Workflow} {l : List (GuardCall γ)}

theorem selectFrom_filter (inv : Invoker (Engine γ)) (target : Target) (ws : List Workflow)
    (g : Engine γ) :
    selectFrom inv target (ws.filter (·.active)) g = selectFrom inv target ws g := by
  induction ws generalizing g with
  | nil => rfl
  | cons w ws ih =>
    cases ha : w.active with
    | false => simp [selectFrom, ha, ih]
    | true => simp [selectFrom, ha, ih]

theorem guard_withCalls (hinv : inv.Traceless) (e : String) (site : Site) :
    inv.audited.onGuest.guard e site (g.withCalls l) =
      ((inv.guard e site g.guest).1,
        g.withCalls (l ++ [⟨e, site, g.guest, (inv.guard e site g.guest).1⟩])) := by
  simp only [Invoker.onGuest, Invoker.audited, withCalls, hinv e site g.guest]

theorem exists_selectFrom (hinv : inv.Traceless) (target : Target)
    (ws : List Workflow) (l : List (GuardCall γ)) :
    ∃ r log, selectFrom inv.audited.onGuest target ws (g.withCalls l) = (r, g.withCalls log) := by
  induction ws generalizing l with
  | nil => exact ⟨_, l, rfl⟩
  | cons w ws ih =>
    rw [selectFrom]
    split
    · exact ih l
    rcases w.condition with _ | e
    · exact ⟨_, l, rfl⟩
    simp only [guard_withCalls hinv]
    rcases (inv.guard e { workflow := w.id, target } g.guest).1 with f | b
    · exact ⟨_, _, rfl⟩
    cases b with
    | true => exact ⟨_, _, rfl⟩
    | false => exact ih _

theorem selectFrom_append (hinv : inv.Traceless)
    (hactive : ∀ v ∈ before, v.active = true)
    (h : ∀ v ∈ before, v.ruling inv target g.guest = .ok false) :
    selectFrom inv.audited.onGuest target (before ++ ws) (g.withCalls l) =
      selectFrom inv.audited.onGuest target ws
        (g.withCalls (l ++ Workflow.conditionCalls inv target g.guest before)) := by
  induction before generalizing l with
  | nil => simp [Workflow.conditionCalls]
  | cons v before ih =>
    have hv := h v List.mem_cons_self
    have hrest := fun l => @ih l (fun u hu => hactive u (List.mem_cons_of_mem _ hu))
      fun u hu => h u (List.mem_cons_of_mem _ hu)
    rw [List.cons_append, selectFrom, hactive v List.mem_cons_self]
    rw [Workflow.ruling] at hv
    rcases hc : v.condition with _ | e <;> simp only [hc] at hv
    · cases hv
    · simp [guard_withCalls hinv, hv, hrest, Workflow.conditionCalls, hc]

theorem selectFrom_applies (hinv : inv.Traceless)
    (hactive : w.active = true) (h : w.ruling inv target g.guest = .ok true) :
    selectFrom inv.audited.onGuest target (w :: ws) (g.withCalls l) =
      (.ok (some w), g.withCalls (l ++ Workflow.conditionCalls inv target g.guest [w])) := by
  rw [selectFrom, hactive]
  rw [Workflow.ruling] at h
  rcases hc : w.condition with _ | e <;> simp only [hc] at h
  · simp [Workflow.conditionCalls, hc]
  · simp [guard_withCalls hinv, h, Workflow.conditionCalls, hc]

theorem selectFrom_fails (hinv : inv.Traceless)
    (hactive : w.active = true) {e : String} (hc : w.condition = some e) {f : InvokerError}
    (h : w.ruling inv target g.guest = .error f) :
    selectFrom inv.audited.onGuest target (w :: ws) (g.withCalls l) =
      (.error (.condition w.id e f),
        g.withCalls (l ++ Workflow.conditionCalls inv target g.guest [w])) := by
  rw [selectFrom, hactive]
  simp only [Workflow.ruling, hc] at h
  simp [guard_withCalls hinv, h, Workflow.conditionCalls, hc]

theorem selectFrom_selectsFirst (hinv : inv.Traceless)
    (hactive : ∀ w ∈ ws, w.active = true) :
    ∃ r log, selectFrom inv.audited.onGuest target ws (g.withCalls []) = (r, g.withCalls log) ∧
      SelectsFirst inv target g.guest ws r log := by
  obtain ⟨r, log, h⟩ : ∃ r log, selectFrom inv.audited.onGuest target ws (g.withCalls []) =
      (r, g.withCalls log) := exists_selectFrom hinv target ws []
  have hread : ∀ {r' log'}, selectFrom inv.audited.onGuest target ws (g.withCalls []) =
      (r', g.withCalls log') → r = r' ∧ log = log' := by
    intro r' log' h'
    rw [h] at h'
    obtain ⟨hr, hlog⟩ := Prod.mk.inj h'
    exact ⟨hr, congrArg (fun k => k.guest.2) hlog⟩
  refine ⟨r, log, h, fun hshut => hread ?_, fun before w after hws hshut hw => hread ?_,
    fun before w after e f hws hshut hc hw => hread ?_⟩
  · rw [← List.append_nil ws, selectFrom_append hinv hactive hshut, List.append_nil]
    rfl
  · subst hws
    have hbefore := fun v hv => hactive v (List.mem_append_left _ hv)
    rw [selectFrom_append hinv hbefore hshut, selectFrom_applies hinv (hactive w (by simp)) hw]
    simp [Workflow.conditionCalls]
  · subst hws
    have hbefore := fun v hv => hactive v (List.mem_append_left _ hv)
    rw [selectFrom_append hinv hbefore hshut, selectFrom_fails hinv (hactive w (by simp)) hc hw]
    simp [Workflow.conditionCalls]

theorem selectFrom_onGuest {r : Except EngineError (Option Workflow)} {log : List (GuardCall γ)}
    (h : selectFrom inv.audited.onGuest target ws (g.withCalls l) = (r, g.withCalls log)) :
    selectFrom inv.onGuest target ws g = (r, g) := by
  have hg : g.Beside (fun s p => p.1 = s) (g.withCalls l) := beside_withCalls rfl
  have hsame := hg.selectFrom inv.sameCalls_audited target ws
  rw [h] at hsame
  generalize selectFrom inv.onGuest target ws g = p at hsame ⊢
  cases hsame with
  | mk a hk => rw [hk.eq_of_withCalls]

end Looking

section Listing

variable {ws : List Workflow} {w : Workflow} (model : String)

theorem nodup_model_ids (ws : List Workflow) :
    (((catalogue ws).values.filter (·.model = model)).map (·.id)).Nodup := by
  have hids : ((catalogue ws).values.map (·.id)).Nodup := by
    rw [Keyed.map_values_key fun h => (get?_catalogue.1 h).2]
    exact Keyed.nodup_keys _
  exact hids.sublist (List.filter_sublist.map _)

variable {model} in
theorem mem_workflowsFor {s : Store} (hs : s.workflows = catalogue ws) :
    w ∈ s.workflowsFor model ↔ Registered ws w ∧ w.model = model := by
  rw [Store.workflowsFor, List.mem_mergeSort, List.mem_filter, Keyed.mem_values_iff, hs]
  simp [get?_catalogue]

end Listing

theorem selects_first_match (inv : Invoker γ) (hinv : inv.Traceless)
    (guest : γ) (ws : List Workflow) (target : Target) :
    let g := (new guest).registerAll ws
    ∃ C r log,
      (∀ w, w ∈ C ↔ Registered ws w ∧ w.active = true ∧ w.model = target.model) ∧
      C.Pairwise Workflow.Before ∧
      workflowFor inv.onGuest target g = (r, g) ∧
      workflowFor inv.audited.onGuest target (g.withCalls []) = (r, g.withCalls log) ∧
      SelectsFirst inv target guest C r log ∧
      (∀ ws', (∀ w, Registered ws' w ↔ Registered ws w) →
        (workflowFor inv.onGuest target ((new guest).registerAll ws')).1 = r) ∧
      ∀ listed : List Workflow, listed.Perm g.store.workflows.values →
        (selectFrom inv.onGuest target
          ((listed.filter (·.model = target.model)).mergeSort Workflow.precedes) g).1 = r := by
  intro g
  have hg : g = { new guest with store := { Store.empty with workflows := catalogue ws } } :=
    registerAll_new guest ws
  have hstore : g.store.workflows = catalogue ws := by rw [hg]
  generalize hC : (g.store.workflowsFor target.model).filter (·.active) = C
  have hmem : ∀ w, w ∈ C ↔ Registered ws w ∧ w.active = true ∧ w.model = target.model := by
    intro w
    rw [← hC, List.mem_filter, mem_workflowsFor hstore, and_assoc, @and_comm (w.model = _)]
  have hsorted : C.Pairwise Workflow.Before := by
    rw [← hC, Store.workflowsFor, hstore]
    exact (Workflow.ranks.strictly_sorted (nodup_model_ids target.model ws)).filter _
  obtain ⟨r, log, hselect, hfirst⟩ : ∃ r log,
      selectFrom inv.audited.onGuest target C (g.withCalls []) = (r, g.withCalls log) ∧
        SelectsFirst inv target g.guest C r log :=
    selectFrom_selectsFirst hinv fun w hw => ((hmem w).1 hw).2.1
  have hclear : g.outages = fun _ => [] := by rw [hg]; rfl
  have hlog : (g.withCalls []).outages = fun _ => [] := hclear
  have haudited : workflowFor inv.audited.onGuest target (g.withCalls []) =
      (r, g.withCalls log) := by
    rw [workflowFor_clear hlog, ← selectFrom_filter]
    exact hC ▸ hselect
  have hplain : selectFrom inv.onGuest target (g.store.workflowsFor target.model) g = (r, g) := by
    rw [← selectFrom_filter, hC]
    exact selectFrom_onGuest hselect
  refine ⟨C, r, log, hmem, hsorted, by rw [workflowFor_clear hclear, hplain], haudited, ?_, ?_, ?_⟩
  · have hguest : g.guest = guest := by rw [hg]; rfl
    exact hguest ▸ hfirst
  · intro ws' hws
    have hsame : (new guest).registerAll ws' = g := by
      rw [hg, registerAll_new, catalogue_congr hws]
    rw [hsame, workflowFor_clear hclear, hplain]
  · intro listed hlisted
    have hlist : (listed.filter (·.model = target.model)).mergeSort Workflow.precedes =
        g.store.workflowsFor target.model := by
      rw [hstore] at hlisted
      rw [Store.workflowsFor, hstore]
      exact Workflow.ranks.mergeSort_perm (nodup_model_ids target.model ws) (hlisted.filter _)
    rw [hlist, hplain]

def offer (id : WorkflowId) (sequence : Int32) (condition : String) : Workflow :=
  let d : Draft := {
    id, name := id, model := "order", sequence, condition := some condition
    nodes := [{ id := "a", name := "A", kind := .start }], transitions := [] }
  d.build.toOption.getD Workflow.diamond

def offers : List Workflow := [offer "late" 2 "broken", offer "early" 1 "open"]

theorem selects_first_match_offers :
    Workflow.deskInvoker.Traceless ∧
      ∃ C w log,
        workflowFor Workflow.deskInvoker.audited.onGuest ⟨"order", "7"⟩
            (((new ()).registerAll offers).withCalls []) =
          (.ok (some w), ((new ()).registerAll offers).withCalls log) ∧
        w.id = "early" ∧
        SelectsFirst Workflow.deskInvoker ⟨"order", "7"⟩ () C (.ok (some w)) log := by
  have hinv : Workflow.deskInvoker.Traceless := fun _ _ _ => rfl
  let store : Store := { Store.empty with workflows := catalogue offers }
  have hread : (selectFrom Workflow.deskInvoker.onGuest ⟨"order", "7"⟩
      (store.workflowsFor "order") { new () with store }).1.map (Option.map (·.id)) =
        .ok (some "early") := by cbv
  obtain ⟨C, r, log, -, -, hplain, haudited, hfirst, -, -⟩ :=
    selects_first_match Workflow.deskInvoker hinv () offers ⟨"order", "7"⟩
  rw [registerAll_new, workflowFor_clear rfl] at hplain
  rw [hplain] at hread
  rcases r with e | _ | w
  · cases hread
  · cases hread
  · exact ⟨hinv, C, w, log, haudited, Option.some.inj (Except.ok.inj hread), hfirst⟩

end Engine

end Flowgraph
