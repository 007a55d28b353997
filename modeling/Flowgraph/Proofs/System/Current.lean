import Flowgraph.Proofs.System.Leasing

namespace Flowgraph

variable {γ : Type}

namespace Store

variable {H : Histories} {s s' : Store} {i j a : Instance}

theorem Recalls.version_ne_zero (h : s.Recalls H) {id : InstanceId} (ha : a ∈ H id) :
    a.version ≠ 0 := by
  have hv : a.version.toNat ∈ (H id).map (·.version.toNat) := List.mem_map_of_mem ha
  rw [h.versions, List.mem_range'_1] at hv
  intro hzero
  rw [hzero] at hv
  exact absurd hv.1 (by decide)

theorem Recalls.eq_or_version_lt (h : s.Recalls H) {id : InstanceId} (hi : i ∈ H id) :
    ∃ k, s.load? id = some k ∧ (i = k ∨ i.version < k.version) := by
  have hv : i.version.toNat ∈ (H id).map (·.version.toNat) := List.mem_map_of_mem hi
  rw [h.versions, List.mem_range'_1] at hv
  have hlast := h.last id
  rcases hl : s.load? id with _ | k
  · rw [hl, List.getLast?_eq_none_iff] at hlast
    rw [hlast] at hi
    cases hi
  · have hk := h.version_eq_length hl
    refine ⟨k, rfl, ?_⟩
    by_cases e : i.version.toNat = k.version.toNat
    · exact .inl (h.eq_of_version hi (h.mem hl) (UInt64.toNat_inj.1 e))
    · exact .inr (UInt64.lt_iff_toNat_lt.2 (by omega))

theorem Recalls.refreshed (h : s.Recalls H) (hi : i ∈ H i.id) :
    s.load? i.id = some (i.refreshed (s.load? i.id)) := by
  obtain ⟨k, hk, e | hlt⟩ := h.eq_or_version_lt hi
  · rw [hk, Instance.refreshed, ← e, if_neg (UInt64.lt_irrefl _)]
  · rw [hk, Instance.refreshed, if_pos hlt]

theorem Recalls.load_of_create {drawn : Keyed InstanceId (WorkflowId × Target)} (h : s.Recalls H)
    (hi : drawn.get? i.id = some i.slot) (hd : ∀ {id a}, a ∈ H id → drawn.get? id = some a.slot)
    (hc : s.create i = (.ok j, s')) {id : InstanceId} (hl : s.load? id = some a) :
    s'.load? id = some a := by
  rcases h.create hi hd hc with ⟨rfl, -⟩ | ⟨hnone, rfl, -⟩
  · exact hl
  · rcases create_ok hc with ⟨rfl, -⟩ | ⟨-, -, hw, -⟩
    · exact hl
    · rw [hw.elsewhere, hl]
      rintro rfl
      rw [hl] at hnone
      cases hnone

theorem commit_of_expected (hv : i.version ≠ 0) (hl : s.load? i.id = some a)
    (ha : a.version = i.version) {e : StoreError} (h : s.commit i = (.error e, s')) :
    e = .overflow i.id := by
  rw [commit, if_neg hv, hl] at h
  simp only [ha, ne_eq, not_true, if_false] at h
  split at h <;> cases h
  rfl

theorem create_error {e : StoreError} (h : s.create i = (.error e, s')) :
    ∃ id, e = .notFound id := by
  rw [create] at h
  split at h
  case h_1 owner _ =>
    split at h <;> cases h
    exact ⟨owner, rfl⟩
  case h_2 => cases h

end Store

namespace Engine

variable {inv : Invoker (Engine γ)} {g g' : Engine γ}

theorem read_error_isConflict {α : Type} {c : StoreCall} {look : Store → α} {e : StoreError}
    (h : g.read c look = (.error e, g')) : (EngineError.store e).isConflict = false := by
  rcases call_cases h with ⟨reason, ⟨⟩, -⟩ | hu
  · rfl
  · cases hu

theorem workflow_error_isConflict {id : WorkflowId} {e : EngineError}
    (h : g.workflow id = (.error e, g')) : e.isConflict = false := by
  rw [workflow] at h
  rcases hr : g.read .loadWorkflow (·.workflow? id) with ⟨c | _ | w, g₁⟩ <;> rw [hr] at h <;>
    cases h
  · exact read_error_isConflict hr
  · rfl

theorem selectFrom_error_isConflict {target : Target} {ws : List Workflow} {e : EngineError}
    (h : selectFrom inv target ws g = (.error e, g')) : e.isConflict = false := by
  induction ws generalizing g with
  | nil => cases h
  | cons w ws ih =>
    rw [selectFrom] at h
    split at h
    · exact ih h
    · split at h
      · cases h
      · split at h
        · cases h
          rfl
        · cases h
        · exact ih h

theorem workflowFor_error_isConflict {target : Target} {e : EngineError}
    (h : g.workflowFor inv target = (.error e, g')) : e.isConflict = false := by
  rw [workflowFor] at h
  rcases hr : g.read .workflowsForModel (·.workflowsFor target.model) with ⟨c | ws, g₁⟩ <;>
    rw [hr] at h
  · cases h
    exact read_error_isConflict hr
  · exact selectFrom_error_isConflict h

end Engine

theorem EngineError.RaisedIn.isConflict {w : Workflow} {e : EngineError} (h : e.RaisedIn w) :
    e.isConflict = false := by
  cases e with
  | store => cases h
  | _ => rfl

namespace Stage

def Current (st : Store) : Stage → Prop
  | refreshing lease _ _ i => lease = i.id
  | advancing lease _ _ base => lease = base.id ∧ st.load? base.id = some base
  | committing lease _ _ base _ _ => lease = base.id ∧ st.load? base.id = some base
  | _ => True

def Unrivalled (a : Stage) : Prop := ∀ e, a.error? = some e → e.isConflict = false

variable {config : Config} {inv : Invoker (Engine γ)} {turn : Turn} {a b : Stage}
  {g g' : Engine γ} {st st' : Store} {H : Histories}
  {drawn : Keyed InstanceId (WorkflowId × Target)}

theorem Current.mono (h : a.Current st) (hst : ∀ id k, a.lease? = some id → st.load? id = some k →
    st'.load? id = some k) : a.Current st' := by
  cases a with
  | refreshing => exact h
  | advancing =>
    obtain ⟨rfl, hl⟩ := h
    exact ⟨rfl, hst _ _ rfl hl⟩
  | committing =>
    obtain ⟨rfl, hl⟩ := h
    exact ⟨rfl, hst _ _ rfl hl⟩
  | _ => trivial

theorem load_of_next (hinv : inv.Detached) (h : next config inv turn a g = (b, g'))
    (ha : a.Computed config inv) (hc : a.Current g.store) (hrecalls : g.store.Recalls H)
    (hdrawn : ∀ {id k}, k ∈ H id → drawn.get? id = some k.slot)
    (hdraw : ∀ slot, a.draws? = some slot → drawn.get? turn.id = some slot)
    {id : InstanceId} {k : Instance} (hid : a.lease? ≠ some id) (hl : g.store.load? id = some k) :
    g'.store.load? id = some k := by
  have heff := next_effect hinv h ha
  generalize g'.store = st at heff
  cases heff with
  | quiet => exact hl
  | @create w target i _ ok =>
    exact hrecalls.load_of_create (i := .start w turn.id target turn.now)
      (hdraw (w.id, target) rfl) hdrawn ok hl
  | @commit lease w actor base i r v _ ok =>
    obtain ⟨-, hw, -⟩ := Store.commit_ok ok
    obtain ⟨rfl, -⟩ := hc
    rw [hw.elsewhere, hl]
    rintro rfl
    exact hid (congrArg some (Workflow.Derives.same ha).1.symm)

theorem Effect.versioned (h : Effect turn st a b st') (hrecalls : st.Recalls H)
    (ha : ∀ i, a.base? = some i → i.version ≠ 0) : ∀ i, b.base? = some i → i.version ≠ 0 := by
  intro i hi
  cases h with
  | quiet hfrom =>
    rcases hfrom i hi with hi | ⟨id, hl⟩
    · exact ha i hi
    · exact hrecalls.version_ne_zero (hrecalls.mem hl)
  | create ok =>
    cases hi
    rcases Store.create_ok ok with ⟨-, id, hl⟩ | ⟨-, rfl, -⟩
    · exact hrecalls.version_ne_zero (hrecalls.mem hl)
    · exact (by decide : (1 : UInt64) ≠ 0)
  | commit ok =>
    cases hi
    exact UInt64.ne_zero_of_next? (Store.commit_ok ok).1

theorem next_current (hinv : inv.Detached) (h : next config inv turn a g = (b, g'))
    (ha : a.Current g.store) (hrecalls : g.store.Recalls H)
    (hmem : ∀ i, a.base? = some i → i ∈ H i.id) : b.Current g'.store := by
  cases a with
  | leasing w actor i =>
    simp only [next] at h
    repeat' split at h
    all_goals cases h
    · rfl
    all_goals trivial
  | refreshing lease w actor i =>
    simp only [next] at h
    rcases hr : g.read .loadInstance (·.load? i.id) with ⟨e | stored, g₁⟩ <;> simp only [hr] at h
    · cases h
      trivial
    · obtain ⟨rfl, hs⟩ := Engine.read_ok hr
      have hl := hrecalls.refreshed (hmem i rfl)
      have hk := hrecalls.key (hrecalls.mem hl)
      split at h <;> cases h
      · trivial
      · refine ⟨ha.trans hk.symm, ?_⟩
        rw [hs, hk]
        exact hl
  | advancing lease w actor base =>
    rw [next] at h
    rcases hr : w.advance inv config.options turn.now actor (base.setRunning turn.now) g with
      ⟨r, i, g₁⟩
    obtain ⟨-, hhost, -⟩ := Workflow.advance_conduct (hinv g.host) hr
    have hcur : lease = base.id ∧ g₁.store.load? base.id = some base := by
      rw [Engine.store_eq_of_host (hhost rfl)]
      exact ha
    rw [hr] at h
    cases r with
    | ok r =>
      cases h
      exact hcur
    | error e =>
      simp only at h
      split at h <;> cases h
      · trivial
      · exact hcur
  | _ =>
    simp only [next] at h
    repeat' split at h
    all_goals
      cases h
      trivial

theorem settle_error_isConflict {base i j : Instance} {e : EngineError}
    (h : Engine.settle i base.snapshot g = (.error e, j, g')) (hid : i.id = base.id)
    (hv : i.version = base.version) (hbase : base.version ≠ 0)
    (hl : g.store.load? base.id = some base) : e.isConflict = false := by
  rw [Engine.settle] at h
  rcases hcall : g.call .commit (·.commit i) with ⟨c | v, g₁⟩ <;> rw [hcall] at h <;> cases h
  rcases Engine.call_cases hcall with ⟨reason, ⟨⟩, -⟩ | hcommit
  · rfl
  · obtain rfl := Store.commit_of_expected (hv ▸ hbase) (hid ▸ hl) hv.symm hcommit
    rfl

theorem next_unrivalled (hinv : inv.Detached) (h : next config inv turn a g = (b, g'))
    (ha : a.Computed config inv) (hcur : a.Current g.store)
    (hversioned : ∀ i, a.base? = some i → i.version ≠ 0) (he : a.Unrivalled) :
    b.Unrivalled := by
  cases a with
  | choosing target =>
    simp only [next] at h
    rcases hr : g.workflowFor inv target with ⟨e | _ | w, g₁⟩ <;> rw [hr] at h <;> cases h
    · rintro _ ⟨⟩
      exact Engine.workflowFor_error_isConflict hr
    · rintro _ ⟨⟩
    · rintro _ ⟨⟩
  | governing id target =>
    simp only [next] at h
    rcases hr : g.workflow id with ⟨e | w, g₁⟩ <;> simp only [hr] at h
    · cases h
      rintro _ ⟨⟩
      exact Engine.workflow_error_isConflict hr
    · split at h <;> cases h <;> rintro _ ⟨⟩
      rfl
  | finding w target =>
    simp only [next] at h
    rcases hr : g.read .findInstance (·.find? w.id target) with ⟨e | _ | i, g₁⟩ <;>
      rw [hr] at h <;> cases h <;> rintro _ ⟨⟩
    exact Engine.read_error_isConflict hr
  | creating w target =>
    simp only [next] at h
    rcases hr : g.skipId.call .createInstance (·.create (.start w turn.id target turn.now)) with
      ⟨e | i, g₁⟩ <;> rw [hr] at h <;> cases h <;> rintro _ ⟨⟩
    rcases Engine.call_cases hr with ⟨reason, ⟨⟩, -⟩ | hc
    · rfl
    · obtain ⟨id, rfl⟩ := Store.create_error hc
      rfl
  | opening actor i =>
    simp only [next] at h
    split at h
    · cases h
      rintro _ ⟨⟩
    · rcases hr : g.workflow i.workflow with ⟨e | w, g₁⟩ <;> rw [hr] at h <;> cases h <;>
        rintro _ ⟨⟩
      exact Engine.workflow_error_isConflict hr
  | leasing w actor i =>
    simp only [next] at h
    repeat' split at h
    all_goals
      cases h
      rintro _ ⟨⟩
    all_goals rfl
  | refreshing lease w actor i =>
    simp only [next] at h
    rcases hr : g.read .loadInstance (·.load? i.id) with ⟨e | stored, g₁⟩ <;> simp only [hr] at h
    · cases h
      rintro _ ⟨⟩
      exact Engine.read_error_isConflict hr
    · split at h <;> cases h <;> rintro _ ⟨⟩
  | advancing lease w actor base =>
    rw [next] at h
    rcases hr : w.advance inv config.options turn.now actor (base.setRunning turn.now) g with
      ⟨e | r, i, g₁⟩ <;> simp only [hr] at h
    · have hclear := ((Workflow.advance_conduct (hinv g.host) hr).2.2 e rfl).isConflict
      split at h <;> cases h <;> rintro _ ⟨⟩ <;> exact hclear
    · cases h
      rintro _ ⟨⟩
  | committing lease w actor base i r =>
    simp only [next] at h
    rcases hr : Engine.settle i base.snapshot g with ⟨e | _, j, g₁⟩ <;> rw [hr] at h
    · obtain ⟨hid, -, hver⟩ := Workflow.Derives.same ha
      cases h
      rintro _ ⟨⟩
      exact settle_error_isConflict hr hid hver (hversioned base rfl) hcur.2
    · cases r with
      | ok report =>
        cases h
        rintro _ ⟨⟩
      | error e =>
        cases h
        exact he
  | releasing lease i r =>
    cases h
    cases r <;> exact he
  | ended i r =>
    cases h
    exact he
  | left e =>
    cases h
    exact he

structure InOrder (st : Store) (a : Stage) : Prop where
  versioned : ∀ i, a.base? = some i → i.version ≠ 0
  current : a.Current st
  unrivalled : a.Unrivalled

theorem InOrder.mono (h : a.InOrder st) (hst : ∀ id k, a.lease? = some id → st.load? id = some k →
    st'.load? id = some k) : a.InOrder st' :=
  ⟨h.versioned, h.current.mono hst, h.unrivalled⟩

theorem InOrder.next (ho : a.InOrder g.store) (h : next config inv turn a g = (b, g'))
    (hinv : inv.Detached) (ha : a.Computed config inv) (hrecalls : g.store.Recalls H)
    (hgenuine : ∀ i, a.base? = some i → i.Genuine H drawn) : b.InOrder g'.store where
  versioned := (next_effect hinv h ha).versioned hrecalls ho.versioned
  current := next_current hinv h ho.current hrecalls fun i hi =>
    (hgenuine i hi).stored (ho.versioned i hi)
  unrivalled := next_unrivalled hinv h ha ho.current ho.versioned ho.unrivalled

end Stage

end Flowgraph
