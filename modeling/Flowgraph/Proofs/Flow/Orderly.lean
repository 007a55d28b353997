import Flowgraph.Proofs.Flow.Joins
import Flowgraph.Proofs.Flow.Splits
import Flowgraph.Proofs.Run.Conduct
import Flowgraph.Proofs.Run.Ready
import Mathlib.Order.WellFoundedSet

namespace Flowgraph

namespace Workflow

def Leads (w : Workflow) (m n : NodeId) : Prop := ∃ t ∈ w.outgoing m, t.target = n

structure WellStructured (w : Workflow) : Prop where
  acyclic : ∀ n, ¬ Relation.TransGen w.Leads n n
  joins : ∀ {n x}, w.node? n = some x → 2 ≤ (w.incoming n).length → x.join = .and

variable {w : Workflow}

theorem Leads.contains {m n : NodeId} (h : w.Leads m n) : w.contains m = true := by
  obtain ⟨t, ht, -⟩ := h
  obtain ⟨htr, rfl⟩ := mem_outgoing_iff.1 ht
  exact w.wellFormed.source_mem htr

theorem leads_of_mem_incoming {t : Transition} {n : NodeId} (ht : t ∈ w.incoming n) :
    w.Leads t.source n := by
  obtain ⟨htr, htgt⟩ := mem_incoming_iff.1 ht
  exact ⟨t, mem_outgoing_iff.2 ⟨htr, rfl⟩, htgt⟩

namespace WellStructured

theorem induct (hw : w.WellStructured) {P : NodeId → Prop}
    (step : ∀ n, (∀ m, w.Leads m n → P m) → P n) (n : NodeId) : P n := by
  have : IsTrans NodeId (Relation.TransGen w.Leads) := ⟨fun _ _ _ => Relation.TransGen.trans⟩
  have : Std.Irrefl (Relation.TransGen w.Leads) := ⟨hw.acyclic⟩
  have : IsStrictOrder NodeId (Relation.TransGen w.Leads) := {}
  have hwf : {m | m ∈ w.nodes.keys}.WellFoundedOn (Relation.TransGen w.Leads) :=
    (List.finite_toSet w.nodes.keys).wellFoundedOn
  have hmem : ∀ {m k}, w.Leads m k → m ∈ w.nodes.keys := fun h => Keyed.mem_keys_iff.2 h.contains
  -- a node that is not of the workflow is led to by nodes of it, if by any
  refine step n fun m hm => hwf.induction (hmem hm) fun k _ ih => step k fun l hl => ?_
  exact ih l (hmem hl) (.single hl)

theorem not_leads_root (hw : w.WellStructured) {m : NodeId}
    (hm : m = w.root ∨ Relation.TransGen w.Leads w.root m) : ¬ w.Leads m w.root := by
  intro hlead
  rcases hm with rfl | hpath
  · exact hw.acyclic w.root (.single hlead)
  · exact hw.acyclic w.root (hpath.tail hlead)

end WellStructured

end Workflow

namespace Instance

variable {w : Workflow} {i j : Instance} {F : List TransitionId} {ts taken : List Transition}
  {t : Transition} {now : Moment} {b record : Bool}

def accounted (i : Instance) (F : List TransitionId) : Instance :=
  { i with history := F.map fun t => ⟨0, t, "", "", i.created⟩ }

theorem fireCount_accounted (t : TransitionId) : (i.accounted F).fireCount t = F.count t := by
  have hids : (i.accounted F).history.map (·.transition) = F := by
    simp [accounted, Function.comp_def]
  rw [fireCount, hids]

theorem activate_accounted {n : NodeId} (h : i.activate w n now = (.ok b, j))
    (F : List TransitionId) : (i.accounted F).activate w n now = (.ok b, j.accounted F) := by
  have hspec := activate_spec i w n now
  rw [h] at hspec
  cases hspec with
  | stays owned known active => exact activate_of_active owned known active
  | enters owned known inactive room => exact activate_of_room owned known inactive room

theorem Arrives.accounted (h : Arrives w now t i b j) (F : List TransitionId) :
    Arrives w now t (i.accounted F) b (j.accounted F) := by
  cases h with
  | any hx hg enter => exact .any hx hg (activate_accounted enter F)
  | last hx hg hall enter => exact .last hx hg hall (activate_accounted enter F)
  | waits hx hg hu hm => exact .waits hx hg hu hm

theorem Arrives.workflow (h : Arrives w now t i b j) : j.workflow = i.workflow := by
  cases h with
  | any _ _ enter => exact (activate_evolves enter).workflow
  | last _ _ _ enter => exact (activate_evolves enter).workflow
  | waits => rfl

theorem Arrives.visits_le (h : Arrives w now t i b j) (n : NodeId) :
    (j.visits n).toNat ≤ (i.visits n).toNat + if t.target = n then 1 else 0 := by
  cases h with
  | any _ _ enter => exact (activate_steps enter).visits n
  | last _ _ _ enter => exact (activate_steps enter).visits n
  | waits => exact Nat.le_add_right _ _

theorem JoinsHold.congr (h : JoinsHold w ts i) (hv : ∀ n, j.visits n = i.visits n)
    (ha : j.arrivals = i.arrivals) (hf : ∀ t, j.fireCount t = i.fireCount t) :
    JoinsHold w ts j := by
  refine ⟨fun hx hg ht => ?_, fun hx hg => ?_, fun hget => h.waiting (ha ▸ hget)⟩
  · rw [hv, hf, hasArrived_congr ha]
    exact h.all hx hg ht
  · have hfires : ∀ l, j.firesOf l = i.firesOf l := fun l => by simp only [firesOf, hf]
    rw [hv, hfires]
    exact h.any hx hg

structure Orderly (w : Workflow) (F : List TransitionId) (ts : List Transition) (i : Instance) :
    Prop where
  workflow : i.workflow = w.id
  known : ∀ k ∈ F, ∃ t, w.transition? t.id = some t ∧ t.id = k
  recorded : (i.history.map (·.transition)).Sublist F
  joins : JoinsHold w ts (i.accounted F)
  entries : ∀ n, (i.visits n).toNat + (ts.filter (·.target = n)).length ≤
    ((w.incoming n).map fun t => F.count t.id).sum + w.startVisits n
  leaves : ∀ {t}, w.transition? t.id = some t →
    F.count t.id + (i.isActive t.source).toNat ≤ (i.visits t.source).toNat

namespace Orderly

theorem congr (h : Orderly w F ts i) (hworkflow : j.workflow = i.workflow)
    (hhistory : j.history = i.history) (hactive : j.active = i.active)
    (hvisits : j.visitCounts = i.visitCounts) (harrivals : j.arrivals = i.arrivals) :
    Orderly w F ts j := by
  have hv : ∀ n, j.visits n = i.visits n := fun n => by rw [visits, hvisits, visits]
  have ha : ∀ n, j.isActive n = i.isActive n := fun n => by rw [isActive, hactive, isActive]
  refine ⟨hworkflow.trans h.workflow, h.known, hhistory ▸ h.recorded,
    h.joins.congr hv harrivals fun t => ?_, fun n => ?_, fun {t} ht => ?_⟩
  · rw [fireCount_accounted, fireCount_accounted]
  · rw [hv]
    exact h.entries n
  · rw [hv, ha]
    exact h.leaves ht

theorem start (w : Workflow) (id : InstanceId) (target : Target) (now : Moment) :
    Orderly w [] [] (.start w id target now) where
  workflow := rfl
  known := by simp
  recorded := .refl []
  joins := joinsHold_start w id target now
  entries n := by
    rw [visits_start]
    simp
  leaves {t} _ := by
    rw [visits_eq_active_start]
    simp

theorem depart (record : Bool) (now : Moment) (hsel : w.Selects i.active.keys taken)
    (h : Orderly w F [] i) :
    Orderly w (F ++ taken.map (·.id)) taken (i.depart record now taken) where
  workflow := depart_evolves.workflow.trans h.workflow
  known k hk := by
    rcases List.mem_append.1 hk with hk | hk
    · exact h.known k hk
    · obtain ⟨t, ht, rfl⟩ := List.mem_map.1 hk
      exact ⟨t, hsel.transition ht, rfl⟩
  recorded := by
    rw [history_depart]
    cases record
    · simpa using h.recorded.trans (List.sublist_append_left ..)
    · exact h.recorded.append (.refl _)
  joins := by
    have hjoins : JoinsHold w taken ((i.accounted F).depart true now taken) :=
      joinsHold_depart hsel h.joins
    refine hjoins.congr (fun n => ?_) ?_ fun u => ?_
    · exact (visits_depart (i := i) n).trans (visits_depart (i := i.accounted F) n).symm
    · exact (arrivals_depart (i := i)).trans (arrivals_depart (i := i.accounted F)).symm
    · rw [fireCount_accounted, fireCount_depart, fireCount_accounted, List.count_append]
  entries n := by
    have hbefore := h.entries n
    have hsum : ((w.incoming n).map fun t => (F ++ taken.map (·.id)).count t.id).sum =
        ((w.incoming n).map fun t => F.count t.id).sum +
          (taken.filter (·.target = n)).length := by
      rw [← hsel.sum_incoming]
      simp only [List.count_append, List.sum_map_add]
    rw [List.filter_nil, List.length_nil] at hbefore
    rw [visits_depart, hsum]
    omega
  leaves {t} ht := by
    have hbefore := h.leaves ht
    obtain ⟨hone, hcount⟩ := hsel.count_le (Workflow.mem_outgoing_iff.2 ⟨ht, rfl⟩)
    have hactive : (i.depart record now taken).isActive t.source =
        (i.depart true now taken).isActive t.source := by rw [isActive_depart, isActive_depart]
    rw [visits_depart, List.count_append, hactive]
    rcases depart_balance hsel now t.source with ⟨hnone, hsame⟩ | ⟨-, -, hwas, hleft⟩
    · rw [hsame]
      omega
    · rw [hwas, Bool.toNat_true] at hbefore
      rw [hleft, Bool.toNat_false]
      omega

theorem arrives (ht : w.transition? t.id = some t) (ha : Arrives w now t i b j)
    (h : Orderly w F (t :: ts) i) : Orderly w F ts j := by
  obtain ⟨hhist, hbal, -⟩ := ha.balance
  refine ⟨ha.workflow.trans h.workflow, h.known, hhist ▸ h.recorded,
    joinsHold_arrives ht (ha.accounted F) h.joins, fun n => ?_, fun {u} hu => ?_⟩
  · have hbefore := h.entries n
    have hvis := ha.visits_le n
    rw [filter_cons_target] at hbefore
    omega
  · have hbefore := h.leaves hu
    have hflow := hbal u.source
    omega

theorem inflow (hw : w.WellStructured) (h : Orderly w F ts i) {n : NodeId} (ht : t ∈ w.incoming n)
    {k : Nat} (hcount : k ≤ (ts.map (·.id)).count t.id)
    (hfilter : k ≤ (ts.filter (·.target = n)).length) :
    (i.visits n).toNat + k ≤ F.count t.id + w.startVisits n := by
  obtain ⟨htr, rfl⟩ := Workflow.mem_incoming_iff.1 ht
  obtain ⟨x, hx⟩ := Option.isSome_iff_exists.1 (w.wellFormed.target_mem htr)
  by_cases htwo : 2 ≤ (w.incoming t.target).length
  · have hall := h.joins.all hx (hw.joins hx htwo) ht
    have hvis : (i.accounted F).visits t.target = i.visits t.target := rfl
    rw [hvis, fireCount_accounted] at hall
    omega
  · obtain ⟨u, hu⟩ : ∃ u, w.incoming t.target = [u] := by
      refine List.length_eq_one_iff.1 ?_
      have hpos := List.length_pos_of_mem ht
      omega
    have hentries := h.entries t.target
    rw [hu, List.mem_singleton] at ht
    subst ht
    rw [hu, List.map_singleton, List.sum_singleton] at hentries
    omega

theorem once (hw : w.WellStructured) (h : Orderly w F ts i) (n : NodeId) :
    (i.visits n).toNat ≤ 1 ∧
      ((i.visits n).toNat ≠ 0 → n = w.root ∨ Relation.TransGen w.Leads w.root n) := by
  -- along the transitions: what enters a node has fired out of nodes of which this is known
  refine hw.induct (P := fun n => (i.visits n).toNat ≤ 1 ∧
    ((i.visits n).toNat ≠ 0 → n = w.root ∨ Relation.TransGen w.Leads w.root n)) (fun n ih => ?_) n
  rcases hin : w.incoming n with _ | ⟨t, us⟩
  · have hentries := h.entries n
    rw [hin, List.map_nil, List.sum_nil, Nat.zero_add, Workflow.startVisits] at hentries
    split at hentries
    case isTrue e => exact ⟨by omega, fun _ => .inl e⟩
    case isFalse =>
      have hnone : (i.visits n).toNat = 0 := by omega
      exact ⟨by omega, fun hne => absurd hnone hne⟩
  · have ht : t ∈ w.incoming n := hin ▸ List.mem_cons_self
    have hlead := Workflow.leads_of_mem_incoming ht
    obtain ⟨hone, hreach⟩ := ih t.source hlead
    have hflow := h.inflow hw ht (Nat.zero_le _) (Nat.zero_le _)
    have hleave := h.leaves (Workflow.mem_incoming_iff.1 ht).1
    rw [Workflow.startVisits] at hflow
    split at hflow
    case isTrue e =>
      subst e
      have hnone : (i.visits t.source).toNat = 0 :=
        Classical.not_not.1 fun hne => hw.not_leads_root (hreach hne) hlead
      exact ⟨by omega, fun _ => .inl rfl⟩
    case isFalse =>
      refine ⟨by omega, fun hne => .inr ?_⟩
      rcases hreach (by omega) with e | hpath
      · exact .single (e ▸ hlead)
      · exact hpath.tail hlead

theorem fires_once (hw : w.WellStructured) (h : Orderly w F ts i)
    (ht : w.transition? t.id = some t) : F.count t.id + w.startVisits t.target ≤ 1 := by
  obtain ⟨hone, hreach⟩ := h.once hw t.source
  have hlead := Workflow.leads_of_mem_incoming (Workflow.mem_incoming_iff.2 ⟨ht, rfl⟩)
  have hleave := h.leaves ht
  rw [Workflow.startVisits]
  split
  case isTrue e =>
    have hnone : (i.visits t.source).toNat = 0 :=
      Classical.not_not.1 fun hne => hw.not_leads_root (hreach hne) (e ▸ hlead)
    omega
  case isFalse => omega

theorem nodup (hw : w.WellStructured) (h : Orderly w F ts i) : F.Nodup := by
  refine List.nodup_iff_count.2 fun k => ?_
  by_cases hk : k ∈ F
  · obtain ⟨t, ht, rfl⟩ := h.known k hk
    have hone := h.fires_once hw ht
    omega
  · rw [List.count_eq_zero_of_not_mem hk]
    exact Nat.zero_le 1

theorem room (hw : w.WellStructured) (h : Orderly w F (t :: ts) i)
    (ht : w.transition? t.id = some t) : (i.visits t.target).toNat = 0 := by
  have hone := h.fires_once hw ht
  have hflow := h.inflow hw (k := 1) (Workflow.mem_incoming_iff.2 ⟨ht, rfl⟩)
    (by simp) (by simp)
  omega

end Orderly

theorem activate_total {n : NodeId} (hi : i.workflow = w.id) (hn : w.contains n = true)
    (hv : (i.visits n).toNat = 0) : ∃ b j, i.activate w n now = (.ok b, j) := by
  have hlimit : w.visitLimit.toNat ≠ 0 := fun e =>
    w.wellFormed.limit_pos (UInt32.toNat_inj.1 e)
  cases ha : i.isActive n with
  | true => exact ⟨false, i, activate_of_active hi hn ha⟩
  | false => exact ⟨true, _, activate_of_room hi hn ha (by omega)⟩

theorem arrive_total (now : Moment) (hi : i.workflow = w.id) (ht : w.transition? t.id = some t)
    (hv : (i.visits t.target).toNat = 0) : ∃ b j, i.arrive w now t = (.ok b, j) := by
  have hc : w.contains t.target = true := w.wellFormed.target_mem ht
  obtain ⟨x, hx⟩ := Option.isSome_iff_exists.1 hc
  have hid := Workflow.node_id hx
  have hreq : w.requireNode t.target = .ok x := by
    rw [Workflow.requireNode, show w.node? t.target = some x from hx]
  have henter : ∀ k : Instance, k.workflow = i.workflow → k.visits t.target = i.visits t.target →
      ∃ b j, k.activate w t.target now = (.ok b, j) := fun k hk hvk =>
    activate_total (hk.trans hi) hc (hvk ▸ hv)
  rw [arrive, hreq]
  simp only [hid]
  cases x.join with
  | or =>
    simp only
    split
    · obtain ⟨b, j, ha⟩ := henter i rfl rfl
      exact ⟨b, j, by rw [ha]⟩
    · exact ⟨false, i, rfl⟩
  | and =>
    simp only
    split
    · obtain ⟨b, j, ha⟩ := henter ((i.recordArrival t.target t.id).clearArrivals t.target) rfl rfl
      exact ⟨b, j, by rw [ha]⟩
    · exact ⟨false, _, rfl⟩

theorem Orderly.arriveAll (now : Moment) (hw : w.WellStructured)
    (hts : ∀ t ∈ ts, w.transition? t.id = some t)
    (h : Orderly w F ts i) : ∃ ns j, i.arriveAll w now ts = (.ok ns, j) ∧ Orderly w F [] j := by
  induction ts generalizing i with
  | nil => exact ⟨[], i, rfl, h⟩
  | cons t ts ih =>
    have ht := hts t List.mem_cons_self
    obtain ⟨b, k, hk⟩ := arrive_total now h.workflow ht (h.room hw ht)
    obtain ⟨ns, j, hj, hend⟩ :=
      ih (fun u hu => hts u (List.mem_cons_of_mem _ hu)) (h.arrives ht (arrive_ok hk))
    rw [Instance.arriveAll, hk]
    simp only [hj]
    exact ⟨_, j, rfl, hend⟩

end Instance

end Flowgraph
