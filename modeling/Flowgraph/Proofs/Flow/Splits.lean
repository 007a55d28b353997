import Flowgraph.Proofs.Flow.Counts

namespace Flowgraph.Instance

variable {w : Workflow} {i j : Instance} {t : Transition} {now : Moment}

structure SplitsHold (w : Workflow) (i : Instance) : Prop where
  one : ∀ {n x}, w.node? n = some x → x.isFinish = false → x.split = .or →
    i.firesOf (w.outgoing n) + (i.isActive n).toNat = (i.visits n).toNat
  most : ∀ {n x t}, w.node? n = some x → x.isFinish = false → x.split = .and →
    t ∈ w.outgoing n → i.fireCount t.id + (i.isActive n).toNat ≤ (i.visits n).toNat
  least : ∀ {n x}, w.node? n = some x → x.isFinish = false → x.split = .and →
    (i.visits n).toNat ≤ i.firesOf (w.outgoing n) + (i.isActive n).toNat
  finish : ∀ {n}, w.isFinish n = true → i.firesOf (w.outgoing n) = 0

theorem firesOf_eq_zero (h : i.history = []) (ts : List Transition) : i.firesOf ts = 0 := by
  have hf : ∀ u, i.fireCount u = 0 := fun u => by simp [fireCount, h]
  induction ts with
  | nil => rfl
  | cons t ts ih =>
    rw [firesOf] at ih ⊢
    rw [List.map_cons, List.sum_cons, hf, ih]

theorem visits_eq_active_start (w : Workflow) (id : InstanceId) (target : Target) (now : Moment)
    (n : NodeId) : ((start w id target now).visits n).toNat =
      ((start w id target now).isActive n).toNat := by
  by_cases e : w.root = n
  · subst e
    simp [visits, isActive, start, Keyed.contains_add]
  · simp [visits, isActive, start, Keyed.contains_add, Keyed.get?_insert, e]

theorem splitsHold_start (w : Workflow) (id : InstanceId) (target : Target) (now : Moment) :
    SplitsHold w (.start w id target now) := by
  have hv := visits_eq_active_start w id target now
  have hf : ∀ ts, (start w id target now).firesOf ts = 0 := firesOf_eq_zero rfl
  refine ⟨fun {n x} _ _ _ => ?_, fun {n x t} _ _ _ _ => ?_, fun {n x} _ _ _ => ?_, fun _ => hf _⟩
  · rw [hf, hv, Nat.zero_add]
  · have hc : (start w id target now).fireCount t.id = 0 := rfl
    have hn := hv n
    omega
  · rw [hv]
    exact Nat.le_add_left _ _

theorem arriveAll_balance {ts : List Transition} {ns : List NodeId}
    (hts : ∀ t ∈ ts, w.transition? t.id = some t)
    (h : i.arriveAll w now ts = (.ok ns, j)) :
    j.history = i.history ∧
      (∀ n, (j.visits n).toNat + (i.isActive n).toNat =
        (i.visits n).toNat + (j.isActive n).toNat) ∧
      ∀ n, i.isActive n = true → j.isActive n = true := by
  refine arriveAll_run (Q := fun _ k => k.history = i.history ∧
      (∀ n, (k.visits n).toNat + (i.isActive n).toNat =
        (i.visits n).toNat + (k.isActive n).toNat) ∧
      ∀ n, i.isActive n = true → k.isActive n = true) ?_ hts h ⟨rfl, fun n => rfl, fun n h => h⟩
  rintro t ts k b m - ha ⟨hh, hb, hact⟩
  obtain ⟨hh', hb', hact'⟩ := ha.balance
  refine ⟨hh'.trans hh, fun n => ?_, fun n hn => hact' n (hact n hn)⟩
  have h₁ := hb n
  have h₂ := hb' n
  omega

theorem depart_balance {taken : List Transition} (hsel : w.Selects i.active.keys taken)
    (now : Moment) (n : NodeId) :
    ((taken.filter (·.source = n)).length = 0 ∧
        (i.depart true now taken).isActive n = i.isActive n) ∨
      (0 < (taken.filter (·.source = n)).length ∧ w.isFinish n = false ∧ i.isActive n = true ∧
        (i.depart true now taken).isActive n = false) := by
  rw [isActive_depart]
  rcases hl : taken.filter (·.source = n) with _ | ⟨t, ts⟩
  · have hn : (taken.map (·.source)).contains n = false := by
      refine Bool.eq_false_iff.2 fun hc => ?_
      obtain ⟨u, hu, hs⟩ := List.mem_map.1 (List.contains_iff_mem.1 hc)
      have hm : u ∈ taken.filter (·.source = n) := List.mem_filter.2 ⟨hu, by simpa using hs⟩
      rw [hl] at hm
      cases hm
    exact .inl ⟨by rw [hl, List.length_nil], by rw [hn, Bool.not_false, Bool.and_true]⟩
  · have ht : t ∈ taken.filter (·.source = n) := hl ▸ List.mem_cons_self
    obtain ⟨htaken, hs⟩ := List.mem_filter.1 ht
    have hsource : t.source = n := of_decide_eq_true hs
    have hactive : i.isActive n = true := hsource ▸ Keyed.mem_keys_iff.1 (hsel.source_mem t htaken)
    have hc : (taken.map (·.source)).contains n = true :=
      List.contains_iff_mem.2 (List.mem_map.2 ⟨t, htaken, hsource⟩)
    have hfinish : w.isFinish n = false := hsource ▸ hsel.not_finish t htaken
    exact .inr ⟨by rw [hl]; exact Nat.succ_pos _, hfinish, hactive, by rw [hc]; simp⟩

theorem splitsHold_fire {taken : List Transition} {ns : List NodeId}
    (hsel : w.Selects i.active.keys taken)
    (harr : (i.depart true now taken).arriveAll w now taken = (.ok ns, j))
    (h : SplitsHold w i) : SplitsHold w j := by
  obtain ⟨hhist, hbal, -⟩ := arriveAll_balance (fun t ht => hsel.transition ht) harr
  have hfire : ∀ u, j.fireCount u = i.fireCount u + (taken.map (·.id)).count u := fun u => by
    rw [fireCount_congr hhist, fireCount_depart]
  have hfires : ∀ n, j.firesOf (w.outgoing n) =
      i.firesOf (w.outgoing n) + (taken.filter (·.source = n)).length := fun n => by
    rw [firesOf_congr hhist, firesOf_depart, hsel.sum_outgoing]
  have hflow : ∀ n, (j.visits n).toNat + ((i.depart true now taken).isActive n).toNat =
      (i.visits n).toNat + (j.isActive n).toNat := fun n => by
    rw [hbal n, visits_depart]
  constructor
  · intro n x hx hfin hor
    have hone := h.one hx hfin hor
    have hle := hsel.single n x hx hor
    have hn := hflow n
    rw [hfires]
    rcases depart_balance hsel now n with ⟨hc, hd⟩ | ⟨hc, -, ha, hd⟩
    · rw [hd] at hn
      omega
    · rw [hd, Bool.toNat_false] at hn
      rw [ha, Bool.toNat_true] at hone
      omega
  · intro n x t hx hfin hand ht
    have hmost := h.most hx hfin hand ht
    obtain ⟨hc₁, hc₂⟩ := hsel.count_le ht
    have hn := hflow n
    rw [hfire]
    rcases depart_balance hsel now n with ⟨hc, hd⟩ | ⟨hc, -, ha, hd⟩
    · rw [hd] at hn
      omega
    · rw [hd, Bool.toNat_false] at hn
      rw [ha, Bool.toNat_true] at hmost
      omega
  · intro n x hx hfin hand
    have hleast := h.least hx hfin hand
    have hn := hflow n
    rw [hfires]
    rcases depart_balance hsel now n with ⟨hc, hd⟩ | ⟨hc, -, ha, hd⟩
    · rw [hd] at hn
      omega
    · rw [hd, Bool.toNat_false] at hn
      rw [ha, Bool.toNat_true] at hleast
      omega
  · intro n hfin
    rw [hfires, h.finish hfin, Nat.zero_add]
    rcases depart_balance hsel now n with ⟨hc, -⟩ | ⟨-, hf, -⟩
    · exact hc
    · rw [hfin] at hf
      cases hf

theorem splitsHold_move {taken : List Transition} {ns : List NodeId}
    (hm : w.Move true now i taken ns j) (h : SplitsHold w i) : SplitsHold w j := by
  cases hm with
  | finish => exact ⟨h.one, h.most, h.least, h.finish⟩
  | rest => exact ⟨h.one, h.most, h.least, h.finish⟩
  | fire _ hsel _ harr =>
    have hentered : SplitsHold w i.entered := ⟨h.one, h.most, h.least, h.finish⟩
    exact splitsHold_fire (i := i.entered) hsel harr hentered

theorem splitsHold_reaches (hi : SplitsHold w i)
    (h : w.Reaches (fun o => o.recordHistory = true) i j) : SplitsHold w j := by
  induction h with
  | refl => exact hi
  | pass _ ok step ih =>
    obtain ⟨taken, ns, hm, -⟩ := Workflow.pass_ok step
    rw [ok] at hm
    exact splitsHold_move hm ih
  | stop _ _ ih => exact ⟨ih.one, ih.most, ih.least, ih.finish⟩

theorem finish_active_move {record : Bool} {taken : List Transition} {ns : List NodeId}
    (hm : w.Move record now i taken ns j) {n : NodeId} (hn : w.isFinish n = true)
    (ha : i.isActive n = true) : j.isActive n = true := by
  cases hm with
  | finish => exact ha
  | rest => exact ha
  | fire _ hsel _ harr =>
    obtain ⟨-, -, hact⟩ := arriveAll_balance (fun t ht => hsel.transition ht) harr
    refine hact n ?_
    rw [isActive_depart]
    have hc : (taken.map (·.source)).contains n = false := by
      refine Bool.eq_false_iff.2 fun hc => ?_
      obtain ⟨u, hu, hs⟩ := List.mem_map.1 (List.contains_iff_mem.1 hc)
      have hf := hsel.not_finish u hu
      rw [hs, hn] at hf
      cases hf
    rw [hc, Bool.not_false, Bool.and_true]
    exact ha

theorem finish_active_reaches {allow : Options → Prop} (h : w.Reaches allow i j) {n : NodeId}
    (hn : w.isFinish n = true) (ha : i.isActive n = true) : j.isActive n = true := by
  induction h with
  | refl => exact ha
  | pass _ _ step ih =>
    obtain ⟨taken, ns, hm, -⟩ := Workflow.pass_ok step
    exact finish_active_move hm hn ih
  | stop _ _ ih => exact ih

theorem splits_conserve {id : InstanceId} {target : Target}
    (h : w.Reaches (fun o => o.recordHistory = true) (.start w id target now) i) :
    (∀ n x, w.node? n = some x → x.isFinish = false → x.split = .or →
        i.firesOf (w.outgoing n) + (i.isActive n).toNat = (i.visits n).toNat) ∧
      (∀ n x, w.node? n = some x → x.isFinish = false → x.split = .and →
        (∀ t ∈ w.outgoing n, i.fireCount t.id + (i.isActive n).toNat ≤ (i.visits n).toNat) ∧
          (i.visits n).toNat ≤ i.firesOf (w.outgoing n) + (i.isActive n).toNat) ∧
      ∀ n, w.isFinish n = true → i.firesOf (w.outgoing n) = 0 ∧
        ∀ j, w.Reaches (fun o => o.recordHistory = true) i j → i.isActive n = true →
          j.isActive n = true := by
  have hs := splitsHold_reaches (splitsHold_start w id target now) h
  refine ⟨fun n x hx hf hg => hs.one hx hf hg, fun n x hx hf hg => ?_, fun n hn => ?_⟩
  · exact ⟨fun t ht => hs.most hx hf hg ht, hs.least hx hf hg⟩
  · exact ⟨hs.finish hn, fun j hj ha => finish_active_reaches hj hn ha⟩

theorem splits_conserve_diamond :
    Workflow.diamond.Reaches (fun o => o.recordHistory = true) Workflow.diamondStart
        Workflow.diamondEnd ∧
      (Workflow.diamondEnd.visits "a").toNat = 1 ∧ Workflow.diamondEnd.fireCount "ab" = 1 ∧
      Workflow.diamondEnd.fireCount "ac" = 1 ∧ Workflow.diamondEnd.fireCount "bd" = 1 ∧
      (∀ t ∈ Workflow.diamond.outgoing "a", Workflow.diamondEnd.fireCount t.id +
        (Workflow.diamondEnd.isActive "a").toNat ≤ (Workflow.diamondEnd.visits "a").toNat) ∧
      Workflow.diamondEnd.firesOf (Workflow.diamond.outgoing "b") +
        (Workflow.diamondEnd.isActive "b").toNat = (Workflow.diamondEnd.visits "b").toNat := by
  have ha : (Workflow.diamond.node? "a").map (fun x => (x.isFinish, x.split)) =
      some (false, .and) := by decide +kernel
  have hb : (Workflow.diamond.node? "b").map (fun x => (x.isFinish, x.split)) =
      some (false, .or) := by decide +kernel
  obtain ⟨x, hx, hxs⟩ := Option.map_eq_some_iff.1 ha
  obtain ⟨y, hy, hys⟩ := Option.map_eq_some_iff.1 hb
  obtain ⟨hone, hall, -⟩ := splits_conserve Workflow.diamond_reaches
  refine ⟨Workflow.diamond_reaches, by cbv, by cbv, by cbv, by cbv, ?_, ?_⟩
  · exact (hall "a" x hx (congrArg Prod.fst hxs) (congrArg Prod.snd hxs)).1
  · exact hone "b" y hy (congrArg Prod.fst hys) (congrArg Prod.snd hys)

end Flowgraph.Instance
