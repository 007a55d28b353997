import Flowgraph.Proofs.Engine.Commit
import Mathlib.Data.List.Nodup
import Mathlib.Logic.Function.Basic

namespace Flowgraph

abbrev Histories := InstanceId → List Instance

def Histories.add (H : Histories) (b : Instance) : Histories :=
  Function.update H b.id (H b.id ++ [b])

namespace Histories

variable {H : Histories} {b : Instance}

theorem add_self : H.add b b.id = H b.id ++ [b] := Function.update_self ..

theorem add_of_ne {id : InstanceId} (h : id ≠ b.id) : H.add b id = H id :=
  Function.update_of_ne h ..

theorem mem_add {id : InstanceId} {a : Instance} :
    a ∈ H.add b id ↔ a ∈ H id ∨ (a = b ∧ id = b.id) := by
  by_cases e : id = b.id
  · subst e
    rw [add_self]
    simp
  · rw [add_of_ne e]
    simp [e]

end Histories

namespace Store

variable {H : Histories} {s s' : Store} {i j b : Instance}

structure Recalls (s : Store) (H : Histories) : Prop where
  last : ∀ id, (H id).getLast? = s.load? id
  versions : ∀ id, (H id).map (·.version.toNat) = List.range' 1 (H id).length
  key : ∀ {id a}, a ∈ H id → a.id = id
  owner : ∀ {id a}, s.load? id = some a → s.slots.get? a.slot = some id

namespace Recalls

theorem congr (h : s.Recalls H) (hl : ∀ id, s'.load? id = s.load? id)
    (hs : s'.slots = s.slots) : s'.Recalls H where
  last id := (h.last id).trans (hl id).symm
  versions := h.versions
  key := h.key
  owner hload := by
    rw [hs]
    exact h.owner ((hl _).symm.trans hload)

theorem mem (h : s.Recalls H) {id : InstanceId} (hl : s.load? id = some i) : i ∈ H id :=
  List.mem_of_getLast? ((h.last id).trans hl)

theorem version_eq_length (h : s.Recalls H) {id : InstanceId} (hl : s.load? id = some i) :
    i.version.toNat = (H id).length := by
  have hlast : ((H id).map (·.version.toNat)).getLast? = some i.version.toNat := by
    rw [List.getLast?_map, h.last, hl, Option.map_some]
  rw [h.versions, List.getLast?_range'] at hlast
  split at hlast
  · cases hlast
  · have := Option.some.inj hlast
    omega

theorem eq_of_version (h : s.Recalls H) {id : InstanceId} (hi : i ∈ H id) (hj : j ∈ H id)
    (hv : i.version = j.version) : i = j := by
  have hn : ((H id).map (·.version.toNat)).Nodup := by
    rw [h.versions]
    exact List.nodup_range'
  exact List.inj_on_of_nodup_map hn hi hj (congrArg UInt64.toNat hv)

theorem add (h : s.Recalls H) (hw : Wrote s b s') (hv : b.version.toNat = (H b.id).length + 1)
    (hb : s'.slots.get? b.slot = some b.id)
    (hk : ∀ {k id}, s.slots.get? k = some id → s'.slots.get? k = some id) :
    s'.Recalls (H.add b) where
  last id := by
    by_cases e : id = b.id
    · subst e
      rw [Histories.add_self, List.getLast?_concat, hw.here]
    · rw [Histories.add_of_ne e, hw.elsewhere id e, h.last]
  versions id := by
    by_cases e : id = b.id
    · subst e
      rw [Histories.add_self, List.map_append, h.versions, List.length_append,
        List.length_singleton, List.range'_1_concat, List.map_singleton, hv, Nat.add_comm]
    · rw [Histories.add_of_ne e, h.versions]
  key ha := by
    rcases Histories.mem_add.1 ha with ha | ⟨rfl, rfl⟩
    · exact h.key ha
    · rfl
  owner {id a} hload := by
    by_cases e : id = b.id
    · subst e
      rw [hw.here] at hload
      cases hload
      exact hb
    · rw [hw.elsewhere id e] at hload
      exact hk (h.owner hload)

end Recalls

end Store

structure Instance.Genuine (c : Instance) (H : Histories)
    (drawn : Keyed InstanceId (WorkflowId × Target)) : Prop where
  slot : drawn.get? c.id = some c.slot
  stored : c.version ≠ 0 → c ∈ H c.id

theorem Instance.Genuine.mono {c : Instance} {H H' : Histories}
    {drawn drawn' : Keyed InstanceId (WorkflowId × Target)} (h : c.Genuine H drawn)
    (hH : ∀ {id a}, a ∈ H id → a ∈ H' id)
    (hd : ∀ {id k}, drawn.get? id = some k → drawn'.get? id = some k) : c.Genuine H' drawn' :=
  ⟨hd h.slot, fun hv => hH (h.stored hv)⟩

theorem Instance.genuine_add {b : Instance} {H : Histories}
    {drawn : Keyed InstanceId (WorkflowId × Target)} (h : drawn.get? b.id = some b.slot) :
    b.Genuine (H.add b) drawn :=
  ⟨h, fun _ => Histories.mem_add.2 (.inr ⟨rfl, rfl⟩)⟩

namespace Store

variable {H : Histories} {s s' : Store} {i j base : Instance}
  {drawn : Keyed InstanceId (WorkflowId × Target)}

theorem Recalls.commit (h : s.Recalls H) (hbase : base.Genuine H drawn)
    (hsame : i.id = base.id ∧ i.slot = base.slot ∧ i.version = base.version) {v : UInt64}
    (hc : s.commit i = (.ok v, s')) :
    base.version.next? = some v ∧ s'.Recalls (H.add { i with version := v }) ∧
      ∀ a, s.load? i.id = some a → a = base := by
  obtain ⟨hid, hslot, hver⟩ := hsame
  obtain ⟨hnext, hw, ⟨hv, hnone, hfree, hslots⟩ | ⟨hv, ⟨a, hl, ha⟩, hslots⟩⟩ := commit_ok hc
  · have hone := UInt64.next?_eq_some.1 hnext
    refine ⟨hver ▸ hnext, h.add hw ?_ ?_ ?_, fun a hl => ?_⟩
    · have hlast := (h.last i.id).trans hnone
      rw [List.getLast?_eq_none_iff] at hlast
      rw [hv] at hone
      rw [hlast]
      exact hone
    · rw [hslots]
      exact Keyed.get?_insert_self ..
    · intro k id hk
      rw [hslots]
      exact Keyed.get?_insert_of_free i.id hfree hk
    · rw [hnone] at hl
      cases hl
  · have hmem : base ∈ H i.id := by
      rw [hid]
      exact hbase.stored fun h0 => hv (hver.trans h0)
    have hab : a = base := h.eq_of_version (h.mem hl) hmem (ha.trans hver)
    have hone := UInt64.next?_eq_some.1 hnext
    refine ⟨hver ▸ hnext, h.add hw ?_ ?_ ?_, fun a' hl' => ?_⟩
    · have hlen := h.version_eq_length hl
      rw [ha] at hlen
      exact hone.trans (congrArg (· + 1) hlen)
    · have ho := h.owner hl
      rw [hslots]
      rw [hab, ← hslot] at ho
      exact ho
    · intro k id hk
      rw [hslots]
      exact hk
    · rw [hl] at hl'
      cases hl'
      exact hab

theorem Recalls.create (h : s.Recalls H) (hi : drawn.get? i.id = some i.slot)
    (hd : ∀ {id a}, a ∈ H id → drawn.get? id = some a.slot) (hc : s.create i = (.ok j, s')) :
    (s' = s ∧ ∃ id, s.load? id = some j) ∨
      (s.load? i.id = none ∧ j = { i with version := 1 } ∧ s'.Recalls (H.add j)) := by
  rcases create_ok hc with hold | ⟨hfree, rfl, hw, hslots⟩
  · exact .inl hold
  · have hnone : s.load? i.id = none := by
      cases hl : s.load? i.id with
      | none => rfl
      | some a =>
        have hslot : some i.slot = some a.slot := hi.symm.trans (hd (h.mem hl))
        have ho := h.owner hl
        rw [← Option.some.inj hslot, hfree] at ho
        cases ho
    refine .inr ⟨hnone, rfl, h.add hw ?_ ?_ ?_⟩
    · have hlast := (h.last i.id).trans hnone
      rw [List.getLast?_eq_none_iff] at hlast
      exact congrArg (fun l : List Instance => l.length + 1) hlast.symm
    · rw [hslots]
      exact Keyed.get?_insert_self ..
    · intro k id hk
      rw [hslots]
      exact Keyed.get?_insert_of_free i.id hfree hk

end Store

end Flowgraph
