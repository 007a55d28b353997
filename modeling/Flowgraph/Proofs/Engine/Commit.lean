import Flowgraph.Engine.Store

namespace Flowgraph.Store

variable {s s' : Store} {i j : Instance}

theorem load_put (i : Instance) (id : InstanceId) :
    (s.put i).load? id = if i.id = id then some i else s.load? id :=
  Keyed.get?_insert s.instances i.id id i

structure Wrote (s : Store) (j : Instance) (s' : Store) : Prop where
  here : s'.load? j.id = some j
  elsewhere : ∀ id, id ≠ j.id → s'.load? id = s.load? id
  workflows : s'.workflows = s.workflows

theorem wrote_of_load (h : ∀ id, s'.load? id = (s.put j).load? id)
    (hw : s'.workflows = s.workflows) : Wrote s j s' where
  here := by rw [h, load_put, if_pos rfl]
  elsewhere id hid := by rw [h, load_put, if_neg fun e => hid e.symm]
  workflows := hw

theorem commitNew_ok {v : UInt64} (h : s.commitNew i = (.ok v, s')) :
    v = 1 ∧ Wrote s { i with version := 1 } s' ∧ s.load? i.id = none ∧
      s.slots.get? i.slot = none ∧ s'.slots = s.slots.insert i.slot i.id := by
  rw [commitNew] at h
  split at h
  · cases h
  case h_2 hslot =>
    split at h
    · cases h
    case h_2 hid =>
      cases h
      exact ⟨rfl, wrote_of_load (fun _ => rfl) rfl, hid, hslot, rfl⟩

theorem commit_ok {v : UInt64} (h : s.commit i = (.ok v, s')) :
    i.version.next? = some v ∧ Wrote s { i with version := v } s' ∧
      ((i.version = 0 ∧ s.load? i.id = none ∧ s.slots.get? i.slot = none ∧
          s'.slots = s.slots.insert i.slot i.id) ∨
        (i.version ≠ 0 ∧ (∃ stored, s.load? i.id = some stored ∧ stored.version = i.version) ∧
          s'.slots = s.slots)) := by
  rw [commit] at h
  split at h
  case isTrue hv =>
    obtain ⟨rfl, hw, hid, hslot, hs⟩ := commitNew_ok h
    exact ⟨by rw [hv]; rfl, hw, .inl ⟨hv, hid, hslot, hs⟩⟩
  case isFalse hv =>
    split at h
    · cases h
    case h_2 stored hl =>
      split at h
      · cases h
      case isFalse he =>
        have he' : stored.version = i.version := Decidable.not_not.1 he
        split at h
        · cases h
        case h_2 hnext =>
          cases h
          exact ⟨he' ▸ hnext, wrote_of_load (fun _ => rfl) rfl, .inr ⟨hv, ⟨stored, hl, he'⟩, rfl⟩⟩

theorem commit_unchanged {e : StoreError} (h : s.commit i = (.error e, s')) : s' = s := by
  rw [commit, commitNew] at h
  repeat' split at h
  all_goals cases h
  all_goals rfl

theorem create_ok (h : s.create i = (.ok j, s')) :
    (s' = s ∧ ∃ id, s.load? id = some j) ∨
      (s.slots.get? i.slot = none ∧ j = { i with version := 1 } ∧ Wrote s j s' ∧
        s'.slots = s.slots.insert i.slot i.id) := by
  rw [create] at h
  split at h
  case h_1 owner _ =>
    split at h
    case h_1 stored hl =>
      cases h
      exact .inl ⟨rfl, owner, hl⟩
    case h_2 => cases h
  case h_2 hslot =>
    cases h
    exact .inr ⟨hslot, rfl, wrote_of_load (fun _ => rfl) rfl, rfl⟩

theorem create_unchanged {e : StoreError} (h : s.create i = (.error e, s')) : s' = s := by
  rw [create] at h
  repeat' split at h
  all_goals cases h
  rfl

theorem commit_answer_congr (hid : j.id = i.id) (hslot : j.slot = i.slot)
    (hv : j.version = i.version) : (s.commit j).1 = (s.commit i).1 := by
  rw [commit, commit, commitNew, commitNew, hid, hslot, hv]
  repeat' split
  all_goals rfl

end Flowgraph.Store
