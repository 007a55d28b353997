import Flowgraph.Proofs.Engine.Commit
import Flowgraph.Proofs.Run.Passes

namespace Flowgraph.Store

inductive Write where
  | create (i : Instance)
  | commit (i : Instance)

inductive Answer where
  | given (i : Instance)
  | version (v : UInt64)

def write (s : Store) : Write → Except StoreError Answer × Store
  | .create i => ((s.create i).1.map .given, (s.create i).2)
  | .commit i => ((s.commit i).1.map .version, (s.commit i).2)

def writes (s : Store) (xs : List Write) : Store := xs.foldl (fun s x => (s.write x).2) s

def Write.reuses (s : Store) : Write → Bool
  | .create i => (s.slots.get? i.slot).isNone && (s.load? i.id).isSome
  | .commit _ => false

def Sparing (s : Store) : List Write → Prop
  | [] => True
  | x :: xs => x.reuses s = false ∧ Sparing (s.write x).2 xs

inductive Fate (s : Store) (id : InstanceId) (a : Instance) : Write → Prop
  | kept {x : Write} (load : (s.write x).2.load? id = some a) : Fate s id a x
  | advanced {i : Instance} {v : UInt64} (key : i.id = id) (version : i.version = a.version)
      (next : a.version.next? = some v) (answer : (s.write (.commit i)).1 = .ok (.version v))
      (load : (s.write (.commit i)).2.load? id = some { i with version := v }) :
      Fate s id a (.commit i)
  | replaced {i : Instance} (key : i.id = id) (free : s.slots.get? i.slot = none)
      (load : (s.write (.create i)).2.load? id = some { i with version := 1 }) :
      Fate s id a (.create i)

variable {s s' : Store} {i j : Instance} {id : InstanceId} {a : Instance}

theorem write_error {x : Write} {e : StoreError} (h : (s.write x).1 = .error e) :
    (s.write x).2 = s := by
  cases x with
  | create i =>
    rw [write] at h ⊢
    rcases hc : s.create i with ⟨e' | j, s'⟩ <;> rw [hc] at h
    · exact create_unchanged hc
    · cases h
  | commit i =>
    rw [write] at h ⊢
    rcases hc : s.commit i with ⟨e' | v, s'⟩ <;> rw [hc] at h
    · exact commit_unchanged hc
    · cases h

theorem Wrote.load_of_ne (h : s.Wrote j s') (hne : j.id ≠ id) (ha : s.load? id = some a) :
    s'.load? id = some a :=
  (h.elsewhere id fun e => hne e.symm).trans ha

theorem fate_create (i : Instance) (ha : s.load? id = some a) : Fate s id a (.create i) := by
  rcases hc : s.create i with ⟨e | j, s'⟩
  · refine .kept ?_
    rw [write, hc, create_unchanged hc]
    exact ha
  rcases create_ok hc with ⟨rfl, -⟩ | ⟨hfree, rfl, hw, -⟩
  · refine .kept ?_
    simp only [write, hc]
    exact ha
  by_cases hid : i.id = id
  · subst hid
    refine .replaced rfl hfree ?_
    simp only [write, hc]
    exact hw.here
  · refine .kept ?_
    simp only [write, hc]
    exact hw.load_of_ne hid ha

theorem fate_commit (i : Instance) (ha : s.load? id = some a) : Fate s id a (.commit i) := by
  rcases hc : s.commit i with ⟨e | v, s'⟩
  · refine .kept ?_
    rw [write, hc, commit_unchanged hc]
    exact ha
  obtain ⟨hnext, hw, hcases⟩ := commit_ok hc
  by_cases hid : i.id = id
  · subst hid
    -- A first commit asks for a free id, so this one has met the version it was read at.
    have hv : a.version = i.version := by
      rcases hcases with ⟨-, hnone, -⟩ | ⟨-, ⟨b, hb, hv⟩, -⟩
      · rw [ha] at hnone
        cases hnone
      · rw [ha] at hb
        cases hb
        exact hv
    refine .advanced rfl hv.symm (hv ▸ hnext) ?_ ?_
    · rw [write, hc]
      rfl
    · rw [write, hc]
      exact hw.here
  · refine .kept ?_
    simp only [write, hc]
    exact hw.load_of_ne hid ha

theorem fate (x : Write) (ha : s.load? id = some a) : Fate s id a x := by
  cases x with
  | create i => exact fate_create i ha
  | commit i => exact fate_commit i ha

theorem version_le_of_write {x : Write} (hx : x.reuses s = false) (ha : s.load? id = some a) :
    ∃ b, (s.write x).2.load? id = some b ∧ a.version ≤ b.version ∧
      (b.version = a.version → b = a) := by
  cases fate x ha with
  | kept load => exact ⟨a, load, UInt64.le_refl _, fun _ => rfl⟩
  | advanced _ _ next _ load =>
    have hlt := UInt64.lt_of_next? next
    exact ⟨_, load, UInt64.le_of_lt hlt, fun h => absurd h (UInt64.ne_of_lt hlt).symm⟩
  | replaced key free =>
    subst key
    simp [Write.reuses, free, ha] at hx

theorem version_le_of_writes {xs : List Write} (hxs : s.Sparing xs) (ha : s.load? id = some a) :
    ∃ b, (s.writes xs).load? id = some b ∧ a.version ≤ b.version ∧
      (b.version = a.version → b = a) := by
  induction xs generalizing s a with
  | nil => exact ⟨a, ha, UInt64.le_refl _, fun _ => rfl⟩
  | cons x xs ih =>
    obtain ⟨b, hb, hab, heq⟩ := version_le_of_write hxs.1 ha
    obtain ⟨c, hc, hbc, heq'⟩ := ih hxs.2 hb
    refine ⟨c, hc, UInt64.le_trans hab hbc, fun h => ?_⟩
    obtain rfl := heq' (UInt64.le_antisymm (h ▸ hab) hbc)
    exact heq h

theorem changed_by_commit_or_reuse (s : Store) (xs : List Write) :
    (∀ x e, ((s.writes xs).write x).1 = .error e → ((s.writes xs).write x).2 = s.writes xs) ∧
      (∀ x id a, (s.writes xs).load? id = some a → Fate (s.writes xs) id a x) ∧
      ∀ ys, (s.writes xs).Sparing ys → ∀ id a, (s.writes xs).load? id = some a →
        ∃ b, (s.writes (xs ++ ys)).load? id = some b ∧ a.version ≤ b.version ∧
          (b.version = a.version → b = a) := by
  refine ⟨fun x e he => write_error he, fun x id a ha => fate x ha, fun ys hys id a ha => ?_⟩
  rw [writes, List.foldl_append]
  exact version_le_of_writes hys ha

theorem create_reuses_id :
    let stored := empty.writes [.create Workflow.diamondStart,
      .commit { Workflow.diamondStart with version := 1 }]
    let again := stored.write (.create { Workflow.diamondStart with target := ⟨"order", "8"⟩ })
    (stored.load? "1").map (fun i => (i.version, i.target)) = some (2, ⟨"order", "7"⟩) ∧
      again.1.isOk = true ∧
      (again.2.load? "1").map (fun i => (i.version, i.target)) = some (1, ⟨"order", "8"⟩) := by
  decide +kernel

end Flowgraph.Store
