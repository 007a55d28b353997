import Flowgraph.Engine.Lease
import Mathlib.Logic.Function.Basic

namespace Flowgraph.Leases

variable {l l' : Leases} {policy : LockPolicy} {id : InstanceId}

theorem attempt_of_free (policy : LockPolicy) (h : l.isHeld id = false) :
    l.attempt policy id = .granted ⟨l.held.add id⟩ := by
  simp [attempt, h]

theorem attempt_of_held (policy : LockPolicy) (h : l.isHeld id = true) :
    l.attempt policy id =
      match policy with
      | .failFast => .refused
      | .block => .waiting := by
  cases policy <;> simp [attempt, h]

theorem attempt_granted (h : l.attempt policy id = .granted l') :
    l.isHeld id = false ∧ l' = ⟨l.held.add id⟩ := by
  cases hl : l.isHeld id with
  | false =>
    rw [attempt_of_free policy hl] at h
    exact ⟨rfl, (Attempt.granted.inj h).symm⟩
  | true =>
    rw [attempt_of_held policy hl] at h
    cases policy <;> cases h

theorem isHeld_add (k : InstanceId) :
    Leases.isHeld ⟨l.held.add id⟩ k = (decide (id = k) || l.isHeld k) :=
  Keyed.contains_add l.held id k

theorem isHeld_release (k : InstanceId) :
    (l.release id).isHeld k = (!decide (id = k) && l.isHeld k) :=
  Keyed.contains_erase l.held id k

theorem release_add (h : l.isHeld id = false) : Leases.release ⟨l.held.add id⟩ id = l := by
  obtain ⟨held⟩ := l
  refine congrArg Leases.mk (Keyed.ext fun k => ?_)
  rw [Keyed.get?_erase, Keyed.add, Keyed.get?_insert]
  split
  case isTrue e =>
    subst e
    exact (Option.not_isSome_iff_eq_none.1 (Bool.not_eq_true _ ▸ h)).symm
  case isFalse => rfl

inductive Step : Leases → Option InstanceId → Leases → Option InstanceId → Prop
  | rest (l : Leases) (held : Option InstanceId) : Step l held l held
  | take {l l' : Leases} {policy : LockPolicy} {id : InstanceId}
      (granted : l.attempt policy id = .granted l') : Step l none l' (some id)
  | letGo (l : Leases) (id : InstanceId) : Step l (some id) (l.release id) none

structure HeldBy {κ : Type} (l : Leases) (holds : κ → Option InstanceId) : Prop where
  held_iff : ∀ id, l.isHeld id = true ↔ ∃ k, holds k = some id
  once : ∀ {k k' id}, holds k = some id → holds k' = some id → k = k'

namespace HeldBy

variable {κ : Type} [DecidableEq κ] {holds : κ → Option InstanceId} {k : κ}

omit [DecidableEq κ] in
theorem empty : HeldBy .empty fun _ : κ => none where
  held_iff id := by simp [isHeld, Leases.empty]
  once h := by cases h

theorem grant (h : l.HeldBy holds) (hg : l.attempt policy id = .granted l')
    (hk : holds k = none) : l'.HeldBy (Function.update holds k (some id)) := by
  obtain ⟨hfree, rfl⟩ := attempt_granted hg
  have hnobody : ∀ p, holds p ≠ some id := fun p hp =>
    Bool.false_ne_true (hfree.symm.trans ((h.held_iff id).2 ⟨p, hp⟩))
  constructor
  · intro id'
    rw [isHeld_add, Bool.or_eq_true, decide_eq_true_iff, h.held_iff]
    constructor
    · rintro (rfl | ⟨p, hp⟩)
      · exact ⟨k, Function.update_self ..⟩
      · refine ⟨p, ?_⟩
        rw [Function.update_of_ne, hp]
        rintro rfl
        rw [hk] at hp
        cases hp
    · rintro ⟨p, hp⟩
      by_cases e : p = k
      · subst e
        rw [Function.update_self] at hp
        exact .inl (Option.some.inj hp)
      · rw [Function.update_of_ne e] at hp
        exact .inr ⟨p, hp⟩
  · intro p q id' hp hq
    by_cases ep : p = k <;> by_cases eq : q = k
    · rw [ep, eq]
    · rw [ep, Function.update_self] at hp
      rw [Function.update_of_ne eq, ← hp] at hq
      exact absurd hq (hnobody q)
    · rw [eq, Function.update_self] at hq
      rw [Function.update_of_ne ep, ← hq] at hp
      exact absurd hp (hnobody p)
    · rw [Function.update_of_ne ep] at hp
      rw [Function.update_of_ne eq] at hq
      exact h.once hp hq

theorem release (h : l.HeldBy holds) (hk : holds k = some id) :
    (l.release id).HeldBy (Function.update holds k none) := by
  constructor
  · intro id'
    rw [isHeld_release, Bool.and_eq_true, Bool.not_eq_true', decide_eq_false_iff_not, h.held_iff]
    constructor
    · rintro ⟨hne, p, hp⟩
      refine ⟨p, ?_⟩
      rw [Function.update_of_ne, hp]
      rintro rfl
      rw [hk] at hp
      exact hne (Option.some.inj hp)
    · rintro ⟨p, hp⟩
      by_cases e : p = k
      · rw [e, Function.update_self] at hp
        cases hp
      · rw [Function.update_of_ne e] at hp
        refine ⟨?_, p, hp⟩
        rintro rfl
        exact e (h.once hp hk)
  · intro p q id' hp hq
    have kept : ∀ r, Function.update holds k none r = some id' → holds r = some id' := by
      intro r hr
      by_cases e : r = k
      · rw [e, Function.update_self] at hr
        cases hr
      · rwa [Function.update_of_ne e] at hr
    exact h.once (kept p hp) (kept q hq)

theorem step (h : l.HeldBy holds) {held held' : Option InstanceId} (hk : holds k = held)
    (hs : Step l held l' held') : l'.HeldBy (Function.update holds k held') := by
  cases hs with
  | rest =>
    rw [← hk, Function.update_eq_self]
    exact h
  | take granted => exact h.grant granted hk
  | letGo => exact h.release hk

end HeldBy

structure Demand where
  id : InstanceId
  policy : LockPolicy
  bounded : Bool

inductive Standing where
  | waiting
  | holding
  | refused
  | released
deriving DecidableEq

def Demand.standing (d : Demand) (late : Bool) : Attempt → Standing
  | .granted _ => .holding
  | .refused => .refused
  | .waiting => if late && d.bounded then .refused else .waiting

structure Register where
  leases : Leases
  demands : Nat → Option (Demand × Standing)

inductive Move where
  | ask (n : Nat) (d : Demand)
  | wake (n : Nat) (late : Bool)
  | letGo (n : Nat)

namespace Register

def empty : Register := ⟨.empty, fun _ => none⟩

def holds (g : Register) (n : Nat) : Option InstanceId :=
  match g.demands n with
  | some (d, .holding) => some d.id
  | _ => none

def attempt (g : Register) (n : Nat) (d : Demand) (late : Bool) : Register where
  leases :=
    match g.leases.attempt d.policy d.id with
    | .granted l => l
    | _ => g.leases
  demands := Function.update g.demands n
    (some (d, d.standing late (g.leases.attempt d.policy d.id)))

def act (g : Register) : Move → Register
  | .ask n d =>
      match g.demands n with
      | none => g.attempt n d false
      | some _ => g
  | .wake n late =>
      match g.demands n with
      | some (d, .waiting) => g.attempt n d late
      | _ => g
  | .letGo n =>
      match g.demands n with
      | some (d, .holding) =>
          { leases := g.leases.release d.id
            demands := Function.update g.demands n (some (d, .released)) }
      | _ => g

def run (moves : List Move) : Register := moves.foldl act empty

variable {g : Register} {n : Nat} {d : Demand}

theorem holds_update (leases : Leases) (p : Demand × Standing) :
    holds ⟨leases, Function.update g.demands n (some p)⟩ =
      Function.update g.holds n (if p.2 = .holding then some p.1.id else none) := by
  funext m
  by_cases e : m = n
  · subst e
    obtain ⟨d, s⟩ := p
    cases s <;> simp [holds]
  · simp [holds, Function.update_of_ne e]

theorem heldBy_attempt (h : g.leases.HeldBy g.holds) (hn : g.holds n = none) (d : Demand)
    (late : Bool) : (g.attempt n d late).leases.HeldBy (g.attempt n d late).holds := by
  rw [attempt, holds_update]
  refine h.step hn ?_
  cases ha : g.leases.attempt d.policy d.id with
  | granted l => exact .take ha
  | refused => exact .rest g.leases none
  | waiting =>
    have hwaits : d.standing late .waiting ≠ .holding := by
      rw [Demand.standing]
      split <;> decide
    exact if_neg hwaits ▸ .rest g.leases none

theorem heldBy_act (h : g.leases.HeldBy g.holds) (m : Move) :
    (g.act m).leases.HeldBy (g.act m).holds := by
  cases m with
  | ask n d =>
    rw [act]
    split
    case h_1 hd => exact heldBy_attempt h (by rw [holds, hd]) d false
    case h_2 => exact h
  | wake n late =>
    rw [act]
    split
    case h_1 d hd => exact heldBy_attempt h (by rw [holds, hd]) d late
    case h_2 => exact h
  | letGo n =>
    rw [act]
    split
    case h_1 d hd =>
      rw [holds_update]
      exact h.step (by rw [holds, hd]) (.letGo g.leases d.id)
    case h_2 => exact h

theorem heldBy_run (moves : List Move) : (run moves).leases.HeldBy (run moves).holds := by
  have hrun : ∀ g : Register, g.leases.HeldBy g.holds →
      (moves.foldl act g).leases.HeldBy (moves.foldl act g).holds := by
    induction moves with
    | nil => exact fun g h => h
    | cons m moves ih => exact fun g h => ih (g.act m) (heldBy_act h m)
  exact hrun empty .empty

theorem demands_ask (hn : g.demands n = none) (d : Demand) :
    (g.act (.ask n d)).demands n = some (d,
      if g.leases.isHeld d.id then
        match d.policy with
        | .failFast => .refused
        | .block => .waiting
      else .holding) := by
  rw [act, hn]
  cases hl : g.leases.isHeld d.id with
  | false => simp [attempt, attempt_of_free d.policy hl, Demand.standing]
  | true =>
    have ha := attempt_of_held d.policy hl
    cases hp : d.policy <;> rw [hp] at ha <;> simp [attempt, hp, ha, Demand.standing]

theorem isHeld_letGo (hn : g.demands n = some (d, .holding)) (id : InstanceId) :
    (g.act (.letGo n)).leases.isHeld id = (!decide (d.id = id) && g.leases.isHeld id) := by
  simp only [act, hn]
  exact isHeld_release id

end Register

end Flowgraph.Leases
