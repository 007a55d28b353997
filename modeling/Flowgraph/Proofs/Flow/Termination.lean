import Flowgraph.Proofs.Flow.Counts
import Flowgraph.Proofs.Instance.Changes
import Mathlib.Algebra.Order.BigOperators.Group.List
import Mathlib.Algebra.Order.Group.Nat

namespace Flowgraph

namespace Keyed

variable {κ α : Type} [Key κ]

theorem length_put_le (k : κ) (a : α) (l : List (κ × α)) :
    (put k a l).length ≤ l.length + 1 := by
  induction l with
  | nil => simp [put]
  | cons x xs ih =>
    rw [put]
    split
    · simp
    · split
      · simpa using ih
      · simp

theorem size_insert_le (m : Keyed κ α) (k : κ) (a : α) : (m.insert k a).size ≤ m.size + 1 :=
  length_put_le k a m.entries

variable [DecidableEq κ] {m : Keyed κ α} {k : κ}

theorem size_erase_le : (m.erase k).size ≤ m.size := List.length_filter_le ..

theorem size_erase_lt (h : m.contains k = true) : (m.erase k).size < m.size := by
  obtain ⟨e, he, hk⟩ := List.mem_map.1 (mem_keys_iff.2 h)
  refine List.length_filter_lt_length_iff_exists.2 ⟨e, he, ?_⟩
  simp [hk]

end Keyed

namespace Instance

variable {w : Workflow} {i j : Instance} {n : NodeId} {t : Transition} {b : Bool} {now : Moment}
  {record : Bool} {taken : List Transition} {ns : List NodeId}

def visitsLeft (w : Workflow) (i : Instance) : Nat :=
  (w.nodes.keys.map fun n => w.visitLimit.toNat - (i.visits n).toNat).sum

def potential (w : Workflow) (i : Instance) : Nat := i.active.size + i.visitsLeft w

theorem visitsLeft_congr (h : ∀ n, j.visits n = i.visits n) : j.visitsLeft w = i.visitsLeft w := by
  simp only [visitsLeft, h]

theorem visitsLeft_entering (hn : w.contains n = true)
    (hv : (i.visits n).toNat < w.visitLimit.toNat) :
    (i.entering n now).visitsLeft w < i.visitsLeft w := by
  refine List.sum_lt_sum _ _ ?_ ⟨n, Keyed.mem_keys_iff.2 hn, ?_⟩
  · intro m _
    have hm : ((i.entering n now).visits m).toNat = _ := visits_entering hv m
    omega
  · have hm : ((i.entering n now).visits n).toNat = _ := visits_entering hv n
    rw [if_pos rfl] at hm
    omega

theorem potential_activate (hn : w.contains n = true) (h : i.activate w n now = (.ok b, j)) :
    j.potential w ≤ i.potential w := by
  rcases activate_ok h with ⟨-, -, rfl⟩ | ⟨-, -, hv, rfl⟩
  · exact Nat.le_refl _
  · -- what the new active node adds, its visit takes off
    have hs : (i.entering n now).active.size ≤ i.active.size + 1 := Keyed.size_insert_le ..
    have hl : (i.entering n now).visitsLeft w < i.visitsLeft w := visitsLeft_entering hn hv
    simp only [potential]
    omega

theorem potential_arrives (h : Arrives w now t i b j) : j.potential w ≤ i.potential w := by
  have contains : ∀ {x}, w.node? t.target = some x → w.contains t.target = true := by
    intro x hx
    exact Option.isSome_iff_exists.2 ⟨x, hx⟩
  cases h with
  | any node _ enter => exact potential_activate (contains node) enter
  | last node _ _ enter =>
    have hj := potential_activate (contains node) enter
    exact hj
  | waits => exact Nat.le_refl _

theorem potential_arriveAll (hts : ∀ t ∈ taken, w.transition? t.id = some t)
    (h : i.arriveAll w now taken = (.ok ns, j)) : j.potential w ≤ i.potential w := by
  refine arriveAll_run (Q := fun _ k => k.potential w ≤ i.potential w) ?_ hts h (Nat.le_refl _)
  intro t ts k b m _ ha hk
  exact (potential_arrives ha).trans hk

theorem active_size_depart_le (taken : List Transition) :
    (i.depart record now taken).active.size ≤ i.active.size := by
  induction taken generalizing i with
  | nil => exact Nat.le_refl _
  | cons t ts ih =>
    have he : (i.active.erase t.source).size ≤ i.active.size := Keyed.size_erase_le
    cases record with
    | false => exact ih.trans he
    | true => exact ih.trans he

theorem potential_depart (hsome : taken ≠ [])
    (hactive : ∀ t ∈ taken, i.isActive t.source = true) :
    (i.depart record now taken).potential w < i.potential w := by
  have hleft : (i.depart record now taken).visitsLeft w = i.visitsLeft w :=
    visitsLeft_congr fun n => visits_depart n
  have hsize : (i.depart record now taken).active.size < i.active.size := by
    cases taken with
    | nil => exact absurd rfl hsome
    | cons t ts =>
      -- the first firing takes an active node away; the others may share its source
      have he : (i.active.erase t.source).size < i.active.size :=
        Keyed.size_erase_lt (hactive t List.mem_cons_self)
      cases record with
      | false => exact (active_size_depart_le ts).trans_lt he
      | true => exact (active_size_depart_le ts).trans_lt he
  rw [potential, potential, hleft]
  omega

end Instance

namespace Workflow

variable {ω : Type} {w : Workflow} {inv : Invoker ω} {site : Site} {options : Options}
  {now : Moment} {p q : Progress ω} {i j : Instance} {record : Bool} {taken : List Transition}
  {ns : List NodeId}

theorem Move.potential_lt (h : w.Move record now i taken ns j) (hsome : taken ≠ []) :
    j.potential w < i.potential w := by
  cases h with
  | finish => exact absurd rfl hsome
  | rest => exact absurd rfl hsome
  | fire _ selects _ arrive =>
    have hactive : ∀ t ∈ taken, i.entered.isActive t.source = true := by
      intro t ht
      exact Keyed.mem_keys_iff.1 (selects.source_mem t ht)
    calc
      j.potential w ≤ (i.entered.depart record now taken).potential w :=
        Instance.potential_arriveAll (fun t ht => selects.transition ht) arrive
      _ < i.entered.potential w := Instance.potential_depart hsome hactive
      _ = i.potential w := rfl

theorem pass_potential_lt (h : w.pass inv site options now p = (.ok true, q)) :
    q.current.potential w < p.current.potential w := by
  obtain ⟨taken, ns, hmove, hb, -, -⟩ := pass_ok h
  refine hmove.potential_lt ?_
  rintro rfl
  cases hb

inductive Runs (w : Workflow) (inv : Invoker ω) (site : Site) (options : Options) (now : Moment) :
    Nat → Progress ω → Except EngineError Unit × Progress ω → Prop
  | fails {p q : Progress ω} {e : EngineError}
      (step : w.pass inv site options now p = (.error e, q)) :
      Runs w inv site options now 1 p (.error e, q)
  | ends {p q : Progress ω} (step : w.pass inv site options now p = (.ok false, q)) :
      Runs w inv site options now 1 p (.ok (), q)
  | goes {p q : Progress ω} {k : Nat} {r : Except EngineError Unit × Progress ω}
      (step : w.pass inv site options now p = (.ok true, q))
      (rest : Runs w inv site options now k q r) : Runs w inv site options now (k + 1) p r

theorem runs_passes {fuel : Nat} (hp : p.current.potential w < fuel) :
    ∃ k, k ≤ p.current.potential w + 1 ∧
      w.Runs inv site options now k p (w.passes inv site options now fuel p) := by
  induction fuel generalizing p with
  | zero => exact absurd hp (Nat.not_lt_zero _)
  | succ fuel ih =>
    rw [passes]
    rcases hr : w.pass inv site options now p with ⟨e | b, q⟩
    · exact ⟨1, Nat.le_add_left _ _, .fails hr⟩
    cases b with
    | false => exact ⟨1, Nat.le_add_left _ _, .ends hr⟩
    | true =>
      have hlt := pass_potential_lt hr
      obtain ⟨k, hk, hrun⟩ := ih (p := q) (by omega)
      exact ⟨k + 1, by omega, .goes hr hrun⟩

variable (w inv site) in
theorem enter_passes (ns : List NodeId) (p : Progress ω) :
    (w.enter inv site ns p).2.report.passes = p.report.passes := by
  induction ns generalizing p with
  | nil => rfl
  | cons n ns ih =>
    rw [enter]
    rcases w.requireNode n with e | x
    · rfl
    rcases hk : x.action with _ | key <;> simp only [hk]
    · exact ih _
    rcases inv.action key (site.atNode n) p.world with ⟨c | v, s⟩
    · rfl
    · exact ih _

variable (w inv site options now) in
theorem sweep_passes (p : Progress ω) :
    (w.sweep inv site options now p).2.report.passes = p.report.passes := by
  have he := enter_passes w inv site p.current.pending.keys p
  rw [sweep]
  rcases hr : w.enter inv site p.current.pending.keys p with ⟨e | _, q⟩ <;> rw [hr] at he
  · exact he
  simp only
  split
  · exact he
  rcases hs : w.splitAll inv site q.current.active.keys q.world with ⟨e | taken, s⟩
  · exact he
  rcases taken with _ | ⟨t, ts⟩
  · exact he
  simp only [fire]
  rcases (q.current.depart options.recordHistory now (t :: ts)).arriveAll w now (t :: ts) with
    ⟨e | ns, j⟩
  · exact he
  · exact he

theorem pass_passes {a : Except EngineError Bool} (h : w.pass inv site options now p = (a, q))
    (ha : a ≠ .error (.workflow (.overflow none))) :
    q.report.passes.toNat = p.report.passes.toNat + 1 := by
  rw [pass] at h
  split at h
  case h_1 =>
    cases h
    exact absurd rfl ha
  case h_2 k hk =>
    have hsweep := sweep_passes w inv site options now (p.counting k)
    rw [h] at hsweep
    exact hsweep ▸ UInt32.next?_eq_some.1 hk

theorem passes_of_overflow (h : w.pass inv site options now p =
    (.error (.workflow (.overflow none)), q)) : p.report.passes = 4294967295 := by
  rcases pass_moves w inv site options now p with hmoves | ⟨hfull, -⟩
  · rw [h] at hmoves
    exact absurd (hmoves.shown _ rfl) id
  · exact hfull

theorem Runs.passes_eq {k : Nat} {r : Except EngineError Unit × Progress ω}
    (h : w.Runs inv site options now k p r) :
    r.1 ≠ .error (.workflow (.overflow none)) ∧
        r.2.report.passes.toNat = p.report.passes.toNat + k ∨
      r.1 = .error (.workflow (.overflow none)) ∧
        p.report.passes.toNat + k = UInt32.size := by
  induction h with
  | @fails p q e step =>
    by_cases he : e = .workflow (.overflow none)
    · subst he
      have hfull := passes_of_overflow step
      exact .inr ⟨rfl, by rw [hfull]; rfl⟩
    · exact .inl ⟨by simpa using he, pass_passes step (by simpa using he)⟩
  | ends step => exact .inl ⟨nofun, pass_passes step nofun⟩
  | goes step rest ih =>
    have hp := pass_passes step nofun
    rcases ih with ⟨hr, hcount⟩ | ⟨hr, hcount⟩
    · exact .inl ⟨hr, by omega⟩
    · exact .inr ⟨hr, by omega⟩

theorem Runs.moves {k : Nat} {r : Except EngineError Unit × Progress ω}
    (h : w.Runs inv site options now k p r) :
    p.current.Changes w r.2.current ∧
      ∀ n, r.1 = .error (.workflow (.overflow (some n))) → r.2.current.visits n = 4294967295 := by
  induction h with
  | @fails p q e step =>
    rcases pass_moves w inv site options now p with hmoves | ⟨-, hfull⟩
    · rw [step] at hmoves
      exact ⟨hmoves.changes, fun n hn => by cases hn; exact hmoves.shown _ rfl⟩
    · rw [step] at hfull
      cases hfull
      exact ⟨.refl, nofun⟩
  | @ends p q step =>
    rcases pass_moves w inv site options now p with hmoves | ⟨-, hfull⟩
    · rw [step] at hmoves
      exact ⟨hmoves.changes, nofun⟩
    · rw [step] at hfull
      cases hfull
  | @goes p q k r step rest ih =>
    rcases pass_moves w inv site options now p with hmoves | ⟨-, hfull⟩
    · rw [step] at hmoves
      exact ⟨hmoves.changes.trans ih.1, ih.2⟩
    · rw [step] at hfull
      cases hfull

theorem Runs.full {k : Nat} {r : Except EngineError Unit × Progress ω} {n : NodeId}
    (h : w.Runs inv site options now k p r)
    (hr : r.1 = .error (.workflow (.overflow (some n)))) :
    p.current.visits n = 4294967295 ∨ w.visitLimit = 4294967295 := by
  obtain ⟨hchanges, hfull⟩ := h.moves
  have hle := hchanges.visits_le n
  have hvisits := (p.current.visits n).toNat_lt
  have hlimit := w.visitLimit.toNat_lt
  rw [hfull n hr] at hle
  have htop : (4294967295 : UInt32).toNat = 4294967295 := rfl
  rcases Nat.le_total (p.current.visits n).toNat w.visitLimit.toNat with hmax | hmax
  · exact .inr (UInt32.toNat_inj.1 (by omega))
  · exact .inl (UInt32.toNat_inj.1 (by omega))

theorem passBound_eq (i : Instance) : w.passBound i = i.potential w + 1 := by
  have hsum : ∀ l : List NodeId,
      l.foldr (fun n k => w.visitLimit.toNat - (i.visits n).toNat + k) 0 =
        (l.map fun n => w.visitLimit.toNat - (i.visits n).toNat).sum := by
    intro l
    induction l with
    | nil => rfl
    | cons n ns ih => rw [List.foldr_cons, ih, List.map_cons, List.sum_cons]
  rw [passBound, hsum, Instance.potential, Instance.visitsLeft]

theorem exists_runs_passes (w : Workflow) (inv : Invoker ω) (site : Site) (options : Options)
    (now : Moment) (i : Instance) (s : ω) :
    ∃ k, k ≤ w.passBound i ∧
      w.Runs inv site options now k ⟨i, {}, s⟩
        (w.passes inv site options now (w.passBound i) ⟨i, {}, s⟩) := by
  have hfuel : (⟨i, {}, s⟩ : Progress ω).current.potential w < i.potential w + 1 :=
    Nat.lt_succ_self _
  rw [passBound_eq]
  exact runs_passes hfuel

theorem no_endless_passes (f : Nat → Progress ω) :
    ¬ ∀ k, w.pass inv site options now (f k) = (.ok true, f (k + 1)) := by
  intro h
  have hle : ∀ k, (f k).current.potential w + k ≤ (f 0).current.potential w := by
    intro k
    induction k with
    | zero => exact Nat.le_refl _
    | succ k ih =>
      have hlt := pass_potential_lt (h k)
      omega
  have hk := hle ((f 0).current.potential w + 1)
  omega

theorem advance_terminates (w : Workflow) (inv : Invoker ω) (record : Bool) (now : Moment)
    (actor : Option String) (i : Instance) (s : ω) :
    let site : Site := { workflow := w.id, target := i.target, instanceId := some i.id, actor }
    let options : Options := { recordHistory := record, maxPasses := none }
    (∃ k r p,
      w.Runs inv site options now k ⟨i, {}, s⟩ (r, p) ∧
        k ≤ i.active.size +
          (w.nodes.keys.map fun n => w.visitLimit.toNat - (i.visits n).toNat).sum + 1 ∧
        w.advance inv options now actor i s =
          (r.map fun _ => { p.report with status := p.current.status }, p.current, p.world) ∧
        (r ≠ .error (.workflow (.overflow none)) → p.report.passes.toNat = k) ∧
        (r = .error (.workflow (.overflow none)) → k = UInt32.size) ∧
        ∀ n, r = .error (.workflow (.overflow (some n))) →
          p.current.visits n = 4294967295 ∧
            (i.visits n = 4294967295 ∨ w.visitLimit = 4294967295)) ∧
      ¬ ∃ f : Nat → Progress ω, ∀ k, w.pass inv site options now (f k) = (.ok true, f (k + 1)) := by
  intro site options
  refine ⟨?_, not_exists.2 no_endless_passes⟩
  obtain ⟨k, hk, hruns⟩ := exists_runs_passes w inv site options now i s
  rw [passBound_eq, Instance.potential, Instance.visitsLeft] at hk
  have hlimit : options.passLimit (w.passBound i) = w.passBound i := rfl
  rcases hr : w.passes inv site options now (w.passBound i) ⟨i, {}, s⟩ with ⟨r, p⟩
  rw [hr] at hruns
  have hcount : r ≠ .error (.workflow (.overflow none)) ∧ p.report.passes.toNat = 0 + k ∨
      r = .error (.workflow (.overflow none)) ∧ 0 + k = UInt32.size := hruns.passes_eq
  rw [Nat.zero_add] at hcount
  refine ⟨k, r, p, hruns, hk, ?_, fun hne => ?_, fun he => ?_, fun n hn => ?_⟩
  · simp only [advance, hlimit]
    rw [hr]
    cases r with
    | error e => rfl
    | ok u => rfl
  · exact (hcount.resolve_right fun h => hne h.1).2
  · exact (hcount.resolve_left fun h => h.1 he).2
  · exact ⟨hruns.moves.2 n hn, hruns.full hn⟩

def relayDraft : Draft where
  id := "relay"
  name := "Relay"
  model := "order"
  visitLimit := 10
  nodes := [
    { id := "a", name := "A", kind := .start }, { id := "x", name := "X", kind := .task },
    { id := "e", name := "E", kind := .finish }]
  transitions := [
    { id := "ax", source := "a", target := "x" }, { id := "xe", source := "x", target := "e" }]

def relay : Workflow := relayDraft.build.toOption.get (by decide +kernel)

def relayFull : Instance where
  id := "i"
  workflow := "relay"
  target := ⟨"order", "7"⟩
  status := .waiting
  created := diamondStart.created
  updated := diamondStart.created
  active := Keyed.empty.add "a"
  visitCounts := ((Keyed.empty.insert "a" 10).insert "e" 4294967295).insert "x" 4294967295

theorem advance_overflows_relay :
    relay.visitLimit < relayFull.visits "x" ∧
      (relay.advance (steady (.ok .null)) {} diamondStart.created none relayFull ()).1.map
          (fun r => r.status) =
        .error (.workflow (.overflow (some "x"))) := by
  exact ⟨by decide +kernel, by cbv⟩

end Workflow

end Flowgraph
