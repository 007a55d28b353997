import Flowgraph.Engine.Advance
import Flowgraph.Instance.Form
import Flowgraph.Proofs.Json.Records

namespace Flowgraph

open Json

variable {c : Codec}

theorem Target.ofJson?_toJson (hc : c.Lawful) (t : Target) :
    Target.ofJson? c t.toJson = some t := by
  rw [ofJson?, toJson, slots_ofFields hc]
  simp [fields]

@[simp] theorem Status.ofJson?_toJson (s : Status) : Status.ofJson? s.toJson = some s := by
  cases s <;> rfl

@[simp] theorem FailureKind.ofJson?_toJson (k : FailureKind) :
    FailureKind.ofJson? k.toJson = some k := by
  cases k <;> rfl

theorem Failure.ofJson?_toJson (hc : c.Lawful) (f : Failure) :
    Failure.ofJson? c (f.toJson c) = some f := by
  rw [ofJson?, toJson, slots_ofFields hc]
  simp [fields, hc.moment_ofMoment]

theorem Firing.ofJson?_toJson (hc : c.Lawful) (f : Firing) :
    Firing.ofJson? c (f.toJson c) = some f := by
  rw [ofJson?, toJson, slots_ofFields hc]
  simp [fields, hc.moment_ofMoment]

namespace Instance

theorem ofJson?_toJson (hc : c.Lawful) (i : Instance) : ofJson? c (i.toJson c) = some i := by
  have hmoment := hc.moment_ofMoment
  have hfailure := Slot.optionalOrNone_map (Failure.ofJson? c) (Failure.toJson c)
    (Failure.ofJson?_toJson hc) (fun _ => nofun) i.failure
  have hcompleted := Slot.optionalOrNone_map c.moment? c.ofMoment hmoment (fun _ => nofun)
    i.completed
  have hhistory := readList_map (Firing.ofJson? c) (Firing.toJson c) (fun f => f)
    (Firing.ofJson?_toJson hc) i.history
  have hvisits := readMap_ofMap readUInt32 ofUInt32 readUInt32_ofUInt32 i.visitCounts
  have harrivals := readMap_ofMap readSet ofSet readSet_ofSet i.arrivals
  rw [ofJson?, toJson, slots_ofFields hc]
  refine Option.bind_eq_some_iff.2 ⟨_, rfl, ?_⟩
  -- the fields one after the other, in the order in which they are read
  refine Option.bind_eq_some_iff.2 ⟨i.id, by simp, ?_⟩
  refine Option.bind_eq_some_iff.2 ⟨i.workflow, by simp, ?_⟩
  refine Option.bind_eq_some_iff.2 ⟨i.target, by simp [Target.ofJson?_toJson hc], ?_⟩
  refine Option.bind_eq_some_iff.2 ⟨i.status, by simp, ?_⟩
  refine Option.bind_eq_some_iff.2 ⟨i.failure, by simp [hfailure], ?_⟩
  refine Option.bind_eq_some_iff.2 ⟨i.history, by simp [hhistory], ?_⟩
  refine Option.bind_eq_some_iff.2 ⟨i.version, by simp, ?_⟩
  refine Option.bind_eq_some_iff.2 ⟨i.created, by simp [hmoment], ?_⟩
  refine Option.bind_eq_some_iff.2 ⟨i.updated, by simp [hmoment], ?_⟩
  refine Option.bind_eq_some_iff.2 ⟨i.completed, by simp [hcompleted], ?_⟩
  refine Option.bind_eq_some_iff.2 ⟨i.active, by simp, ?_⟩
  refine Option.bind_eq_some_iff.2 ⟨i.visitCounts, by simp [hvisits], ?_⟩
  refine Option.bind_eq_some_iff.2 ⟨i.arrivals, by simp [harrivals], ?_⟩
  exact Option.bind_eq_some_iff.2 ⟨i.pending, by simp, rfl⟩

end Instance

structure Stint (ω : Type) where
  inv : Invoker ω
  options : Options
  now : Moment
  actor : Option String

namespace Workflow

variable {ω : Type} (w : Workflow)

def advances : List (Stint ω) → Instance → ω → List (Except EngineError Report) × Instance × ω
  | [], i, s => ([], i, s)
  | x :: xs, i, s =>
      let (r, i, s) := w.advance x.inv x.options x.now x.actor i s
      let (rs, i, s) := advances xs i s
      (r :: rs, i, s)

def advancesStored (c : Codec) :
    List (Stint ω) → Json → ω → Option (List (Except EngineError Report) × Json × ω)
  | [], v, s => some ([], v, s)
  | x :: xs, v, s => do
      let i ← Instance.ofJson? c v
      let (r, i, s) := w.advance x.inv x.options x.now x.actor i s
      let (rs, v, s) ← advancesStored c xs (i.toJson c) s
      some (r :: rs, v, s)

theorem advancesStored_toJson (hc : c.Lawful) (xs : List (Stint ω)) (i : Instance) (s : ω) :
    w.advancesStored c xs (i.toJson c) s =
      some ((w.advances xs i s).1, (w.advances xs i s).2.1.toJson c, (w.advances xs i s).2.2) := by
  induction xs generalizing i s with
  | nil => rfl
  | cons x xs ih =>
    rw [advancesStored, Instance.ofJson?_toJson hc]
    exact Option.bind_eq_some_iff.2 ⟨i, rfl, Option.bind_eq_some_iff.2 ⟨_, ih _ _, rfl⟩⟩

end Workflow

namespace Instance

theorem json_round_trip (hc : c.Lawful) :
    (∀ i : Instance, ofJson? c (i.toJson c) = some i) ∧
      (∀ (v : Json) (i : Instance), ofJson? c v = some i → ofJson? c (i.toJson c) = some i) ∧
      ∀ {ω : Type} (w : Workflow) (xs : List (Stint ω)) (i : Instance) (s : ω),
        w.advancesStored c xs (i.toJson c) s =
          some ((w.advances xs i s).1, (w.advances xs i s).2.1.toJson c, (w.advances xs i s).2.2) :=
  ⟨ofJson?_toJson hc, fun _ i _ => i.ofJson?_toJson hc, fun w xs i s =>
    w.advancesStored_toJson hc xs i s⟩

def scant : Json :=
  .obj [("active_nodes", .arr [.str "b", .str "a", .str "b"]),
    ("created_at", .str "2024-01-01T02:30:00.5+01:30"), ("id", .str "x"),
    ("status", .str "Waiting"), ("target", .obj [("id", .str "7"), ("model", .str "order")]),
    ("updated_at", .str "2024-01-01T01:00:00.5Z"),
    ("visit_counters", .obj [("a", .int 1), ("b", .int 2)]), ("workflow_id", .str "review")]

theorem json_round_trip_scant :
    Codec.standard.Lawful ∧
      ∃ i, ofJson? .standard scant = some i ∧ i.active.keys = ["a", "b"] ∧ i.created = i.updated ∧
        i.history = [] ∧ ofJson? .standard (i.toJson .standard) = some i := by
  have hread : ((ofJson? .standard scant).map fun i =>
      (i.active.keys, decide (i.created = i.updated), i.history)) =
        some (["a", "b"], true, []) := by decide +kernel
  obtain ⟨i, hi, hmap⟩ := Option.map_eq_some_iff.1 hread
  simp only [Prod.mk.injEq, decide_eq_true_eq] at hmap
  obtain ⟨hactive, htimes, hhistory⟩ := hmap
  have hback := (json_round_trip Codec.standard_lawful).2.1 scant i hi
  exact ⟨Codec.standard_lawful, i, hi, hactive, htimes, hhistory, hback⟩

end Instance

end Flowgraph
