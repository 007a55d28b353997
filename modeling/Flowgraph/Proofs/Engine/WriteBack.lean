import Flowgraph.Json.Number
import Flowgraph.Proofs.Engine.Beside
import Flowgraph.Proofs.Run.Passes

namespace Flowgraph

variable {γ : Type}

structure Conditions.Secluded (c : Conditions γ) : Prop where
  put : ∀ es s, c.entities (c.putEntities es s) = es
  action : ∀ s key act, c.action? s key = some act →
    ∀ site, c.entities (act site s).2 = c.entities s

structure GuardCall.AnsweredBy (q : GuardCall γ) (c : Conditions γ) (es : Entities) : Prop where
  seen : c.entities q.seen = es
  answer : q.answer = Guard.evaluate (es.variablesOf q.site.target) q.expression

structure Conditions.Attests (c : Conditions γ) (es : Entities) (s : γ)
    (p : γ × List (GuardCall γ)) : Prop where
  state : p.1 = s
  entities : c.entities s = es
  calls : ∀ q ∈ p.2, q.AnsweredBy c es

theorem Conditions.Secluded.sameCalls {c : Conditions γ} (hc : c.Secluded) (es : Entities) :
    c.invoker.SameCalls c.invoker.audited (c.Attests es) where
  guard e site s p hp := by
    obtain ⟨s', l⟩ := p
    obtain ⟨rfl, hes, hcalls⟩ := hp
    refine .mk _ ⟨rfl, hes, fun q hq => ?_⟩
    rcases List.mem_append.1 hq with hq | hq
    · exact hcalls q hq
    · obtain rfl := List.mem_singleton.1 hq
      exact ⟨hes, by rw [← hes]; rfl⟩
  action key site s p hp := by
    obtain ⟨s', l⟩ := p
    obtain ⟨rfl, hes, hcalls⟩ := hp
    refine .mk _ ⟨rfl, ?_, hcalls⟩
    simp only
    rcases hact : c.action? s' key with _ | act
    · exact hes
    · exact (hc.action s' key act hact site).trans hes

namespace Engine

variable {c : Conditions γ} {es : Entities} {config : Config} {now : Moment}
  {actor : Option String} {i j : Instance} {g g' : Engine γ}

theorem Beside.eq_withCalls {k : Engine (γ × List (GuardCall γ))}
    (h : g.Beside (c.Attests es) k) :
    c.entities g.guest = es ∧ ∃ calls, k = g.withCalls calls ∧ ∀ q ∈ calls, q.AnsweredBy c es := by
  obtain ⟨store, outages, leases, supply, hs⟩ := h
  obtain ⟨state, hes, hcalls⟩ := hs
  exact ⟨hes, _, by rw [withCalls, ← state], hcalls⟩

theorem applyContext_withCalls (w : Workflow) (r : Report) (g : Engine γ)
    (calls : List (GuardCall γ)) :
    applyContext c.invoker.audited.onGuest w actor j r (g.withCalls calls) =
      (applyContext c.invoker.onGuest w actor j r g).withCalls calls := by
  rw [applyContext, applyContext]
  split <;> rfl

theorem get?_applyContext (hc : c.Secluded) (w : Workflow) {r : Report}
    (hr : Json.Ascending r.context) (g : Engine γ) (t : Target) (k : String) :
    (c.entities (applyContext c.invoker.onGuest w actor j r g).guest).get? t k =
      if t = j.target then
        (Entities.written? c.floatText r.context k).or ((c.entities g.guest).get? t k)
      else (c.entities g.guest).get? t k := by
  rw [applyContext]
  split
  case isTrue hempty =>
    rw [List.isEmpty_iff.1 hempty]
    simp [Entities.written?, Keyed.find]
  case isFalse =>
    have hput : c.entities (c.invoker.onGuest.apply r.context
        { workflow := w.id, target := j.target, instanceId := some j.id, actor } g).guest =
          (c.entities g.guest).writeBack c.floatText j.target r.context := hc.put _ _
    rw [hput, Entities.get?_writeBack hr]

theorem run_writes_back (hc : c.Secluded) {r : Except EngineError Report}
    (h : run config c.invoker.onGuest now actor i g = (r, j, g')) :
    (∃ calls, run config c.invoker.audited.onGuest now actor i (g.withCalls []) =
        (r, j, g'.withCalls calls) ∧
      ∀ q ∈ calls, q.AnsweredBy c (c.entities g.guest)) ∧
    ((∃ e, r = .error e) ∨ i.isTerminal = true ∨ (g.base i).isTerminal = true →
      c.entities g'.guest = c.entities g.guest) ∧
    ∀ rep, r = .ok rep → i.isTerminal = false → (g.base i).isTerminal = false →
      g.store.Wrote j g'.store ∧
      ∀ t k, (c.entities g'.guest).get? t k =
        if t = j.target then
          (Entities.written? c.floatText rep.context k).or ((c.entities g.guest).get? t k)
        else (c.entities g.guest).get? t k := by
  have hstart : g.Beside (c.Attests (c.entities g.guest)) (g.withCalls []) :=
    beside_withCalls ⟨rfl, rfl, fun q hq => by cases hq⟩
  have hended : Ended c.invoker c.invoker.audited (c.Attests (c.entities g.guest)) actor
      (i.isTerminal = true ∨ (g.base i).isTerminal = true) (r, j, g')
      (run config c.invoker.audited.onGuest now actor i (g.withCalls [])) :=
    h ▸ Beside.run i (hc.sameCalls _) hstart
  have hatomic := (run_atomic (Invoker.onGuest_detached _) h).2
  generalize run config c.invoker.audited.onGuest now actor i (g.withCalls []) = p at hended ⊢
  cases hended with
  | kept _ states idle =>
    obtain ⟨hes, calls, rfl, hcalls⟩ := states.eq_withCalls
    refine ⟨⟨calls, rfl, hcalls⟩, fun _ => hes, fun rep hrep hi hb => ?_⟩
    rcases idle with ⟨e, he⟩ | hi' | hb'
    · rw [hrep] at he
      cases he
    · simp [hi] at hi'
    · simp [hb] at hb'
  | committed w _ states live context =>
    obtain ⟨hes, calls, rfl, hcalls⟩ := states.eq_withCalls
    refine ⟨⟨calls, by rw [applyContext_withCalls], hcalls⟩, ?_, fun rep hrep hi hb => ?_⟩
    · rintro (⟨e, he⟩ | hskip)
      · cases he
      · exact absurd hskip live
    · cases hrep
      refine ⟨?_, fun t k => ?_⟩
      · rcases hatomic _ rfl with ⟨hi', -⟩ | ⟨-, hb', -⟩ | ⟨-, -, -, -, -, -, -, hwrote⟩
        · simp [hi] at hi'
        · simp [hb] at hb'
        · exact hwrote
      · rw [get?_applyContext hc w context, hes]

def tollDraft : Draft where
  id := "toll"
  name := "Toll"
  model := "order"
  nodes := [
    { id := "a", name := "A", kind := .start, action := some "pay" },
    { id := "b", name := "B", kind := .finish }]
  transitions := [{ id := "ab", source := "a", target := "b", guard := some "paid" }]

def toll : Workflow := tollDraft.build.toOption.get (by decide +kernel)

def tollStart : Instance := .start toll "1" ⟨"order", "7"⟩ Workflow.diamondStart.created

def tollgate : Conditions Entities where
  floatText := Json.Number.floatText
  entities es := es
  putEntities es _ := es
  action? _ key :=
    if key = "pay" then some fun _ es => (.ok (.obj [("paid", .bool true)]), es) else none

theorem tollgate_secluded : tollgate.Secluded where
  put _ _ := rfl
  action s key act hact site := by
    simp only [tollgate, Option.ite_none_right_eq_some, Option.some.injEq] at hact
    rw [← hact.2]

def unpaid : Engine Entities :=
  { new (Entities.empty.set ⟨"order", "7"⟩ "paid" "false") with
    store := Store.empty.saveWorkflow toll }

theorem run_writes_back_toll :
    tollgate.Secluded ∧
      ∃ (rep : Report) (j : Instance) (g' : Engine Entities) (calls : List (GuardCall Entities)),
        run {} tollgate.invoker.audited.onGuest tollStart.created none tollStart
            (unpaid.withCalls []) = (.ok rep, j, g'.withCalls calls) ∧
          rep.status = .waiting ∧
          (∀ q ∈ calls, q.AnsweredBy tollgate unpaid.guest) ∧
          (tollgate.entities g'.guest).get? j.target "paid" = some "true" := by
  have hread : (run {} tollgate.invoker.onGuest tollStart.created none tollStart
      unpaid).1.toOption.map (fun rep =>
        (rep.status, Entities.written? tollgate.floatText rep.context "paid")) =
        some (.waiting, some "true") := by decide +kernel
  rcases h : run {} tollgate.invoker.onGuest tollStart.created none tollStart unpaid with
    ⟨e | rep, j, g'⟩ <;> rw [h] at hread
  · cases hread
  obtain ⟨hwaits, hpaid⟩ := Prod.mk.inj (Option.some.inj hread)
  have hload : unpaid.store.load? tollStart.id = none := rfl
  have hb : (unpaid.base tollStart).isTerminal = false := by
    rw [base, hload]
    rfl
  obtain ⟨⟨calls, haudited, hcalls⟩, -, hwritten⟩ := run_writes_back tollgate_secluded h
  refine ⟨tollgate_secluded, rep, j, g', calls, haudited, hwaits, hcalls, ?_⟩
  rw [(hwritten rep rfl rfl hb).2 j.target "paid", if_pos rfl, hpaid]
  rfl

end Engine

end Flowgraph
