import Flowgraph.Proofs.Lifecycle.Dealings
import Flowgraph.Proofs.Lifecycle.Endings
import Flowgraph.Proofs.System.Histories

namespace Flowgraph

structure Ledger where
  histories : Histories
  drawn : Keyed InstanceId (WorkflowId × Target)

namespace Ledger

structure Grows (L L' : Ledger) : Prop where
  histories : ∀ {id a}, a ∈ L.histories id → a ∈ L'.histories id
  drawn : ∀ {id k}, L.drawn.get? id = some k → L'.drawn.get? id = some k

def add (L : Ledger) (b : Instance) : Ledger := { L with histories := L.histories.add b }

def draw (L : Ledger) (id : InstanceId) (slot : WorkflowId × Target) : Ledger :=
  { L with drawn := L.drawn.insert id slot }

theorem Grows.refl (L : Ledger) : L.Grows L := ⟨fun h => h, fun h => h⟩

theorem Grows.trans {L₁ L₂ L₃ : Ledger} (h : L₁.Grows L₂) (h' : L₂.Grows L₃) : L₁.Grows L₃ :=
  ⟨fun ha => h'.histories (h.histories ha), fun hk => h'.drawn (h.drawn hk)⟩

theorem grows_add (L : Ledger) (b : Instance) : L.Grows (L.add b) :=
  ⟨fun ha => Histories.mem_add.2 (.inl ha), fun hk => hk⟩

theorem grows_draw {L : Ledger} {id : InstanceId} (slot : WorkflowId × Target)
    (h : L.drawn.get? id = none) : L.Grows (L.draw id slot) :=
  ⟨fun ha => ha, Keyed.get?_insert_of_free slot h⟩

end Ledger

structure Instance.Sound (i : Instance) (L : Ledger) : Prop where
  genuine : i.Genuine L.histories L.drawn
  proper : i.Proper

theorem Instance.Sound.mono {i : Instance} {L L' : Ledger} (h : i.Sound L) (hL : L.Grows L') :
    i.Sound L' :=
  ⟨h.genuine.mono hL.histories hL.drawn, h.proper⟩

namespace Engine

variable {γ : Type} {L L' : Ledger} {g g' : Engine (Desk γ)} {i j base : Instance}

structure Settled (L : Ledger) (g : Engine (Desk γ)) : Prop where
  recalls : g.store.Recalls L.histories
  drawn : ∀ {id a}, a ∈ L.histories id → L.drawn.get? id = some a.slot
  supply : ∀ {id k}, L.drawn.get? id = some k → ∃ n < g.supply.drawn, id = g.supply.draw n
  proper : ∀ {id a}, a ∈ L.histories id → a.Proper
  handles : ∀ i ∈ g.guest.handles, i.Sound L

structure Leads (L : Ledger) (g : Engine (Desk γ)) (L' : Ledger) (g' : Engine (Desk γ)) : Prop where
  grows : L.Grows L'
  settled : Settled L' g'
  frozen : ∀ {id i}, g.store.load? id = some i → i.isTerminal = true →
    g'.store.load? id = some i

def Safe (g g' : Engine (Desk γ)) : Prop := ∀ L, Settled L g → ∃ L', Leads L g L' g'

theorem Leads.refl (h : Settled L g) : Leads L g L g := ⟨.refl L, h, fun hl _ => hl⟩

theorem Leads.trans {L₁ L₂ L₃ : Ledger} {g₁ g₂ g₃ : Engine (Desk γ)} (h : Leads L₁ g₁ L₂ g₂)
    (h' : Leads L₂ g₂ L₃ g₃) : Leads L₁ g₁ L₃ g₃ :=
  ⟨h.grows.trans h'.grows, h'.settled, fun hl ht => h'.frozen (h.frozen hl ht) ht⟩

namespace Settled

theorem sound_of_stored (h : Settled L g) {id : InstanceId} (hl : g.store.load? id = some i) :
    i.Sound L := by
  have hm := h.recalls.mem hl
  have hk := h.recalls.key hm
  refine ⟨⟨?_, fun _ => ?_⟩, h.proper hm⟩
  · rw [hk]
    exact h.drawn hm
  · rw [hk]
    exact hm

theorem moved (h : Settled L g) (hd : SameDesk g g') (hr : g'.store.Recalls L.histories) :
    Settled L g' where
  recalls := hr
  drawn := h.drawn
  supply hk := by
    obtain ⟨n, hn, hid⟩ := h.supply hk
    exact ⟨n, Nat.lt_of_lt_of_le hn hd.drawn, hd.draw ▸ hid⟩
  proper := h.proper
  handles k hk := by
    rw [hd.handles] at hk
    exact h.handles k hk

theorem aside (h : Settled L g) (ha : Aside g g') : Leads L g L g' := by
  refine ⟨.refl L, h.moved ha.toSameDesk ?_, fun hl _ => ?_⟩
  · rw [ha.store]
    exact h.recalls
  · rw [ha.store]
    exact hl

theorem hand (h : Settled L g) (hi : i.Sound L) : Leads L g L (g.hand i) := by
  refine ⟨.refl L, ⟨h.recalls, h.drawn, h.supply, h.proper, ?_⟩, fun hl _ => hl⟩
  intro k hk
  rcases List.mem_cons.1 hk with rfl | hk
  · exact hi
  · exact h.handles k hk

theorem get?_fresh (h : Settled L g) : L.drawn.get? g.supply.next = none := by
  cases hk : L.drawn.get? g.supply.next with
  | none => rfl
  | some k =>
    obtain ⟨n, hn, hid⟩ := h.supply hk
    rw [g.supply.injective hid] at hn
    exact absurd hn (Nat.lt_irrefl n)

theorem draw (h : Settled L g) (slot : WorkflowId × Target) :
    Leads L g (L.draw g.supply.next slot) g.drawId.2 := by
  have hgrows := Ledger.grows_draw slot h.get?_fresh
  refine ⟨hgrows, ⟨h.recalls, fun ha => hgrows.drawn (h.drawn ha), ?_, h.proper, ?_⟩,
    fun hl _ => hl⟩
  · intro id k hk
    rw [Ledger.draw, Keyed.get?_insert] at hk
    split at hk
    case isTrue e => exact ⟨g.supply.drawn, Nat.lt_succ_self _, e.symm⟩
    case isFalse =>
      obtain ⟨n, hn, hid⟩ := h.supply hk
      exact ⟨n, Nat.lt_succ_of_lt hn, hid⟩
  · intro k hk
    exact (h.handles k hk).mono hgrows

theorem add (h : Settled L g) (hi : L.drawn.get? j.id = some j.slot) (hp : j.Proper)
    (hd : SameDesk g g') (hr : g'.store.Recalls (L.histories.add j))
    (hopen : ∀ a, g.store.load? j.id = some a → a.isTerminal = false) :
    Leads L g (L.add j) g' ∧ j.Sound (L.add j) := by
  have hgrows := L.grows_add j
  refine ⟨⟨hgrows, ⟨hr, ?_, ?_, ?_, ?_⟩, ?_⟩, Instance.genuine_add hi, hp⟩
  · intro id a ha
    rcases Histories.mem_add.1 ha with ha | ⟨rfl, rfl⟩
    · exact h.drawn ha
    · exact hi
  · intro id k hk
    obtain ⟨n, hn, hid⟩ := h.supply hk
    exact ⟨n, Nat.lt_of_lt_of_le hn hd.drawn, hd.draw ▸ hid⟩
  · intro id a ha
    rcases Histories.mem_add.1 ha with ha | ⟨rfl, rfl⟩
    · exact h.proper ha
    · exact hp
  · intro k hk
    rw [hd.handles] at hk
    exact (h.handles k hk).mono hgrows
  · intro id a hl ht
    by_cases e : id = j.id
    · subst e
      rw [hopen a hl] at ht
      cases ht
    · have hlast := hr.last id
      rw [Histories.add_of_ne e, h.recalls.last] at hlast
      exact hlast.symm.trans hl

theorem commit (h : Settled L g) (hb : base.Sound L) (hopen : base.isTerminal = false)
    (hsame : i.id = base.id ∧ i.slot = base.slot ∧ i.version = base.version) (hi : i.Proper)
    (hd : SameDesk g g') {v : UInt64} (hc : g.store.commit i = (.ok v, g'.store)) :
    ∃ L', Leads L g L' g' ∧ Instance.Sound { i with version := v } L' := by
  obtain ⟨-, hr, hold⟩ := h.recalls.commit hb.genuine hsame hc
  have hslot : L.drawn.get? i.id = some i.slot := by
    rw [hsame.1, hsame.2.1]
    exact hb.genuine.slot
  refine ⟨_, h.add hslot (hi.version v) hd hr fun a hl => ?_⟩
  rw [hold a hl]
  exact hopen

theorem create (h : Settled L g) (hi : L.drawn.get? i.id = some i.slot) (hp : i.Proper)
    (hd : SameDesk g g') (hc : g.store.create i = (.ok j, g'.store)) :
    ∃ L', Leads L g L' g' ∧ j.Sound L' := by
  rcases h.recalls.create hi h.drawn hc with ⟨hst, id, hl⟩ | ⟨hnone, rfl, hr⟩
  · exact ⟨L, h.aside ⟨hd, hst⟩, h.sound_of_stored hl⟩
  · refine ⟨_, h.add (j := { i with version := 1 }) hi (hp.version 1) hd hr fun a hl => ?_⟩
    rw [hnone] at hl
    cases hl

end Settled

end Engine

end Flowgraph
