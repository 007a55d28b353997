import Flowgraph.Engine.Advance

namespace Flowgraph

variable {α ω ω' : Type} {R : ω → ω' → Prop}

inductive Same (R : ω → ω' → Prop) : α × ω → α × ω' → Prop
  | mk (a : α) {s : ω} {s' : ω'} (states : R s s') : Same R (a, s) (a, s')

theorem Same.eq_image {f : ω → ω'} {r : α × ω} {r' : α × ω'} (h : Same (fun s p => p = f s) r r') :
    r' = (r.1, f r.2) := by
  cases h with
  | mk a hs => rw [hs]

theorem Same.eq_first {κ : Type} {r : α × ω} {r' : α × ω × κ} (h : Same (fun s p => p.1 = s) r r') :
    r = (r'.1, r'.2.1) := by
  cases h with
  | mk a hs => rw [hs]

structure Invoker.SameGuards (inv : Invoker ω) (inv' : Invoker ω') (R : ω → ω' → Prop) : Prop where
  guard : ∀ e site {s s'}, R s s' → Same R (inv.guard e site s) (inv'.guard e site s')

structure Invoker.SameCalls (inv : Invoker ω) (inv' : Invoker ω') (R : ω → ω' → Prop) : Prop
    extends inv.SameGuards inv' R where
  action : ∀ key site {s s'}, R s s' → Same R (inv.action key site s) (inv'.action key site s')

inductive Progress.Beside (R : ω → ω' → Prop) : Progress ω → Progress ω' → Prop
  | mk (i : Instance) (r : Report) {s : ω} {s' : ω'} (states : R s s') :
      Beside R ⟨i, r, s⟩ ⟨i, r, s'⟩

variable {inv : Invoker ω} {inv' : Invoker ω'} {s : ω} {s' : ω'}

namespace Invoker.SameGuards

theorem opens (h : inv.SameGuards inv' R) (t : Transition) (site : Site) (hs : R s s') :
    Same R (inv.opens t site s) (inv'.opens t site s') := by
  rw [Invoker.opens, Invoker.opens]
  cases t.guard with
  | none => exact .mk _ hs
  | some e =>
    have hguard := h.guard e site hs
    simp only
    generalize inv.guard e site s = r at hguard ⊢
    generalize inv'.guard e site s' = r' at hguard ⊢
    cases hguard with
    | mk a hs' => cases a <;> exact .mk _ hs'

theorem choose (h : inv.SameGuards inv' R) (gate : Gate) (site : Site) (ts : List Transition)
    (hs : R s s') : Same R (inv.choose gate site ts s) (inv'.choose gate site ts s') := by
  induction ts generalizing s s' with
  | nil => exact .mk _ hs
  | cons t ts ih =>
    have hopens := h.opens t site hs
    rw [Invoker.choose, Invoker.choose]
    generalize inv.opens t site s = r at hopens ⊢
    generalize inv'.opens t site s' = r' at hopens ⊢
    cases hopens with
    | @mk a s₁ s₁' hs₁ =>
      rcases a with e | b
      · exact .mk _ hs₁
      cases b with
      | false => exact ih hs₁
      | true =>
        cases gate with
        | or => exact .mk _ hs₁
        | and =>
          have hrest := ih hs₁
          simp only
          generalize inv.choose .and site ts s₁ = r at hrest ⊢
          generalize inv'.choose .and site ts s₁' = r' at hrest ⊢
          cases hrest with
          | mk a hs₂ => cases a <;> exact .mk _ hs₂

theorem split (h : inv.SameGuards inv' R) (w : Workflow) (site : Site) (x : Node) (hs : R s s') :
    Same R (w.split inv site x s) (w.split inv' site x s') := by
  rw [Workflow.split, Workflow.split]
  cases x.isFinish with
  | true => exact .mk _ hs
  | false => exact h.choose x.split site (w.outgoing x.id) hs

theorem splitAll (h : inv.SameGuards inv' R) (w : Workflow) (site : Site) (ns : List NodeId)
    (hs : R s s') : Same R (w.splitAll inv site ns s) (w.splitAll inv' site ns s') := by
  induction ns generalizing s s' with
  | nil => exact .mk _ hs
  | cons n ns ih =>
    rw [Workflow.splitAll, Workflow.splitAll]
    rcases w.requireNode n with e | x
    · exact .mk _ hs
    have hsplit := h.split w (site.atNode n) x hs
    simp only
    generalize w.split inv (site.atNode n) x s = r at hsplit ⊢
    generalize w.split inv' (site.atNode n) x s' = r' at hsplit ⊢
    cases hsplit with
    | @mk a s₁ s₁' hs₁ =>
      rcases a with e | taken
      · exact .mk _ hs₁
      have hrest := ih hs₁
      simp only
      generalize w.splitAll inv site ns s₁ = r at hrest ⊢
      generalize w.splitAll inv' site ns s₁' = r' at hrest ⊢
      cases hrest with
      | mk a hs₂ => cases a <;> exact .mk _ hs₂

end Invoker.SameGuards

namespace Invoker.SameCalls

variable {p : Progress ω} {p' : Progress ω'}

theorem enter (h : inv.SameCalls inv' R) (w : Workflow) (site : Site) (ns : List NodeId)
    (hp : p.Beside R p') :
    Same (Progress.Beside R) (w.enter inv site ns p) (w.enter inv' site ns p') := by
  induction ns generalizing p p' with
  | nil => exact .mk _ hp
  | cons n ns ih =>
    obtain ⟨i, r, hs⟩ := hp
    rw [Workflow.enter, Workflow.enter]
    rcases w.requireNode n with e | x
    · exact .mk _ (.mk i r hs)
    rcases hk : x.action with _ | key <;> simp only [hk]
    · exact ih (.mk _ r hs)
    have haction := h.action key (site.atNode n) hs
    generalize inv.action key (site.atNode n) _ = c at haction ⊢
    generalize inv'.action key (site.atNode n) _ = c' at haction ⊢
    cases haction with
    | mk a hs' =>
      cases a with
      | error c => exact .mk _ (.mk i r hs')
      | ok v => exact ih (.mk _ _ hs')

theorem fire (w : Workflow) (options : Options) (now : Moment) (taken : List Transition)
    (hp : p.Beside R p') :
    Same (Progress.Beside R) (w.fire options now taken p) (w.fire options now taken p') := by
  obtain ⟨i, r, hs⟩ := hp
  rw [Workflow.fire, Workflow.fire]
  rcases (i.depart options.recordHistory now taken).arriveAll w now taken with ⟨e | ns, j⟩
  · exact .mk _ (.mk _ _ hs)
  · exact .mk _ (.mk _ _ hs)

theorem sweep (h : inv.SameCalls inv' R) (w : Workflow) (site : Site) (options : Options)
    (now : Moment) (hp : p.Beside R p') :
    Same (Progress.Beside R) (w.sweep inv site options now p)
      (w.sweep inv' site options now p') := by
  obtain ⟨i, r, hs⟩ := hp
  rw [Workflow.sweep, Workflow.sweep]
  simp only
  have hin := h.enter w site i.pending.keys (.mk i r hs)
  generalize w.enter inv site i.pending.keys _ = c at hin ⊢
  generalize w.enter inv' site i.pending.keys _ = c' at hin ⊢
  cases hin with
  | mk a hq =>
    obtain ⟨j, r₁, hs₁⟩ := hq
    cases a with
    | error e => exact .mk _ (.mk j r₁ hs₁)
    | ok u =>
      simp only
      split
      · exact .mk _ (.mk _ r₁ hs₁)
      have hsplit := h.splitAll w site j.active.keys hs₁
      generalize w.splitAll inv site j.active.keys _ = c at hsplit ⊢
      generalize w.splitAll inv' site j.active.keys _ = c' at hsplit ⊢
      cases hsplit with
      | mk a hs₂ =>
        rcases a with e | _ | ⟨t, ts⟩
        · exact .mk _ (.mk j r₁ hs₂)
        · exact .mk _ (.mk _ r₁ hs₂)
        have hfire := fire w options now (t :: ts) (.mk j r₁ hs₂)
        simp only
        generalize w.fire options now (t :: ts) _ = c at hfire ⊢
        generalize w.fire options now (t :: ts) _ = c' at hfire ⊢
        cases hfire with
        | mk a hq => cases a <;> exact .mk _ hq

theorem pass (h : inv.SameCalls inv' R) (w : Workflow) (site : Site) (options : Options)
    (now : Moment) (hp : p.Beside R p') :
    Same (Progress.Beside R) (w.pass inv site options now p) (w.pass inv' site options now p') := by
  obtain ⟨i, r, hs⟩ := hp
  rw [Workflow.pass, Workflow.pass]
  simp only
  split
  · exact .mk _ (.mk i r hs)
  · exact h.sweep w site options now (.mk i _ hs)

theorem passes (h : inv.SameCalls inv' R) (w : Workflow) (site : Site) (options : Options)
    (now : Moment) (k : Nat) (hp : p.Beside R p') :
    Same (Progress.Beside R) (w.passes inv site options now k p)
      (w.passes inv' site options now k p') := by
  induction k generalizing p p' with
  | zero =>
    obtain ⟨i, r, hs⟩ := hp
    exact .mk _ (.mk _ r hs)
  | succ k ih =>
    have hpass := h.pass w site options now hp
    rw [Workflow.passes, Workflow.passes]
    generalize w.pass inv site options now p = c at hpass ⊢
    generalize w.pass inv' site options now p' = c' at hpass ⊢
    cases hpass with
    | mk a hq =>
      rcases a with e | b
      · exact .mk _ hq
      cases b with
      | false => exact .mk _ hq
      | true => exact ih hq

theorem advance (h : inv.SameCalls inv' R) (w : Workflow) (options : Options) (now : Moment)
    (actor : Option String) (i : Instance) (hs : R s s') :
    Same (Same R) (w.advance inv options now actor i s)
      (w.advance inv' options now actor i s') := by
  rw [Workflow.advance, Workflow.advance]
  simp only
  generalize ({ workflow := w.id, target := i.target, instanceId := some i.id, actor } : Site) =
    site
  have hpasses := h.passes w site options now (options.passLimit (w.passBound i))
    (.mk i {} hs)
  generalize w.passes inv site options now _ _ = c at hpasses ⊢
  generalize w.passes inv' site options now _ _ = c' at hpasses ⊢
  cases hpasses with
  | mk a hq =>
    obtain ⟨j, r, hs'⟩ := hq
    cases a <;> exact .mk _ (.mk j hs')

end Invoker.SameCalls

structure GuardCall (ω : Type) where
  expression : String
  site : Site
  seen : ω
  answer : Except InvokerError Bool

def Invoker.audited (inv : Invoker ω) : Invoker (ω × List (GuardCall ω)) where
  guard e site s :=
    ((inv.guard e site s.1).1, (inv.guard e site s.1).2,
      s.2 ++ [⟨e, site, s.1, (inv.guard e site s.1).1⟩])
  action key site s := ((inv.action key site s.1).1, (inv.action key site s.1).2, s.2)
  apply fields site s := (inv.apply fields site s.1, s.2)

theorem Invoker.sameCalls_audited (inv : Invoker ω) :
    inv.SameCalls inv.audited fun s p => p.1 = s where
  guard e site s p hp := by
    subst hp
    exact .mk _ rfl
  action key site s p hp := by
    subst hp
    exact .mk _ rfl

end Flowgraph
