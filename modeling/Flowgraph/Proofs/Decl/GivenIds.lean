import Flowgraph.Proofs.Decl.Agreement
import Flowgraph.Proofs.Decl.Words

namespace Flowgraph

def Overlap (s t s' t' : NodeId) : Prop :=
  (∃ m, s' = s ++ "_to_" ++ m ∧ t = m ++ "_to_" ++ t') ∨ s' = s ++ "_to" ∧ t = "to_" ++ t'

section Ids

variable {s t s' t' : NodeId}

theorem Overlap.ids_eq (h : Overlap s t s' t') :
    defaultTransitionId s t = defaultTransitionId s' t' := by
  rw [defaultTransitionId, defaultTransitionId]
  rcases h with ⟨m, rfl, rfl⟩ | ⟨rfl, rfl⟩
  · simp only [String.append_assoc]
  · have hshared : ∀ r, "_to_" ++ ("to_" ++ r) = "_to" ++ ("_to_" ++ r) := fun r => by
      rw [← String.append_assoc, ← String.append_assoc]
      rfl
    simp only [String.append_assoc, hshared]

theorem separators {x y z : List Char} (h : "_to_".toList ++ y = x ++ ("_to_".toList ++ z)) :
    (x = [] ∧ y = z) ∨ (∃ m, x = "_to_".toList ++ m ∧ y = m ++ ("_to_".toList ++ z)) ∨
      x = "_to".toList ∧ y = "to_".toList ++ z := by
  change '_' :: 't' :: 'o' :: '_' :: y = x ++ '_' :: 't' :: 'o' :: '_' :: z at h
  rcases x with _ | ⟨a, _ | ⟨b, _ | ⟨c, _ | ⟨d, m⟩⟩⟩⟩
  · exact .inl ⟨rfl, by simpa using h⟩
  · simp at h
  · simp at h
  · simp only [List.cons_append, List.nil_append, List.cons.injEq] at h
    obtain ⟨rfl, rfl, rfl, -, rfl⟩ := h
    exact .inr (.inr ⟨rfl, rfl⟩)
  · simp only [List.cons_append, List.cons.injEq] at h
    obtain ⟨rfl, rfl, rfl, rfl, rfl⟩ := h
    exact .inr (.inl ⟨m, rfl, rfl⟩)

theorem eq_or_overlap {x : List Char} (hs : s'.toList = s.toList ++ x)
    (ht : "_to_".toList ++ t.toList = x ++ ("_to_".toList ++ t'.toList)) :
    (s = s' ∧ t = t') ∨ Overlap s t s' t' := by
  rcases separators ht with ⟨rfl, hy⟩ | ⟨m, rfl, hy⟩ | ⟨rfl, hy⟩
  · rw [List.append_nil] at hs
    exact .inl ⟨String.toList_inj.1 hs.symm, String.toList_inj.1 hy⟩
  · refine .inr (.inl ⟨String.ofList m, String.toList_inj.1 ?_, String.toList_inj.1 ?_⟩)
    · simp only [hs, String.toList_append, String.toList_ofList, List.append_assoc]
    · simp only [hy, String.toList_append, String.toList_ofList, List.append_assoc]
  · refine .inr (.inr ⟨String.toList_inj.1 ?_, String.toList_inj.1 ?_⟩)
    · rw [hs, String.toList_append]
    · rw [hy, String.toList_append]

theorem defaultTransitionId_eq_iff :
    defaultTransitionId s t = defaultTransitionId s' t' ↔
      (s = s' ∧ t = t') ∨ Overlap s t s' t' ∨ Overlap s' t' s t := by
  constructor
  · intro h
    have hlist : s.toList ++ ("_to_".toList ++ t.toList) =
        s'.toList ++ ("_to_".toList ++ t'.toList) := by
      have hid := congrArg String.toList h
      simpa only [defaultTransitionId, String.toList_append, List.append_assoc] using hid
    rcases List.append_eq_append_iff.1 hlist with ⟨x, hs, ht⟩ | ⟨x, hs, ht⟩
    · exact (eq_or_overlap hs ht).imp_right .inl
    · exact (eq_or_overlap hs ht).imp (And.imp Eq.symm Eq.symm) .inr
  · rintro (⟨rfl, rfl⟩ | h | h)
    · rfl
    · exact h.ids_eq
    · exact h.ids_eq.symm

end Ids

namespace TransitionDecl

def Overlaps (t u : TransitionDecl) : Prop :=
  Overlap t.source t.target u.source u.target ∨ Overlap u.source u.target t.source t.target

end TransitionDecl

namespace Declaration

variable {fresh : WorkflowId} {d : Declaration} {ts : List TransitionDecl}

theorem effectiveId_given {t : TransitionDecl} (h : t.id = none) :
    t.effectiveId = defaultTransitionId t.source t.target := by
  rw [TransitionDecl.effectiveId, h, Option.getD_none]

theorem nodup_given_iff (hnone : ∀ t ∈ ts, t.id = none)
    (hedges : (ts.map fun t => (t.source, t.target)).Nodup) :
    (ts.map (·.effectiveId)).Nodup ↔ ts.Pairwise fun t u => ¬t.Overlaps u := by
  have hids : ∀ {t u : TransitionDecl}, t ∈ ts → u ∈ ts → (t.effectiveId = u.effectiveId ↔
      (t.source = u.source ∧ t.target = u.target) ∨ t.Overlaps u) := by
    intro t u ht hu
    rw [effectiveId_given (hnone t ht), effectiveId_given (hnone u hu)]
    exact defaultTransitionId_eq_iff
  rw [List.Nodup, List.pairwise_map] at hedges ⊢
  constructor
  · intro h
    exact h.imp_of_mem fun ht hu hne hover => hne ((hids ht hu).2 (.inr hover))
  · intro h
    refine (h.and hedges).imp_of_mem fun ht hu hboth e => ?_
    rcases (hids ht hu).1 e with ⟨hs, ht'⟩ | hover
    · exact hboth.2 (Prod.ext hs ht')
    · exact hboth.1 hover

theorem compile_error_of_check {e : DeclError} (hcheck : d.check = .ok ())
    (h : d.compile fresh = .error e) :
    ∃ t ∈ d.transitions, e = .graph (.duplicateTransition t.effectiveId) := by
  obtain ⟨⟨m, hm, -⟩, hr, -⟩ := check_ok_iff.1 hcheck
  obtain ⟨hd, hpos, hs⟩ := regular_iff.1 ⟨by rw [hm, Option.isSome_some], hr⟩
  rw [compile_eq hd] at h
  cases hrep : firstRepeat [] d.effectiveIds with
  | none =>
    obtain ⟨w, hw⟩ : ∃ w, (d.drafted fresh).build = .ok w :=
      (build_drafted_ok_iff hd).2 ⟨hpos, hs, firstRepeat_nil_eq_none_iff.1 hrep⟩
    rw [hrep, hw] at h
    cases h
  | some x =>
    rw [hrep] at h
    cases h
    obtain ⟨before, after, hids, -⟩ := split_of_firstRepeat hrep
    have hx : x ∈ d.effectiveIds := by
      rw [hids]
      exact List.mem_append_right _ List.mem_cons_self
    obtain ⟨t, ht, rfl⟩ := List.mem_map.1 hx
    exact ⟨t, ht, rfl⟩

theorem given_ids_clash (fresh : WorkflowId) (d : Declaration) (hcheck : d.check = .ok ())
    (hnone : ∀ t ∈ d.transitions, t.id = none)
    (hedges : (d.transitions.map fun t => (t.source, t.target)).Nodup) :
    ((∃ w, d.compile fresh = .ok w) ↔ d.transitions.Pairwise fun t u => ¬t.Overlaps u) ∧
      (∀ e, d.compile fresh = .error e → ∃ t ∈ d.transitions,
        e = .graph (.duplicateTransition (defaultTransitionId t.source t.target))) ∧
      ∀ s t s' t' : NodeId, defaultTransitionId s t = defaultTransitionId s' t' ↔
        (s = s' ∧ t = t') ∨ Overlap s t s' t' ∨ Overlap s' t' s t := by
  obtain ⟨⟨m, hm, -⟩, hr, -⟩ := check_ok_iff.1 hcheck
  refine ⟨?_, fun e he => ?_, fun s t s' t' => defaultTransitionId_eq_iff⟩
  · rw [compile_ok_iff, and_iff_right (by rw [hm, Option.isSome_some]), and_iff_right hr]
    exact nodup_given_iff hnone hedges
  · obtain ⟨t, ht, rfl⟩ := compile_error_of_check hcheck he
    exact ⟨t, ht, by rw [effectiveId_given (hnone t ht)]⟩

def aligned : Declaration where
  name := "aligned"
  model := some "note"
  nodes := [
    { id := "a", kind := "start", line := 1 },
    { id := "b_to_c", kind := "task", line := 2 },
    { id := "a_to_b", kind := "task", line := 3 },
    { id := "c", kind := "end", line := 4 }]
  transitions := [
    { source := "a", target := "a_to_b", line := 5 },
    { source := "a_to_b", target := "b_to_c", line := 6 },
    { source := "b_to_c", target := "c", line := 7 }]

theorem given_ids_clash_aligned :
    aligned.check = .ok () ∧ (∀ t ∈ aligned.transitions, t.id = none) ∧
      (aligned.transitions.map fun t => (t.source, t.target)).Nodup ∧
      ∃ w, aligned.compile "fresh" = .ok w := by
  have hcheck : aligned.check = .ok () := by cbv
  have hnone : ∀ t ∈ aligned.transitions, t.id = none := by decide
  have hedges : (aligned.transitions.map fun t => (t.source, t.target)).Nodup := by decide
  have hdiffer : aligned.transitions.Pairwise fun t u =>
      defaultTransitionId t.source t.target ≠ defaultTransitionId u.source u.target := by decide
  obtain ⟨hcompile, -, hids⟩ := given_ids_clash "fresh" aligned hcheck hnone hedges
  refine ⟨hcheck, hnone, hedges, hcompile.2 (hdiffer.imp fun hne hover => hne ?_)⟩
  exact (hids _ _ _ _).2 (.inr hover)

def seam : Declaration :=
  { aligned with
    name := "seam"
    transitions := [
      { source := "a", target := "b_to_c", line := 5 },
      { source := "a_to_b", target := "c", line := 6 }] }

theorem seam_clashes :
    (∀ n ∈ seam.nodes, Decl.IsIdentifier n.id) ∧ seam.check = .ok () ∧
      (∀ t ∈ seam.transitions, t.id = none) ∧
      (seam.transitions.map fun t => (t.source, t.target)).Nodup ∧
      seam.compile "fresh" = .error (.graph (.duplicateTransition "a_to_b_to_c")) ∧
      defaultTransitionId "a" "b_to_c" = defaultTransitionId "a_to_b" "c" := by
  refine ⟨by decide, by cbv, by decide, by decide, by cbv, by decide⟩

end Declaration

end Flowgraph
