import Flowgraph.Graph.Reach
import Flowgraph.Proofs.Graph.Ends
import Mathlib.Data.List.Perm.Subperm
import Mathlib.Logic.Function.Iterate
import Mathlib.Logic.Relation

namespace Flowgraph

structure Search where
  seen : List NodeId
  stack : List NodeId

namespace Workflow

variable {w : Workflow}

def Follows (w : Workflow) (m n : NodeId) : Prop :=
  ∃ t, w.transition? t.id = some t ∧ t.source = m ∧ t.target = n

theorem mem_successors_iff {m n : NodeId} : n ∈ w.successors m ↔ w.Follows m n := by
  simp only [successors, List.mem_map, mem_outgoing_iff, Follows, and_assoc]

theorem path_iff {m n : NodeId} : w.Path m n ↔ Relation.ReflTransGen w.Follows m n := by
  constructor
  · intro h
    induction h with
    | here => exact .refl
    | step _ ht ih =>
      obtain ⟨htr, hs⟩ := mem_outgoing_iff.1 ht
      exact ih.tail ⟨_, htr, hs, rfl⟩
  · intro h
    induction h with
    | refl => exact .here m
    | tail _ hstep ih =>
      obtain ⟨t, htr, hs, rfl⟩ := hstep
      exact .step ih (mem_outgoing_iff.2 ⟨htr, hs⟩)

theorem contains_of_mem_successors {m n : NodeId} (h : n ∈ w.successors m) :
    w.contains n = true := by
  obtain ⟨t, htr, -, rfl⟩ := mem_successors_iff.1 h
  exact w.wellFormed.target_mem htr

end Workflow

namespace Search

variable {w : Workflow} {a n : NodeId} {s s' : Search}

def start (n : NodeId) : Search := ⟨[], [n]⟩

inductive Looks (w : Workflow) : Search → Search → Prop
  | again {seen rest : List NodeId} {n : NodeId} (old : n ∈ seen) :
      Looks w ⟨seen, n :: rest⟩ ⟨seen, rest⟩
  | new {seen rest found : List NodeId} {n : NodeId} (fresh : n ∉ seen)
      (sound : found.Subperm (w.successors n))
      (complete : ∀ m ∈ w.successors n, m ∈ n :: seen ∨ m ∈ found) :
      Looks w ⟨seen, n :: rest⟩ ⟨n :: seen, found ++ rest⟩

def look (w : Workflow) : Search → Search
  | ⟨seen, []⟩ => ⟨seen, []⟩
  | ⟨seen, n :: rest⟩ =>
      if n ∈ seen then ⟨seen, rest⟩
      else ⟨n :: seen, ((w.successors n).filter (· ∉ n :: seen)).reverse ++ rest⟩

theorem looks_look {seen rest : List NodeId} :
    Looks w ⟨seen, n :: rest⟩ (look w ⟨seen, n :: rest⟩) := by
  rw [look]
  split
  case isTrue old => exact .again old
  case isFalse fresh =>
    refine .new fresh ?_ fun m hm => ?_
    · exact (List.reverse_perm _).subperm.trans List.filter_sublist.subperm
    · by_cases hseen : m ∈ n :: seen
      · exact .inl hseen
      · exact .inr (List.mem_reverse.2 (List.mem_filter.2 ⟨hm, decide_eq_true hseen⟩))

structure Explores (w : Workflow) (a : NodeId) (s : Search) : Prop where
  root : a ∈ s.seen ∨ a ∈ s.stack
  led : ∀ {n}, n ∈ s.seen ∨ n ∈ s.stack → w.Path a n
  closed : ∀ {n m}, n ∈ s.seen → m ∈ w.successors n → m ∈ s.seen ∨ m ∈ s.stack

theorem Explores.start (w : Workflow) (a : NodeId) : Explores w a (.start a) where
  root := .inr List.mem_cons_self
  led {n} hn := by
    rcases hn with hn | hn
    · cases hn
    · rw [List.mem_singleton.1 hn]
      exact .here a
  closed hn := by cases hn

theorem Explores.looks (h : Explores w a s) (hl : Looks w s s') : Explores w a s' := by
  cases hl with
  | @again seen rest n old =>
    have hkept : ∀ {m}, m ∈ seen ∨ m ∈ n :: rest → m ∈ seen ∨ m ∈ rest := by
      rintro m (hm | hm)
      · exact .inl hm
      · rcases List.mem_cons.1 hm with rfl | hm
        · exact .inl old
        · exact .inr hm
    exact ⟨hkept h.root, fun hn => h.led (hn.imp_right (List.mem_cons_of_mem n)),
      fun hn hm => hkept (h.closed hn hm)⟩
  | @new seen rest found n fresh sound complete =>
    have hkept : ∀ {m}, m ∈ seen ∨ m ∈ n :: rest → m ∈ n :: seen ∨ m ∈ found ++ rest := by
      rintro m (hm | hm)
      · exact .inl (List.mem_cons_of_mem n hm)
      · rcases List.mem_cons.1 hm with rfl | hm
        · exact .inl List.mem_cons_self
        · exact .inr (List.mem_append_right found hm)
    have hn : w.Path a n := h.led (.inr List.mem_cons_self)
    refine ⟨hkept h.root, fun {m} hm => ?_, fun {k m} hk hm => ?_⟩
    · simp only [List.mem_cons, List.mem_append] at hm
      rcases hm with (rfl | hm) | hm | hm
      · exact hn
      · exact h.led (.inl hm)
      · exact Workflow.path_iff.2
          ((Workflow.path_iff.1 hn).tail (Workflow.mem_successors_iff.1 (sound.subset hm)))
      · exact h.led (.inr (List.mem_cons_of_mem n hm))
    · rcases List.mem_cons.1 hk with rfl | hk
      · exact (complete m hm).imp_right (List.mem_append_left rest)
      · exact hkept (h.closed hk hm)

theorem Explores.mem_seen_iff (h : Explores w a s) (hend : s.stack = []) :
    n ∈ s.seen ↔ w.Path a n := by
  -- with nothing left on the stack, the nodes that were seen are closed under successors
  have hseen : ∀ {m}, m ∈ s.seen ∨ m ∈ s.stack → m ∈ s.seen := by
    rintro m (hm | hm)
    · exact hm
    · rw [hend] at hm
      cases hm
  refine ⟨fun hn => h.led (.inl hn), fun hpath => ?_⟩
  induction hpath with
  | here => exact hseen h.root
  | step _ ht ih => exact hseen (h.closed ih (List.mem_map_of_mem ht))

theorem Explores.run (hr : Relation.ReflTransGen (Looks w) s s') (h : Explores w a s) :
    Explores w a s' := by
  induction hr with
  | refl => exact h
  | tail _ hl ih => exact ih.looks hl

def owed (w : Workflow) (s : Search) : Nat :=
  s.stack.length + (w.ordered.filter (·.source ∉ s.seen)).length

theorem length_unseen (w : Workflow) {seen : List NodeId} (fresh : n ∉ seen) :
    (w.ordered.filter (·.source ∉ seen)).length =
      (w.successors n).length + (w.ordered.filter (·.source ∉ n :: seen)).length := by
  have hout : (w.successors n).length = (w.ordered.filter (·.source = n)).length := by
    rw [Workflow.successors, List.length_map, Workflow.outgoing_eq_leaving, Graph.leaving]
  rw [hout]
  induction w.ordered with
  | nil => rfl
  | cons t ts ih =>
    by_cases hs : t.source = n
    · simp [hs, fresh] at ih ⊢
      omega
    · by_cases hseen : t.source ∈ seen
      · simp [hs, hseen] at ih ⊢
        omega
      · simp [hs, hseen] at ih ⊢
        omega

theorem Looks.owed_lt (h : Looks w s s') : s'.owed w < s.owed w := by
  cases h with
  | again => simp [owed]
  | new fresh sound _ =>
    have hfound := sound.length_le
    have hunseen := length_unseen w fresh
    simp only [owed, List.length_append, List.length_cons] at hunseen ⊢
    omega

theorem owed_start (w : Workflow) (n : NodeId) : (start n).owed w = w.transitions.size + 1 := by
  have hsize : w.ordered.length = w.transitions.size := by
    rw [Graph.ordered, List.length_mergeSort, Keyed.values, List.length_map, Keyed.size]
  have hall : (w.ordered.filter (·.source ∉ (start n).seen)).length = w.ordered.length := by
    simp [start]
  rw [owed, hall, hsize, Nat.add_comm]
  rfl

theorem looks_iterate (w : Workflow) (k : Nat) (s : Search) :
    Relation.ReflTransGen (Looks w) s ((look w)^[k] s) := by
  induction k generalizing s with
  | zero => exact .refl
  | succ k ih =>
    rw [Function.iterate_succ_apply]
    obtain ⟨seen, _ | ⟨n, rest⟩⟩ := s
    · exact ih _
    · exact .head looks_look (ih _)

theorem stack_iterate {k : Nat} (h : s.owed w ≤ k) : ((look w)^[k] s).stack = [] := by
  induction k generalizing s with
  | zero =>
    have hempty : s.stack.length = 0 := by
      rw [owed] at h
      omega
    exact List.length_eq_zero_iff.1 hempty
  | succ k ih =>
    obtain ⟨seen, _ | ⟨n, rest⟩⟩ := s
    · rw [Function.iterate_fixed (rfl : look w ⟨seen, []⟩ = ⟨seen, []⟩)]
    · have hlook : Looks w ⟨seen, n :: rest⟩ (look w ⟨seen, n :: rest⟩) := looks_look
      have hlt := hlook.owed_lt
      rw [Function.iterate_succ_apply]
      exact ih (by omega)

end Search

namespace Workflow

variable {w : Workflow} {seen stack : List NodeId} {n : NodeId}

open Search (Looks Explores)

def unseen (w : Workflow) (seen : List NodeId) : List NodeId := w.nodes.keys.filter (· ∉ seen)

theorem mem_unseen_iff : n ∈ w.unseen seen ↔ w.contains n = true ∧ n ∉ seen := by
  rw [unseen, List.mem_filter, Keyed.mem_keys_iff, decide_eq_true_iff, contains]

theorem erase_unseen (n : NodeId) (seen : List NodeId) :
    (w.unseen seen).erase n = w.unseen (n :: seen) := by
  have hnodup : (w.unseen seen).Nodup := (Keyed.nodup_keys w.nodes).filter _
  rw [hnodup.erase_eq_filter, unseen, unseen, List.filter_filter]
  refine List.filter_congr fun m _ => ?_
  by_cases e : m = n <;> simp [e]

theorem unreached_eq_unseen (seen : List NodeId) (hstack : ∀ m ∈ stack, w.contains m = true) :
    ∃ s, Relation.ReflTransGen (Looks w) ⟨seen, stack⟩ s ∧ s.stack = [] ∧
      w.unreached (w.unseen seen) stack = w.unseen s.seen := by
  generalize hu : w.unseen seen = unseen
  induction unseen, stack using Workflow.unreached.induct w generalizing seen with
  | case1 unseen =>
    exact ⟨⟨seen, []⟩, .refl, rfl, by rw [unreached, ← hu]⟩
  | case2 unseen n rest hn ih =>
    subst hu
    have hnodes : ∀ m ∈ w.successors n ++ rest, w.contains m = true := by
      intro m hm
      rcases List.mem_append.1 hm with hm | hm
      · exact contains_of_mem_successors hm
      · exact hstack m (List.mem_cons_of_mem n hm)
    have hlook : Looks w ⟨seen, n :: rest⟩ ⟨n :: seen, w.successors n ++ rest⟩ :=
      .new (mem_unseen_iff.1 hn).2 (List.Subperm.refl _) fun _ => .inr
    obtain ⟨s, hrun, hend, hs⟩ := ih _ hnodes (erase_unseen n seen).symm
    rw [unreached, if_pos hn]
    exact ⟨s, .head hlook hrun, hend, hs⟩
  | case3 unseen n rest hn ih =>
    subst hu
    obtain ⟨s, hrun, hend, hs⟩ := ih _ (fun m hm => hstack m (List.mem_cons_of_mem n hm)) rfl
    have hold : n ∈ seen := by
      have hnode := hstack n List.mem_cons_self
      rw [mem_unseen_iff, not_and, Classical.not_not] at hn
      exact hn hnode
    rw [unreached, if_neg hn]
    exact ⟨s, .head (.again hold) hrun, hend, hs⟩

def searched (w : Workflow) : Search :=
  (Search.look w)^[w.transitions.size + 1] (.start w.root)

theorem stack_searched : w.searched.stack = [] :=
  Search.stack_iterate (Nat.le_of_eq (Search.owed_start w w.root))

theorem mem_seen_searched_iff : n ∈ w.searched.seen ↔ w.Path w.root n :=
  ((Explores.start w w.root).run (Search.looks_iterate w _ _)).mem_seen_iff stack_searched

theorem unreachable_eq_unseen : w.unreachable = w.unseen w.searched.seen := by
  have hroot : ∀ m ∈ [w.root], w.contains m = true := by
    intro m hm
    rw [List.mem_singleton.1 hm]
    exact w.wellFormed.root_mem
  have hall : w.unseen [] = w.nodes.keys := by simp [unseen]
  obtain ⟨s, hrun, hend, hs⟩ := unreached_eq_unseen [] hroot
  have hexplores : Explores w w.root s := (Explores.start w w.root).run hrun
  rw [unreachable, ← hall, hs]
  refine List.filter_congr fun m _ => ?_
  rw [decide_eq_decide, hexplores.mem_seen_iff hend, mem_seen_searched_iff]

theorem mem_unreachable_iff :
    n ∈ w.unreachable ↔ w.contains n = true ∧ ¬ w.Path w.root n := by
  rw [unreachable_eq_unseen, mem_unseen_iff, mem_seen_searched_iff]

theorem unreachable_ascending : w.unreachable.Pairwise (· < ·) := by
  have hkeys : w.nodes.keys.Pairwise (· < ·) :=
    List.pairwise_map.2 (w.nodes.ascending.imp of_decide_eq_true)
  rw [unreachable_eq_unseen]
  exact hkeys.filter _

end Workflow

end Flowgraph
