import Mathlib.Data.List.Sort

namespace Flowgraph

variable {α : Type} {le : α → α → Bool} {sequence : α → Int32} {id : α → String} {a b c : α}
  {l l' : List α}

def Ranks (le : α → α → Bool) (sequence : α → Int32) (id : α → String) : Prop :=
  ∀ a b, le a b = true ↔ sequence a < sequence b ∨ sequence a = sequence b ∧ id a ≤ id b

namespace Ranks

theorem trans (h : Ranks le sequence id) (hab : le a b = true) (hbc : le b c = true) :
    le a c = true := by
  rw [h] at hab hbc ⊢
  rcases hab with hab | ⟨e, hab⟩ <;> rcases hbc with hbc | ⟨e', hbc⟩
  · exact .inl (Int32.lt_trans hab hbc)
  · exact .inl (e' ▸ hab)
  · exact .inl (e ▸ hbc)
  · exact .inr ⟨e.trans e', String.le_trans hab hbc⟩

theorem total (h : Ranks le sequence id) (a b : α) : (le a b || le b a) = true := by
  rw [Bool.or_eq_true, h, h]
  rcases Int.lt_trichotomy (sequence a).toInt (sequence b).toInt with hlt | heq | hgt
  · exact .inl (.inl (Int32.lt_iff_toInt_lt.2 hlt))
  · have e : sequence a = sequence b := Int32.toInt_inj.1 heq
    exact (String.le_total (id a) (id b)).imp (fun hid => .inr ⟨e, hid⟩)
      fun hid => .inr ⟨e.symm, hid⟩
  · exact .inr (.inl (Int32.lt_iff_toInt_lt.2 hgt))

theorem id_eq (h : Ranks le sequence id) (hab : le a b = true) (hba : le b a = true) :
    id a = id b := by
  rw [h] at hab hba
  rcases hab with hab | ⟨e, hab⟩ <;> rcases hba with hba | ⟨e', hba⟩
  · exact (Int32.lt_irrefl (Int32.lt_trans hab hba)).elim
  · exact (Int32.lt_irrefl (e' ▸ hab)).elim
  · exact (Int32.lt_irrefl (e ▸ hba)).elim
  · exact String.le_antisymm hab hba

theorem sorted (h : Ranks le sequence id) (l : List α) :
    (l.mergeSort le).Pairwise fun a b => le a b = true :=
  @List.pairwise_mergeSort _ le (fun _ _ _ => h.trans) h.total l

theorem strictly_sorted (h : Ranks le sequence id) (hids : (l.map id).Nodup) :
    (l.mergeSort le).Pairwise fun a b =>
      sequence a < sequence b ∨ sequence a = sequence b ∧ id a < id b := by
  have hne : (l.mergeSort le).Pairwise fun a b => id a ≠ id b :=
    List.pairwise_map.1 (((List.mergeSort_perm l le).map id).nodup_iff.2 hids)
  refine ((h.sorted l).and hne).imp fun hab => ?_
  exact ((h _ _).1 hab.1).imp_right fun ⟨e, hle⟩ => ⟨e, Std.lt_of_le_of_ne hle hab.2⟩

theorem mergeSort_perm (h : Ranks le sequence id) (hids : (l.map id).Nodup) (hp : l'.Perm l) :
    l'.mergeSort le = l.mergeSort le := by
  refine List.Perm.eq_of_pairwise (fun a b ha hb hab hba => ?_) (h.sorted l') (h.sorted l)
    ((List.mergeSort_perm l' le).trans (hp.trans (List.mergeSort_perm l le).symm))
  have ha' : a ∈ l := hp.mem_iff.1 ((List.mergeSort_perm l' le).mem_iff.1 ha)
  have hb' : b ∈ l := (List.mergeSort_perm l le).mem_iff.1 hb
  exact List.inj_on_of_nodup_map hids ha' hb' (h.id_eq hab hba)

end Ranks

end Flowgraph
