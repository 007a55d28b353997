namespace Flowgraph

def firstRepeat (seen : List String) : List String → Option String
  | [] => none
  | x :: xs => if seen.contains x then some x else firstRepeat (x :: seen) xs

theorem nodup_of_firstRepeat {seen xs : List String} (h : firstRepeat seen xs = none) :
    xs.Nodup ∧ ∀ x ∈ xs, x ∉ seen := by
  induction xs generalizing seen with
  | nil => simp
  | cons x xs ih =>
      simp only [firstRepeat] at h
      split at h
      · simp at h
      case isFalse hx =>
        obtain ⟨hn, hs⟩ := ih h
        have hx' : x ∉ seen := by simpa using hx
        refine ⟨List.nodup_cons.2 ⟨fun hm => hs x hm (List.mem_cons_self ..), hn⟩, ?_⟩
        intro y hy
        rcases List.mem_cons.1 hy with rfl | hy
        · exact hx'
        · exact fun hm => hs y hy (List.mem_cons_of_mem _ hm)

theorem firstRepeat_eq_none_iff {seen xs : List String} :
    firstRepeat seen xs = none ↔ xs.Nodup ∧ ∀ x ∈ xs, x ∉ seen := by
  refine ⟨nodup_of_firstRepeat, ?_⟩
  induction xs generalizing seen with
  | nil => exact fun _ => rfl
  | cons x xs ih =>
      rintro ⟨hn, hs⟩
      obtain ⟨hx, hxs⟩ := List.nodup_cons.1 hn
      have hfree : ¬ seen.contains x = true := by
        simpa using hs x (List.mem_cons_self ..)
      rw [firstRepeat, if_neg hfree]
      refine ih ⟨hxs, fun y hy hm => ?_⟩
      rcases List.mem_cons.1 hm with rfl | hm
      · exact hx hy
      · exact hs y (List.mem_cons_of_mem _ hy) hm

theorem firstRepeat_nil_eq_none_iff {xs : List String} : firstRepeat [] xs = none ↔ xs.Nodup := by
  simp [firstRepeat_eq_none_iff]

theorem split_of_firstRepeat {seen xs : List String} {x : String}
    (h : firstRepeat seen xs = some x) :
    ∃ before after, xs = before ++ x :: after ∧ before.Nodup ∧ (∀ y ∈ before, y ∉ seen) ∧
      (x ∈ before ∨ x ∈ seen) := by
  induction xs generalizing seen with
  | nil => simp [firstRepeat] at h
  | cons y ys ih =>
      rw [firstRepeat] at h
      split at h
      case isTrue hy =>
        obtain rfl := Option.some.inj h
        exact ⟨[], ys, rfl, .nil, by simp, .inr (List.contains_iff_mem.1 hy)⟩
      case isFalse hy =>
        have hfree : y ∉ seen := by simpa using hy
        obtain ⟨before, after, rfl, hn, hs, hx⟩ := ih h
        have hyb : y ∉ before := fun hm => hs y hm (List.mem_cons_self ..)
        refine ⟨y :: before, after, rfl, List.nodup_cons.2 ⟨hyb, hn⟩, ?_, ?_⟩
        · intro z hz
          rcases List.mem_cons.1 hz with rfl | hz
          · exact hfree
          · exact fun hm => hs z hz (List.mem_cons_of_mem _ hm)
        · rcases hx with hx | hx
          · exact .inl (List.mem_cons_of_mem _ hx)
          · rcases List.mem_cons.1 hx with rfl | hx
            · exact .inl (List.mem_cons_self ..)
            · exact .inr hx

end Flowgraph
