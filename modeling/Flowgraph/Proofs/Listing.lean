import Flowgraph.Keyed
import Mathlib.Data.List.Nodup

namespace Flowgraph.Keyed

variable {κ α : Type} [Key κ] [DecidableEq κ] {k : κ} {a : α} {l l' : List (κ × α)}

theorem get?_ofList_iff (h : (l.map (·.1)).Nodup) : (ofList l).get? k = some a ↔ (k, a) ∈ l := by
  refine ⟨mem_of_get?_ofList, fun hm => ?_⟩
  have hk : (ofList l).contains k = true := contains_ofList.2 (List.mem_map.2 ⟨(k, a), hm, rfl⟩)
  obtain ⟨b, hb⟩ := Option.isSome_iff_exists.1 hk
  have hbm := mem_of_get?_ofList hb
  have hab : (k, a) = (k, b) := List.inj_on_of_nodup_map h hm hbm rfl
  rw [hb, (Prod.mk.inj hab).2]

theorem ofList_perm (h : (l.map (·.1)).Nodup) (hp : l'.Perm l) : ofList l' = ofList l := by
  refine ext fun k => Option.ext fun a => ?_
  rw [get?_ofList_iff h, get?_ofList_iff ((hp.map _).nodup_iff.2 h), hp.mem_iff]

theorem ofList_entries (m : Keyed κ α) : ofList m.entries = m := by
  refine ext fun k => Option.ext fun a => ?_
  rw [get?_ofList_iff m.nodup_keys, get?_eq_some_iff]

theorem entries_ofList_perm (h : (l.map (·.1)).Nodup) : (ofList l).entries.Perm l := by
  have hentries : (ofList l).entries.Nodup := List.Nodup.of_map _ (ofList l).nodup_keys
  refine (List.perm_ext_iff_of_nodup hentries (List.Nodup.of_map _ h)).2 fun e => ?_
  rw [← get?_ofList_iff h, get?_eq_some_iff]

theorem ofList_values {m : Keyed κ α} {key : α → κ} {f : α → α}
    (h : ∀ {k a}, m.get? k = some a → key a = k ∧ f a = a) :
    ofList (m.values.map fun a => (key a, f a)) = m := by
  have hentries : (m.values.map fun a => (key a, f a)) = m.entries := by
    rw [values, List.map_map]
    refine (List.map_congr_left fun e he => ?_).trans (List.map_id _)
    obtain ⟨hk, hf⟩ := h (get?_eq_some_iff.2 he)
    exact Prod.ext hk hf
  rw [hentries, ofList_entries]

def map {β : Type} (f : α → β) (m : Keyed κ α) : Keyed κ β where
  entries := m.entries.map fun e => (e.1, f e.2)
  ascending := List.pairwise_map.2 m.ascending

end Flowgraph.Keyed
