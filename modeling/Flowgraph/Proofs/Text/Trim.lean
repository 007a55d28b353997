import Flowgraph.Text.Blank
import Mathlib.Data.List.DropRight

namespace Flowgraph.Text

def Blanks (cs : List Char) : Prop := ∀ c ∈ cs, isBlank c = true

structure Solid (cs : List Char) : Prop where
  begins : ∃ c, cs.head? = some c ∧ isBlank c = false
  ends : ∃ c, cs.getLast? = some c ∧ isBlank c = false

theorem trimStart_append {a : List Char} (h : Blanks a) (m : List Char) :
    trimStart (a ++ m) = trimStart m :=
  List.dropWhile_append_of_pos h

theorem trimStart_append_of_not_blanks {m : List Char} (h : ¬Blanks m) (b : List Char) :
    trimStart (m ++ b) = trimStart m ++ b := by
  have hn : ¬(m.dropWhile isBlank).isEmpty = true := by
    simpa only [Blanks, List.isEmpty_iff, List.dropWhile_eq_nil_iff] using h
  rw [trimStart, List.dropWhile_append, if_neg hn, trimStart]

theorem trimEnd_concat (cs : List Char) (c : Char) :
    trimEnd (cs ++ [c]) = if isBlank c then trimEnd cs else cs ++ [c] := by
  induction cs with
  | nil => rfl
  | cons d cs ih =>
    rw [List.cons_append, trimEnd, ih]
    by_cases hc : isBlank c = true
    · simp only [if_pos hc, trimEnd]
    · cases cs <;> simp [if_neg hc]

theorem trimEnd_eq_rdropWhile (cs : List Char) : trimEnd cs = cs.rdropWhile isBlank := by
  induction cs using List.reverseRecOn with
  | nil => rfl
  | append_singleton cs c ih => rw [trimEnd_concat, List.rdropWhile_concat, ih]

theorem trimEnd_append {b : List Char} (h : Blanks b) (m : List Char) :
    trimEnd (m ++ b) = trimEnd m := by
  simp only [trimEnd_eq_rdropWhile, List.rdropWhile, List.reverse_append]
  rw [List.dropWhile_append_of_pos fun c hc => h c (List.mem_reverse.mp hc)]

theorem trimEnd_append_of_not_blanks {m : List Char} (h : ¬Blanks m) (a : List Char) :
    trimEnd (a ++ m) = a ++ trimEnd m := by
  have hn : ¬(m.reverse.dropWhile isBlank).isEmpty = true := by
    simpa only [Blanks, List.isEmpty_iff, List.dropWhile_eq_nil_iff, List.mem_reverse] using h
  simp only [trimEnd_eq_rdropWhile, List.rdropWhile, List.reverse_append]
  rw [List.dropWhile_append, if_neg hn, List.reverse_append, List.reverse_reverse]

namespace Solid

variable {cs l r : List Char}

theorem trimStart (h : Solid cs) : trimStart cs = cs := by
  obtain ⟨c, hc, hb⟩ := h.begins
  obtain ⟨r, rfl⟩ := List.head?_eq_some_iff.mp hc
  simp [Text.trimStart, hb]

theorem trimEnd (h : Solid cs) : trimEnd cs = cs := by
  obtain ⟨c, hc, hb⟩ := h.ends
  obtain ⟨r, rfl⟩ := List.getLast?_eq_some_iff.mp hc
  simp [trimEnd_concat, hb]

theorem ne_nil (h : Solid cs) : cs ≠ [] := by
  obtain ⟨c, hc, -⟩ := h.begins
  rintro rfl
  cases hc

theorem not_blanks (h : Solid cs) : ¬Blanks cs := by
  obtain ⟨c, hc, hb⟩ := h.begins
  intro hall
  rw [hall c (List.mem_of_mem_head? hc)] at hb
  cases hb

theorem around (hl : Solid l) (m : List Char) (hr : Solid r) : Solid (l ++ m ++ r) := by
  obtain ⟨c, hc, hcb⟩ := hl.begins
  obtain ⟨d, hd, hdb⟩ := hr.ends
  refine ⟨⟨c, ?_, hcb⟩, d, ?_, hdb⟩
  · simp [List.head?_append, hc]
  · simp [List.getLast?_append, hd]

theorem trim_padded {a b : List Char} (ha : Blanks a) (h : Solid cs) (hb : Blanks b) :
    trim (a ++ cs ++ b) = cs := by
  rw [trim, List.append_assoc, trimStart_append ha, trimStart_append_of_not_blanks h.not_blanks,
    h.trimStart, trimEnd_append hb, h.trimEnd]

theorem trim_blanks_append {a : List Char} (ha : Blanks a) (h : Solid cs) :
    trim (a ++ cs) = cs := by
  have hp : trim (a ++ cs ++ []) = cs := trim_padded ha h (List.forall_mem_nil _)
  rwa [List.append_nil] at hp

theorem trim_append_blanks {b : List Char} (h : Solid cs) (hb : Blanks b) : trim (cs ++ b) = cs :=
  trim_padded (a := []) (List.forall_mem_nil _) h hb

end Solid

theorem solid_of_trim {cs : List Char} (h : trim cs = cs) (hn : cs ≠ []) : Solid cs := by
  have hstart : (trimStart cs).length ≤ cs.length := (List.dropWhile_suffix _).length_le
  have hend : (trim cs).length ≤ (trimStart cs).length := by
    rw [trim, trimEnd_eq_rdropWhile]
    exact (List.rdropWhile_prefix _ _).length_le
  have hs : trimStart cs = cs :=
    (List.dropWhile_suffix _).eq_of_length (le_antisymm hstart (by rw [h] at hend; exact hend))
  have he : cs.rdropWhile isBlank = cs := by rwa [trim, hs, trimEnd_eq_rdropWhile] at h
  constructor
  · obtain ⟨c, r, rfl⟩ := List.exists_cons_of_ne_nil hn
    have hc : ¬isBlank c = true := List.dropWhile_eq_self_iff.mp hs (by simp)
    exact ⟨c, rfl, by simpa using hc⟩
  · exact ⟨cs.getLast hn, List.getLast?_eq_some_getLast hn,
      by simpa using List.rdropWhile_eq_self_iff.mp he hn⟩

end Flowgraph.Text
