import Mathlib.Data.List.Basic

namespace Flowgraph.Text

def slice? (s : String) (first last : Nat) : Option String :=
  if h : first ≤ last ∧
      (String.Pos.Raw.mk first).IsValid s ∧ (String.Pos.Raw.mk last).IsValid s then
    some (s.extract (s.pos ⟨first⟩ h.2.1) (s.pos ⟨last⟩ h.2.2))
  else none

def bytes (cs : List Char) : Nat := (String.ofList cs).utf8ByteSize

theorem bytes_nil : bytes [] = 0 := rfl

theorem bytes_append (a b : List Char) : bytes (a ++ b) = bytes a + bytes b := by
  rw [bytes, String.ofList_append, String.utf8ByteSize_append]
  rfl

theorem bytes_singleton (c : Char) : bytes [c] = c.utf8Size := by
  rw [bytes, ← String.singleton_eq_ofList, String.utf8ByteSize_singleton]

theorem bytes_cons (c : Char) (a : List Char) : bytes (c :: a) = c.utf8Size + bytes a := by
  rw [← List.singleton_append, bytes_append, bytes_singleton]

theorem bytes_concat (a : List Char) (c : Char) : bytes (a ++ [c]) = bytes a + c.utf8Size := by
  rw [bytes_append, bytes_singleton]

theorem bytes_toList (s : String) : bytes s.toList = s.utf8ByteSize := by
  rw [bytes, String.ofList_toList]

section Slices

variable {s : String} {a b c : List Char}

theorem slice?_middle (h : s.toList = a ++ (b ++ c)) :
    slice? s (bytes a) (bytes a + bytes b) = some (String.ofList b) := by
  have hs : s = String.ofList a ++ (String.ofList b ++ String.ofList c) := by
    rw [← String.ofList_append, ← String.ofList_append, ← h, String.ofList_toList]
  have hfirst : (String.Pos.Raw.mk (bytes a)).IsValid s :=
    String.Pos.Raw.isValid_iff_exists_append.mpr ⟨_, _, hs, rfl⟩
  have hlast : (String.Pos.Raw.mk (bytes a + bytes b)).IsValid s := by
    rw [← bytes_append]
    refine String.Pos.Raw.isValid_iff_exists_append.mpr
      ⟨String.ofList (a ++ b), String.ofList c, ?_, rfl⟩
    rw [hs, String.ofList_append, String.append_assoc]
  have hextract : s.toByteArray.extract (bytes a) (bytes a + bytes b) =
      (String.ofList b).toByteArray := by
    rw [hs, String.toByteArray_append, String.toByteArray_append]
    exact (ByteArray.extract_append_size_add (i := 0)).trans (ByteArray.extract_append_eq_left rfl)
  rw [slice?, dif_pos ⟨Nat.le_add_right _ _, hfirst, hlast⟩, Option.some.injEq,
    ← String.toByteArray_inj, String.toByteArray_extract, String.offset_pos, String.offset_pos]
  exact hextract

example : slice? "aéb" 1 3 = some "é" ∧ slice? "aéb" 2 3 = none := by decide

theorem slice?_front (h : s.toList = a ++ b) : slice? s 0 (bytes a) = some (String.ofList a) := by
  have hm : s.toList = [] ++ (a ++ b) := h
  simpa only [bytes_nil, Nat.zero_add] using slice?_middle hm

theorem slice?_back (h : s.toList = a ++ b) :
    slice? s (bytes a) s.utf8ByteSize = some (String.ofList b) := by
  have hm : s.toList = a ++ (b ++ []) := by rw [h, List.append_nil]
  have hb : s.utf8ByteSize = bytes a + bytes b := by rw [← bytes_append, ← h, bytes_toList]
  rw [hb, slice?_middle hm]

end Slices

end Flowgraph.Text
